import InspectorProtocol.Proofs.MethodRegistry

/-!
# Expansion of aliases

An alias stands for a built-in type or for lists, and the elements of lists may be another alias.
Boxing follows what is stored by value and stops at lists, so it does not see where aliases lead
through their elements. Expanding them comes to an end unless array types refer to each other in a
circle, and such a circle is emitted as it stands.
-/

namespace InspectorProtocol

open Description Text

/-! ### Names of types and of their elements -/

namespace Identifier

lemma length_capitalised_pieces (pieces : List (List Char)) :
    (pieces.map capitalise).flatten.length = pieces.flatten.length := by
  induction pieces with
  | nil => rfl
  | cons piece rest ih =>
    have hpiece : (capitalise piece).length = piece.length := by cases piece <;> rfl
    simp only [List.map_cons, List.flatten_cons, List.length_append, hpiece, ih]

lemma length_pieces (p : Char → Bool) (cs : List Char) :
    (splitChars p cs).flatten.length = cs.countP (!p ·) := by
  induction cs with
  | nil => rfl
  | cons c rest ih =>
    unfold splitChars
    by_cases hc : p c = true
    · simp [hc, ih]
    · cases hsplit : splitChars p rest with
      | nil => exact absurd hsplit (splitChars_ne_nil p rest)
      | cons piece more =>
        rw [hsplit, List.flatten_cons, List.length_append] at ih
        simp only [hc, Bool.false_eq_true, if_false, List.flatten_cons, List.length_append,
          List.length_cons, Bool.not_false, List.countP_cons, if_true]
        omega

lemma length_pascalCase (s : String) :
    (pascalCase s).length = s.toList.countP Char.isAlphanum := by
  have hpieces := length_pieces (!·.isAlphanum) s.toList
  simp only [Bool.not_not] at hpieces
  rw [← hpieces, pascalCase, String.length_ofList, length_capitalised_pieces]

lemma length_typeName {name : String} (h : pascalCase name ≠ "") :
    (pascalCase name).length ≤ (typeName name).length ∧
      (typeName name).length ≤ (pascalCase name).length + 1 := by
  unfold typeName capitalised
  simp only [String.isEmpty_iff, if_neg h]
  have hlead : "T".length = 1 := rfl
  have hescape : "_".length = 1 := rfl
  split
  · rw [String.length_append]
    omega
  · split
    · rw [String.length_append]
      omega
    · omega

lemma typeName_item_ne (name : String) : typeName (name ++ "Item") ≠ typeName name := by
  have hlength : (pascalCase (name ++ "Item")).length = (pascalCase name).length + 4 := by
    rw [length_pascalCase, length_pascalCase, String.toList_append, List.countP_append]
    rfl
  have hitem : pascalCase (name ++ "Item") ≠ "" := by
    intro hempty
    rw [hempty] at hlength
    simp at hlength
  have hlong := length_typeName hitem
  intro heq
  rw [heq] at hlong
  by_cases hname : pascalCase name = ""
  · have hunnamed : typeName name = "Unnamed" := by
      unfold typeName capitalised
      simp [hname]
    rw [hunnamed, hlength, hname] at hlong
    exact absurd hlong (by decide)
  · have hshort := length_typeName hname
    omega

end Identifier

lemma Description.Items.name_of_origin {items : Items} {record : String} {r : InlineRecord}
    (h : items.origin record = .inline r) : r.name = record := by
  fun_induction Items.origin record items with
  | case1 | case5 => cases h
  | case2 properties nested ih => exact ih h
  | case3 | case4 =>
    cases h
    rfl

/-! ### What aliases stand for -/

/-- Whether the alias of a type stands for a target that comes from an origin. Only arrays have
origins that are not plain, and their records are named after the type. -/
structure Description.TypeDecl.StandsFor (settings : Settings) (c : Catalogue) (domain : String)
    (type : TypeDecl) (origin : Origin) (target : TypeRef) : Prop where
  origins : type.origins settings domain = [origin]
  gives : origin.Gives c domain target
  array : origin ≠ .plain → type.kind = .array
  record : ∀ r, origin = .inline r → r.name = type.name ++ "Item"

namespace Draft

variable {settings : Settings} {c : Catalogue} {domain : String}

lemma standsFor_of_typeBinding {type : TypeDecl} {binding : Binding}
    {records : List InlineRecord} (h : typeBinding settings c domain type = .ok (binding, records))
    (hkind : binding.kind = .alias) :
    ∃ target origin, binding.target = some target ∧
      type.StandsFor settings c domain origin target := by
  have hbinds := bindsType_of_typeBinding h
  have hplain {target : TypeRef} (horigins : type.origins settings domain = [.plain])
      (hgives : Origin.plain.Gives c domain target) :
      type.StandsFor settings c domain .plain target :=
    ⟨horigins, hgives, fun hne => absurd rfl hne, by simp⟩
  cases hbinds with
  | @replaced replacement hoverride =>
    refine ⟨_, .plain, rfl, hplain ?_ (by cases replacement <;> rfl)⟩
    simp only [TypeDecl.origins, hoverride]
  | values | record => cases hkind
  | array hoverride hvalues harray hitems hresolved =>
    obtain ⟨_, hgives⟩ := Catalogue.resolveItems_spec hresolved
    refine ⟨_, _, rfl, ?_, hgives, fun _ => harray, fun r => Items.name_of_origin⟩
    simp [TypeDecl.origins, hoverride, hvalues, harray, hitems]
  | plain hoverride hvalues harray hobject hresolved =>
    obtain ⟨_, hgives⟩ := Catalogue.resolveProperty_spec hresolved
    rw [origin_of_kind] at hgives
    refine ⟨_, .plain, rfl, hplain ?_ hgives⟩
    simp only [TypeDecl.origins, hoverride, hvalues]

lemma standsFor_of_attempt {x : Declaration} {draft : Draft}
    (h : x.attempt settings c domain = .ok draft) {b : Binding} (hb : b ∈ draft.bindings)
    (hkind : b.kind = .alias) :
    ∃ type, x = .type type ∧ b.name = Identifier.typeName type.name ∧
      ∃ target origin, b.target = some target ∧
        type.StandsFor settings c domain origin target := by
  cases made_of_attempt h with
  | type hbinding hinline =>
    rcases List.mem_cons.mp hb with rfl | hrecord
    · obtain ⟨target, origin, htarget, hstands⟩ := standsFor_of_typeBinding hbinding hkind
      exact ⟨_, rfl, (typeBinding_spec hbinding).1, target, origin, htarget, hstands⟩
    · simp [(mem_recordBindings hinline b hrecord).1] at hkind
  | command _ _ _ _ hinline =>
    rcases List.mem_cons.mp hb with rfl | hrest
    · cases hkind
    rcases List.mem_cons.mp hrest with rfl | hrecord
    · cases hkind
    · simp [(mem_recordBindings hinline b hrecord).1] at hkind
  | event _ _ hinline =>
    rcases List.mem_cons.mp hb with rfl | hrecord
    · cases hkind
    · simp [(mem_recordBindings hinline b hrecord).1] at hkind

lemma exists_alias_of_reference {type : TypeDecl} {draft : Draft}
    (h : ofType settings c domain type = .ok draft) (harray : type.kind = .array)
    {reference : String} (hreference : .reference reference ∈ type.origins settings domain) :
    ∃ b ∈ draft.bindings, b.name = Identifier.typeName type.name ∧ b.kind = .alias := by
  have halias : type.bindingKind settings domain = .alias := by
    unfold TypeDecl.origins at hreference
    unfold TypeDecl.bindingKind
    split at hreference
    · simp at hreference
    · cases hreference
    all_goals simp_all
  obtain ⟨mains, inline, hbindings, hlabels, _⟩ := attempt_labelled (x := .type type) h
  obtain ⟨b, rfl, hlabel⟩ := List.map_eq_singleton_iff.mp hlabels
  simp only [Binding.label, Label.mk.injEq] at hlabel
  obtain ⟨hkind, hname, _⟩ := hlabel
  exact ⟨b, by simp [hbindings], hname, hkind.trans halias⟩

end Draft

namespace Bindings

/-- Whether replacing the alias `x` by its target gives the name `y`, itself or in lists. -/
def Expands (domains : List DomainBindings) (x y : String × String) : Prop :=
  ∃ d ∈ domains, ∃ b ∈ d.bindings, b.kind = .alias ∧ (d.name, b.name) = x ∧
    ∃ target, b.target = some target ∧ ∃ domain name, target.named? = some (domain, name) ∧
      (domain, Identifier.typeName name) = y

/-- Whether `x` is an emitted array type whose elements refer to `y`, themselves or in arrays. -/
def ElementRefers (settings : Settings) (description : Description) (x y : String × String) :
    Prop :=
  let c := catalogue settings description
  ∃ o ∈ kept settings description, ∃ draft ∈ o.drafts, ∃ type ∈ o.domain.types,
    Draft.ofType settings c o.domain.name type = .ok draft ∧
    (o.domain.name, Identifier.typeName type.name) = x ∧ type.kind = .array ∧
    ∃ reference, .reference reference ∈ type.origins settings o.domain.name ∧
      ∃ resolved, c.resolveReference o.domain.name reference = .ok resolved ∧
        ∃ domain name, resolved.named? = some (domain, name) ∧
          (domain, Identifier.typeName name) = y

variable {settings : Settings} {description : Description} {x y z : String × String}

lemma exists_type_of_alias {d : DomainBindings} {b : Binding}
    (hd : d ∈ (generate settings description).domains) (hb : b ∈ d.bindings)
    (hkind : b.kind = .alias) :
    ∃ o ∈ kept settings description, o.domain.name = d.name ∧ ∃ draft ∈ o.drafts,
      ∃ type ∈ o.domain.types,
        Draft.ofType settings (catalogue settings description) o.domain.name type = .ok draft ∧
        b.name = Identifier.typeName type.name ∧ b.name ∈ draft.names ∧
        ∃ target origin, b.target = some target ∧ target.isNamed = false ∧
          type.StandsFor settings (catalogue settings description) o.domain.name origin target := by
  obtain ⟨o, ho, hname, draft, hdraft, ⟨b, hmem, rfl⟩, x, hx, hattempt⟩ :=
    exists_item_of_mem hd hb
  unfold boxed at hkind ⊢
  rw [Boxing.kind_box] at hkind
  obtain ⟨type, rfl, hbname, target, origin, htarget, hstands⟩ :=
    Draft.standsFor_of_attempt hattempt hmem hkind
  have htype : type ∈ o.domain.types := by simpa [Domain.declarations] using hx
  rw [Boxing.name_box, Boxing.target_box]
  exact ⟨o, ho, hname, draft, hdraft, type, htype, hattempt, hbname, List.mem_map_of_mem hmem,
    target, origin, htarget, ((kept_sound ho draft hdraft).unboxed b hmem).target target htarget,
    hstands⟩

lemma not_alias_of_record {o : DomainDrafts} {draft : Draft} {type : TypeDecl} {r : InlineRecord}
    (ho : o ∈ kept settings description) (hdraft : draft ∈ o.drafts)
    (hattempt : Draft.ofType settings (catalogue settings description) o.domain.name type =
      .ok draft)
    (horigins : type.origins settings o.domain.name = [.inline r])
    (hrecord : r.name = type.name ++ "Item") {d : DomainBindings} {b : Binding}
    (hd : d ∈ (generate settings description).domains) (hb : b ∈ d.bindings)
    (hdomain : d.name = o.domain.name) (hname : b.name = Identifier.typeName r.name) :
    b.kind ≠ .alias := by
  intro hkind
  obtain ⟨o', ho', hname', draft', hdraft', type', _, hattempt', hbname, hmem, _⟩ :=
    exists_type_of_alias hd hb hkind
  obtain rfl := eq_of_name_eq ho' ho (hname'.trans hdomain)
  have hinline : r ∈ (Declaration.type type).inlineRecords settings o'.domain.name :=
    Declaration.mem_inlineRecords_of_origin (List.mem_append_left _ (List.mem_singleton_self _))
      (horigins ▸ List.mem_singleton_self _)
  have hnames : b.name ∈ draft.names := by
    rw [(Draft.names_perm (x := .type type) hattempt).mem_iff, hname]
    refine List.mem_map.mpr ⟨r.outline, ?_, by simp only [InlineRecord.outline]⟩
    exact List.mem_append_right _ (List.mem_map_of_mem hinline)
  obtain rfl := draft_eq_of_name ho hdraft hdraft' hnames hmem
  have hsame : type.name = type'.name := by
    have hdeclares := (Draft.attempt_labels (x := .type type) hattempt).1
    exact hdeclares.symm.trans (Draft.attempt_labels (x := .type type') hattempt').1
  rw [hname, hrecord, ← hsame] at hbname
  exact Identifier.typeName_item_ne type.name hbname

lemma elementRefers_of_expands (h : Expands (generate settings description).domains x y)
    (hnext : Expands (generate settings description).domains y z) :
    ElementRefers settings description x y := by
  obtain ⟨d, hd, b, hb, hkind, rfl, target, htarget, domain, name, hnamed, rfl⟩ := h
  obtain ⟨o, ho, hname, draft, hdraft, type, htype, hattempt, hbname, _, _, origin, hsame, _,
    hstands⟩ := exists_type_of_alias hd hb hkind
  obtain rfl := Option.some.inj (htarget.symm.trans hsame)
  rw [hbname, ← hname]
  cases origin with
  | plain => cases (show target.named? = none from hstands.gives).symm.trans hnamed
  | reference reference =>
    obtain ⟨resolved, hresolved, hsame⟩ := hstands.gives
    exact ⟨o, ho, draft, hdraft, type, htype, hattempt, rfl, hstands.array (by simp), reference,
      by simp [hstands.origins], resolved, hresolved, domain, name, hsame.symm.trans hnamed, rfl⟩
  | inline r =>
    obtain ⟨rfl, rfl⟩ : o.domain.name = domain ∧ r.name = name := by
      simpa using (show target.named? = some (_, r.name) from hstands.gives).symm.trans hnamed
    obtain ⟨e, he, a, ha, hakind, heq, _⟩ := hnext
    obtain ⟨hename, haname⟩ := Prod.mk.inj heq
    exact absurd hakind (not_alias_of_record ho hdraft hattempt hstands.origins
      (hstands.record r rfl) he ha hename haname)

lemma expands_of_elementRefers (h : ElementRefers settings description x y) :
    Expands (generate settings description).domains x y := by
  obtain ⟨o, ho, draft, hdraft, type, _, hattempt, rfl, harray, reference, hreference, resolved,
    hresolved, domain, name, hnamed, rfl⟩ := h
  obtain ⟨b, hb, hbname, hkind⟩ :=
    Draft.exists_alias_of_reference hattempt harray hreference
  obtain ⟨type', htype', _, target, origin, htarget, hstands⟩ :=
    Draft.standsFor_of_attempt (x := .type type) hattempt hb hkind
  cases htype'
  rw [hstands.origins, List.mem_singleton] at hreference
  obtain rfl := hreference
  obtain ⟨given, hgiven, hsame⟩ := hstands.gives
  obtain rfl := Except.ok.inj (hresolved.symm.trans hgiven)
  obtain ⟨d, hd, hdname, hmem⟩ := exists_mem_of_draft ho hdraft hb
  refine ⟨d, hd, _, hmem, ?_, ?_, target, ?_, domain, name, hsame.trans hnamed, rfl⟩
  · rw [boxed, Boxing.kind_box, hkind]
  · rw [boxed, Boxing.name_box, hbname, hdname]
  · rw [boxed, Boxing.target_box, htarget]

lemma transGen_of_steps {α : Type} {r s : α → α → Prop} {x y z : α}
    (hwalk : Relation.TransGen r x y) (hnext : r y z) (h : ∀ x y z, r x y → r y z → s x y) :
    Relation.TransGen s x y := by
  induction hwalk generalizing z with
  | single hstep => exact .single (h _ _ _ hstep hnext)
  | tail _ hstep ih => exact (ih hstep).tail (h _ _ _ hstep hnext)

/-- Aliases run in a circle exactly where array types do. -/
lemma transGen_expands_iff :
    Relation.TransGen (Expands (generate settings description).domains) x x ↔
      Relation.TransGen (ElementRefers settings description) x x := by
  constructor
  · intro h
    obtain ⟨y, hfirst, _⟩ := Relation.TransGen.head'_iff.mp h
    exact transGen_of_steps h hfirst fun _ _ _ => elementRefers_of_expands
  · intro h
    exact Relation.TransGen.mono (fun _ _ => expands_of_elementRefers) _ _ h

/-- An alias stands for no named type itself, so expanding it goes through a list. Expanding comes
to an end exactly if no emitted array types refer to each other in a circle: aliases run in the very
circles that these types do, and without them there is a depth that each step lowers. -/
theorem aliases_end_without_array_circles (settings : Settings) (description : Description) :
    let domains := (generate settings description).domains
    (∀ d ∈ domains, ∀ b ∈ d.bindings, b.kind = .alias →
      ∃ target, b.target = some target ∧ target.isNamed = false) ∧
    (∀ x, Relation.TransGen (Expands domains) x x ↔
      Relation.TransGen (ElementRefers settings description) x x) ∧
    ((∃ depth : String × String → Nat, ∀ x y, Expands domains x y → depth y < depth x) ↔
      ∀ x, ¬ Relation.TransGen (ElementRefers settings description) x x) := by
  intro domains
  refine ⟨fun d hd b hb hkind => ?_, fun x => transGen_expands_iff, ?_, ?_⟩
  · obtain ⟨_, _, _, _, _, _, _, _, _, _, target, _, htarget, hplain, _⟩ :=
      exists_type_of_alias hd hb hkind
    exact ⟨target, htarget, hplain⟩
  · rintro ⟨depth, hdepth⟩ x hcircle
    have hless {y : String × String} (h : Relation.TransGen (Expands domains) x y) :
        depth y < depth x := by
      induction h with
      | single hstep => exact hdepth _ _ hstep
      | tail _ hstep ih => exact (hdepth _ _ hstep).trans ih
    exact (hless (transGen_expands_iff.mpr hcircle)).false
  · intro hacyclic
    have hsources : ∀ x y, Expands domains x y → x ∈ Boxing.nodes domains := by
      rintro _ _ ⟨d, hd, b, hb, _, hx, _⟩
      exact Boxing.mem_nodes.mpr ⟨d, hd, b, hb, hx⟩
    exact Boxing.exists_depth hsources fun x hcircle =>
      hacyclic x (transGen_expands_iff.mp hcircle)

/-- An array type whose elements are of the type itself. -/
def listOfItself : Description :=
  { domains :=
      [{ name := "D"
         types := [{ name := "A", kind := .array, items := some { reference := some "A" } }] }] }

/-- The alias is emitted, leads back to itself, and nothing is reported. -/
theorem alias_leads_to_itself :
    let b := generate {} listOfItself
    b.report.isClean = true ∧ (∃ d ∈ b.domains, d.name = "D" ∧ ∃ a ∈ d.bindings,
      a.kind = .alias ∧ a.name = "A" ∧ a.target = some (.list (.named "D" "A"))) ∧
    Relation.TransGen (Expands b.domains) ("D", "A") ("D", "A") := by
  intro b
  refine ⟨rfl, ⟨_, List.mem_singleton_self _, rfl, _, List.mem_singleton_self _, rfl, rfl, rfl⟩, ?_⟩
  exact .single ⟨_, List.mem_singleton_self _, _, List.mem_singleton_self _, rfl, rfl, _, rfl,
    "D", "A", rfl, rfl⟩

end Bindings

end InspectorProtocol

import InspectorProtocol.Binding.Value
import InspectorProtocol.Proofs.BindingNames
import InspectorProtocol.Proofs.Reports

/-!
# Where references lead

A reference that resolves to a declared type is written as the name of the type's binding. The
declared type is there and the name leads to its binding, with one exception: an item that brings a
binding of that name itself is not held to need the declared type, and then the reference leads to
the item's own binding.
-/

namespace InspectorProtocol

open Description Text

/-- The references that the types of a declaration's bindings come from. -/
def Declaration.references (settings : Settings) (domain : String) (x : Declaration) :
    List String :=
  (x.outlines settings domain).flatMap fun o => o.origins.filterMap (·.reference?)

namespace Draft

variable {settings : Settings} {c : Catalogue} {domain : String} {draft : Draft}

lemma exists_type_of_reference {x : Declaration} (h : x.attempt settings c domain = .ok draft)
    {reference : String} (hreference : reference ∈ x.references settings domain)
    {resolved : TypeRef} (hresolved : c.resolveReference domain reference = .ok resolved) :
    ∃ b ∈ draft.bindings, ∃ type ∈ b.references, type.named? = resolved.named? := by
  obtain ⟨found, hperm, hrenders⟩ := attempt_outlines h
  obtain ⟨o, ho, hmem⟩ := List.mem_flatMap.mp hreference
  obtain ⟨origin, horigin, hname⟩ := List.mem_filterMap.mp hmem
  obtain ⟨b, hb, hrender⟩ := Bindings.exists_right_of_mem hrenders (hperm.mem_iff.mpr ho)
  obtain ⟨type, htype, hgives⟩ := Bindings.exists_right_of_mem hrender.references horigin
  cases origin with
  | reference other =>
    obtain rfl : other = reference := Option.some.inj hname
    obtain ⟨given, hgiven, hnamed⟩ := hgives
    obtain rfl : resolved = given := Except.ok.inj (hresolved.symm.trans hgiven)
    exact ⟨b, hb, type, htype, hnamed⟩
  | inline | plain => cases hname

lemma origin_of_mentions {x : Declaration} (h : x.attempt settings c domain = .ok draft)
    {b : Binding} (hb : b ∈ draft.bindings) {type : TypeRef} (htype : type ∈ b.references)
    {there name : String} (hnamed : type.named? = some (there, name)) :
    (∃ reference ∈ x.references settings domain, ∃ resolved,
      c.resolveReference domain reference = .ok resolved ∧ resolved.named? = some (there, name)) ∨
    there = domain ∧ ∃ r ∈ x.inlineRecords settings domain, r.name = name := by
  obtain ⟨found, hperm, hrenders⟩ := attempt_outlines h
  obtain ⟨o, ho, hrender⟩ := Bindings.exists_left_of_mem hrenders hb
  obtain ⟨origin, horigin, hgives⟩ := Bindings.exists_left_of_mem hrender.references htype
  have hmem := hperm.mem_iff.mp ho
  cases origin with
  | reference reference =>
    obtain ⟨resolved, hresolved, hsame⟩ := hgives
    refine .inl ⟨reference, List.mem_flatMap.mpr ⟨o, hmem, ?_⟩, resolved, hresolved,
      hsame.symm.trans hnamed⟩
    exact List.mem_filterMap.mpr ⟨_, horigin, rfl⟩
  | inline r =>
    obtain ⟨rfl, rfl⟩ : domain = there ∧ r.name = name := by
      simpa using (show type.named? = some (domain, r.name) from hgives).symm.trans hnamed
    exact .inr ⟨rfl, r, Declaration.mem_inlineRecords_of_origin hmem horigin, rfl⟩
  | plain => cases (show type.named? = none from hgives).symm.trans hnamed

end Draft

namespace Bindings

variable {settings : Settings} {description : Description}

/-! ### What a name leads to -/

lemma find?_of_nodup {α : Type} (key : α → String) {xs : List α} (h : (xs.map key).Nodup) {x : α}
    (hx : x ∈ xs) : xs.find? (key · == key x) = some x := by
  cases hfind : xs.find? (key · == key x) with
  | none => exact absurd (beq_self_eq_true _) (List.find?_eq_none.mp hfind x hx)
  | some y =>
    have hkey : key y = key x := by simpa using List.find?_some hfind
    rw [List.inj_on_of_nodup_map h (List.mem_of_find?_eq_some hfind) hx hkey]

lemma find?_boxAll (domains : List DomainBindings) (name : String) :
    (Boxing.boxAll domains).find? (·.name == name) =
      (domains.find? (·.name == name)).map fun d =>
        { d with bindings := d.bindings.map (Boxing.box domains d.name) } :=
  List.find?_map

lemma find?_assemble {o : DomainDrafts} {draft : Draft} {b : Binding} {name : String}
    (ho : o ∈ kept settings description) (hdraft : draft ∈ o.drafts)
    (hfind : draft.bindings.find? (·.name == name) = some b) :
    (assemble o).bindings.find? (·.name == name) = some b := by
  obtain ⟨before, after, hsplit⟩ := List.append_of_mem hdraft
  have hapart := (kept_items ho).2.1
  rw [hsplit] at hapart
  have hnone : ((before.map (·.bindings)).flatten).find? (·.name == name) = none := by
    refine List.find?_eq_none.mpr fun other hother hsame => ?_
    obtain ⟨bindings, hmem, hother⟩ := List.mem_flatten.mp hother
    obtain ⟨draft', hdraft', rfl⟩ := List.mem_map.mp hmem
    have hdisjoint := (List.pairwise_append.mp hapart).2.2 draft' hdraft' draft List.mem_cons_self
    refine hdisjoint (List.mem_map_of_mem hother) ?_
    have hb : b.name = name := by simpa using List.find?_some hfind
    rw [beq_iff_eq.mp hsame, ← hb]
    exact List.mem_map_of_mem (List.mem_of_find?_eq_some hfind)
  simp [assemble, hsplit, hnone, hfind]

lemma bindingOf?_of_main {o : DomainDrafts} {draft : Draft} {main : Binding} {rest : List Binding}
    {name : String} (ho : o ∈ kept settings description) (hdraft : draft ∈ o.drafts)
    (hbindings : draft.bindings = main :: rest) (hname : main.name = Identifier.typeName name) :
    (generate settings description).bindingOf? o.domain.name name =
      some (boxed settings description o main) := by
  have hnames : (((kept settings description).map assemble).map (·.name)).Nodup := by
    simpa [List.map_map, Function.comp_def, assemble] using kept_names_nodup
  have hfind : draft.bindings.find? (·.name == main.name) = some main := by
    simp [hbindings]
  have hdomain : ((kept settings description).map assemble).find? (·.name == o.domain.name) =
      some (assemble o) :=
    find?_of_nodup DomainBindings.name hnames (List.mem_map_of_mem ho)
  rw [bindingOf?, domains_generate, find?_boxAll, hdomain, ← hname]
  change ((assemble o).bindings.map (boxed settings description o)).find? _ = _
  rw [List.find?_map]
  change Option.map _ ((assemble o).bindings.find? (·.name == main.name)) = _
  rw [find?_assemble ho hdraft hfind]
  rfl

/-- The declared type has a draft that is kept, nothing else of its name is reported unless it is
declared again, and its name leads to its binding. -/
def IsReached (settings : Settings) (description : Description) (domain name : String) : Prop :=
  ∃ o ∈ kept settings description, o.domain.name = domain ∧
    ∃ type ∈ o.domain.types, type.name = name ∧
      ∃ draft ∈ o.drafts,
        Draft.ofType settings (catalogue settings description) domain type = .ok draft ∧
        (declarationCount description domain name .type = 1 →
          ∀ s ∈ (generate settings description).report.skipped,
            s.isOf domain name .type = false) ∧
        ∃ main rest, draft.bindings = main :: rest ∧
          (generate settings description).bindingOf? domain name =
            some (boxed settings description o main)

end Bindings

/-- Whether a draft that does not declare a type of its domain has a binding of that type's name. -/
def Draft.Captures (here domain name : String) (draft : Draft) : Prop :=
  domain = here ∧ draft.declares ≠ some name ∧ Identifier.typeName name ∈ draft.names

namespace Bindings

variable {settings : Settings} {description : Description}

lemma isReached_of_kept {o : DomainDrafts} {draft : Draft} {name : String}
    (ho : o ∈ kept settings description) (hdraft : draft ∈ o.drafts)
    (hdeclares : draft.declares = some name) :
    IsReached settings description o.domain.name name := by
  obtain ⟨x, hmem, hattempt⟩ := exists_item_of_draft ho hdraft
  obtain ⟨hitem, hkind, hdecl⟩ := Draft.attempt_labels hattempt
  rw [hdecl] at hdeclares
  cases x with
  | command | event => cases hdeclares
  | type type =>
    obtain rfl : type.name = name := Option.some.inj hdeclares
    have htype : type ∈ o.domain.types := by simpa [Domain.declarations] using hmem
    obtain ⟨main, rest, hname, _, _, _, hbindings⟩ := Draft.ofType_eq_ok hattempt
    refine ⟨o, ho, rfl, type, htype, rfl, draft, hdraft, hattempt, fun honce s hs => ?_, main, rest,
      ?_, ?_⟩
    · have hself : draft.isOf type.name .type = true := by
        rw [Draft.isOf, hitem, hkind]
        simp [Declaration.name, Declaration.kind]
      exact not_skipped_of_kept (by simp) ho hdraft hself honce s hs
    · rw [hbindings]
      rfl
    · exact bindingOf?_of_main ho hdraft (by rw [hbindings]; rfl) hname

lemma draft_eq_of_name {o : DomainDrafts} {draft draft' : Draft} {name : String}
    (ho : o ∈ kept settings description) (hdraft : draft ∈ o.drafts) (hdraft' : draft' ∈ o.drafts)
    (hname : name ∈ draft.names) (hname' : name ∈ draft'.names) : draft = draft' :=
  Draft.eq_of_shared_name (kept_items ho).2.1 hdraft hdraft' hname hname'

/-- A kept draft of a declared type takes the type's name, which leaves it to no other draft. -/
lemma not_captures_of_isReached {o : DomainDrafts} {draft : Draft} {domain name : String}
    (ho : o ∈ kept settings description) (hdraft : draft ∈ o.drafts)
    (h : IsReached settings description domain name) :
    ¬ draft.Captures o.domain.name domain name := by
  rintro ⟨rfl, hdeclares, hname⟩
  obtain ⟨o', ho', hdomain, type, _, rfl, draft', hdraft', hok, _⟩ := h
  obtain rfl := eq_of_name_eq ho' ho hdomain
  obtain ⟨main, rest, hmain, _, _, _, hbindings⟩ := Draft.ofType_eq_ok hok
  have hname' : Identifier.typeName type.name ∈ draft'.names := by
    rw [hbindings, Draft.names]
    exact List.mem_map.mpr ⟨main, List.mem_cons_self, hmain⟩
  obtain rfl := draft_eq_of_name ho hdraft' hdraft hname' hname
  exact hdeclares (by rw [hbindings]; rfl)

/-- What a kept draft mentions it declares itself or needs, unless it captures the name. What it
needs some kept draft declares. -/
lemma isReached_of_not_captures {o : DomainDrafts} {draft : Draft} {domain name : String}
    (ho : o ∈ kept settings description) (hdraft : draft ∈ o.drafts)
    (hmentioned : (domain, name) ∈ Draft.namedTypes draft.bindings)
    (hfree : ¬ draft.Captures o.domain.name domain name) :
    IsReached settings description domain name := by
  by_cases hown : domain = o.domain.name ∧ Identifier.typeName name ∈ draft.names
  · obtain ⟨rfl, hname⟩ := hown
    have hdeclares : draft.declares = some name := by
      by_contra hother
      exact hfree ⟨rfl, hother, hname⟩
    exact isReached_of_kept ho hdraft hdeclares
  · have hneed : (domain, name) ∈ draft.needs := by
      rw [(kept_sound ho draft hdraft).needs, Draft.mem_neededTypes]
      exact ⟨hmentioned, fun ⟨hdomain, hname⟩ => hown ⟨hdomain, List.mem_map.mpr hname⟩⟩
    have hdeclared := kept_closed o ho draft hdraft _ hneed
    obtain ⟨o', ho', draft', hdraft', rfl, hdeclares⟩ := Pruning.mem_declared.mp hdeclared
    exact isReached_of_kept ho' hdraft' hdeclares

lemma exists_item_of_mem {d : DomainBindings} {b : Binding}
    (hd : d ∈ (generate settings description).domains) (hb : b ∈ d.bindings) :
    ∃ o ∈ kept settings description, o.domain.name = d.name ∧ ∃ draft ∈ o.drafts,
      (∃ b' ∈ draft.bindings, boxed settings description o b' = b) ∧
      ∃ x ∈ o.domain.declarations,
        x.attempt settings (catalogue settings description) o.domain.name = .ok draft := by
  obtain ⟨o, ho, hname, hbindings⟩ := exists_kept_of_mem hd
  rw [hbindings] at hb
  obtain ⟨b', hb', hboxed⟩ := List.mem_map.mp hb
  obtain ⟨draft, hdraft, hmem⟩ := mem_assemble.mp hb'
  obtain ⟨x, hx, hattempt⟩ := exists_item_of_draft ho hdraft
  exact ⟨o, ho, hname.symm, draft, hdraft, ⟨b', hmem, hboxed⟩, x, hx, hattempt⟩

/-- The types that emitted bindings name come from references or are made up for inline objects.
A reference leads to the declared type that it resolves to, and that type is emitted, unless the
item that refers has a binding of the type's name itself. -/
theorem references_reach_their_declarations (settings : Settings) (description : Description) :
    let c := catalogue settings description
    (∀ d ∈ (generate settings description).domains, ∀ b ∈ d.bindings, ∀ type ∈ b.references,
      ∀ domain name, type.Mentions domain name →
      ∃ o ∈ kept settings description, o.domain.name = d.name ∧ ∃ draft ∈ o.drafts,
        (∃ b' ∈ draft.bindings, boxed settings description o b' = b) ∧
        ∃ x ∈ o.domain.declarations, x.attempt settings c o.domain.name = .ok draft ∧
          ((∃ reference ∈ x.references settings o.domain.name, ∃ resolved,
              c.resolveReference o.domain.name reference = .ok resolved ∧
              resolved.named? = some (domain, name)) ∨
            domain = o.domain.name ∧
              ∃ r ∈ x.inlineRecords settings o.domain.name, r.name = name)) ∧
    ∀ o ∈ kept settings description, ∀ draft ∈ o.drafts, ∀ x : Declaration,
      x.attempt settings c o.domain.name = .ok draft →
      ∀ reference ∈ x.references settings o.domain.name, ∀ resolved,
        c.resolveReference o.domain.name reference = .ok resolved →
        ∀ domain name, resolved.named? = some (domain, name) →
          (IsReached settings description domain name ↔
            ¬ draft.Captures o.domain.name domain name) := by
  intro c
  constructor
  · intro d hd b hb type htype domain name hmentions
    obtain ⟨o, ho, hname, draft, hdraft, ⟨b', hb', rfl⟩, x, hx, hattempt⟩ :=
      exists_item_of_mem hd hb
    refine ⟨o, ho, hname, draft, hdraft, ⟨b', hb', rfl⟩, x, hx, hattempt, ?_⟩
    unfold boxed at htype
    rw [Boxing.references_box] at htype
    exact Draft.origin_of_mentions hattempt hb' htype hmentions.named?
  · intro o ho draft hdraft x hattempt reference hreference resolved hresolved domain name hnamed
    obtain ⟨b, hb, type, htype, hsame⟩ :=
      Draft.exists_type_of_reference hattempt hreference hresolved
    have hmentioned : (domain, name) ∈ Draft.namedTypes draft.bindings :=
      Draft.mem_namedTypes.mpr ⟨b, hb, type, htype, hsame.trans hnamed⟩
    exact ⟨not_captures_of_isReached ho hdraft, isReached_of_not_captures ho hdraft hmentioned⟩

/-- A command with a parameter of a declared type, whose name is the one that the request of the
command gets. The type is an array without items. -/
def namedLikeItsRequest : Description :=
  { domains :=
      [{ name := "D"
         types := [{ name := "DGoRequest", kind := .array }]
         commands :=
          [{ name := "go", parameters := [{ name := "x", reference := some "DGoRequest" }] }] }] }

/-- The type is reported, yet the command that refers to it is there, and its parameter has the type
of the request itself. -/
theorem request_stands_in_for_a_type :
    let bindings := generate {} namedLikeItsRequest
    (catalogue {} namedLikeItsRequest).resolveReference "D" "DGoRequest" =
        .ok (.named "D" "DGoRequest") ∧
      (∃ d ∈ bindings.domains, d.name = "D" ∧ ∃ request ∈ d.bindings, ∃ f ∈ request.fields,
        f.type = .named "D" "DGoRequest" ∧ bindings.bindingOf? "D" "DGoRequest" = some request ∧
        request.kind = .request) ∧
      (∃ s ∈ bindings.report.skipped, s.isOf "D" "DGoRequest" .type = true) ∧
      ¬ IsReached {} namedLikeItsRequest "D" "DGoRequest" := by
  intro bindings
  have hfound : (bindings.bindingOf? "D" "DGoRequest").map (·.kind) = some .request := rfl
  refine ⟨rfl, ?_, ⟨_, List.mem_cons_self, rfl⟩, ?_⟩
  · exact ⟨_, List.mem_singleton_self _, rfl, _, List.mem_cons_self, _, List.mem_singleton_self _,
      rfl, rfl, rfl⟩
  · rintro ⟨o, _, _, type, _, _, draft, _, hok, _, main, rest, hmain, hleads⟩
    obtain ⟨binding, inline, _, hkind, _, _, rfl⟩ := Draft.ofType_eq_ok hok
    obtain ⟨rfl, _⟩ := List.cons.inj hmain
    rw [show bindings.bindingOf? "D" "DGoRequest" = _ from hleads, Option.map_some, boxed,
      Boxing.kind_box] at hfound
    exact hkind (Option.some.inj hfound)

end Bindings

end InspectorProtocol

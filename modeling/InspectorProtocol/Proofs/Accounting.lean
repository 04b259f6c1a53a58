import InspectorProtocol.Proofs.BindingNames
import InspectorProtocol.Proofs.Reports
import Mathlib.Data.List.FinRange

/-!
# Accounting for declarations

A domain is emitted unless its name repeats an earlier one. Each of its declarations then ends up
in one of two places: as a run of bindings, one run after another in the order of declaration, or as
one entry of the report. Declarations are told apart by where they stand, since names may repeat.
-/

namespace InspectorProtocol

open Description Text

/-- Every element of a list goes to one of two parts, and stays in order there. -/
inductive Splits {α : Type} : List α → List α → List α → Prop where
  | nil : Splits [] [] []
  | first {x : α} {xs ys whole : List α} (h : Splits xs ys whole) : Splits (x :: xs) ys (x :: whole)
  | second {y : α} {xs ys whole : List α} (h : Splits xs ys whole) :
    Splits xs (y :: ys) (y :: whole)

namespace Splits

variable {α : Type} {xs ys whole : List α}

lemma exists_of_sublist (h : xs.Sublist whole) : ∃ ys, Splits xs ys whole := by
  induction h with
  | slnil => exact ⟨[], .nil⟩
  | cons y _ ih =>
    obtain ⟨ys, hsplits⟩ := ih
    exact ⟨y :: ys, hsplits.second⟩
  | cons_cons x _ ih =>
    obtain ⟨ys, hsplits⟩ := ih
    exact ⟨ys, hsplits.first⟩

lemma mem_or_mem (h : Splits xs ys whole) {x : α} (hx : x ∈ whole) : x ∈ xs ∨ x ∈ ys := by
  induction h with
  | nil => cases hx
  | first _ ih =>
    rcases List.mem_cons.mp hx with rfl | hlater
    · exact .inl List.mem_cons_self
    · exact (ih hlater).imp_left (List.mem_cons_of_mem _)
  | second _ ih =>
    rcases List.mem_cons.mp hx with rfl | hlater
    · exact .inr List.mem_cons_self
    · exact (ih hlater).imp_right (List.mem_cons_of_mem _)

lemma countP (p : α → Bool) (h : Splits xs ys whole) :
    xs.countP p + ys.countP p = whole.countP p := by
  induction h with
  | nil => rfl
  | first _ ih | second _ ih =>
    simp only [List.countP_cons]
    omega

end Splits

/-! ### Domains that repeat a name -/

namespace Description

/-- The domains at the positions with a property, in order. -/
def pick (domains : List Domain) (p : Fin domains.length → Prop) [DecidablePred p] : List Domain :=
  ((List.finRange domains.length).filter (p ·)).map (domains[·])

/-- Whether no domain before a position has its name, ignoring case. -/
def IsFirst (domains : List Domain) (i : Fin domains.length) : Prop :=
  ∀ j < i, sameIgnoringCase domains[j].name domains[i].name = false

instance (domains : List Domain) : DecidablePred (IsFirst domains) := fun i =>
  inferInstanceAs (Decidable (∀ j < i, _))

/-- The domains whose names are new where they stand. -/
def firsts (domains : List Domain) : List Domain := pick domains (IsFirst domains)

def repeats (domains : List Domain) : List Domain := pick domains (¬ IsFirst domains ·)

lemma pick_cons (d : Domain) (rest : List Domain) (p : Fin (rest.length + 1) → Prop)
    [DecidablePred p] :
    pick (d :: rest) p = (if p 0 then [d] else []) ++ pick rest (p ·.succ) := by
  have htail : ((List.finRange rest.length).map Fin.succ |>.filter (p ·)).map ((d :: rest)[·]) =
      pick rest (p ·.succ) := by
    rw [List.filter_map, List.map_map]
    rfl
  have hpositions : List.finRange (d :: rest).length =
      0 :: (List.finRange rest.length).map Fin.succ := List.finRange_succ
  rw [← htail, pick, hpositions, List.filter_cons]
  by_cases hzero : p 0 <;> simp [hzero]

lemma pick_congr {domains : List Domain} {p q : Fin domains.length → Prop} [DecidablePred p]
    [DecidablePred q] (h : ∀ i, p i ↔ q i) : pick domains p = pick domains q := by
  unfold pick
  congr 1
  exact List.filter_congr fun i _ => decide_eq_decide.mpr (h i)

lemma isFirst_zero (d : Domain) (rest : List Domain) : IsFirst (d :: rest) 0 :=
  fun j hj => absurd hj (Fin.not_lt_zero j)

lemma isFirst_succ (d : Domain) (rest : List Domain) (i : Fin rest.length) :
    IsFirst (d :: rest) i.succ ↔ foldCase rest[i].name ≠ foldCase d.name ∧ IsFirst rest i := by
  have hfold (a b : String) : sameIgnoringCase a b = false ↔ foldCase b ≠ foldCase a := by
    rw [sameIgnoringCase, beq_eq_false_iff_ne, ne_comm]
  constructor
  · intro h
    refine ⟨(hfold _ _).mp (h 0 i.succ_pos), fun j hj => ?_⟩
    exact h j.succ (Fin.succ_lt_succ_iff.mpr hj)
  · rintro ⟨hhead, htail⟩ j hj
    cases j using Fin.cases with
    | zero => exact (hfold _ _).mpr hhead
    | succ j => exact htail j (Fin.succ_lt_succ_iff.mp hj)

end Description

namespace Bindings

/-- The report of a domain that repeats a name. -/
def repetition (d : Domain) : Skipped := ⟨d.name, d.name, .domain, .duplicateDomain d.name⟩

lemma distinctDomains_eq (seen : List String) (domains : List Domain) :
    distinctDomains seen domains =
      (pick domains fun i => foldCase domains[i].name ∉ seen ∧ IsFirst domains i,
        (pick domains fun i => ¬ (foldCase domains[i].name ∉ seen ∧ IsFirst domains i)).map
          repetition) := by
  induction domains generalizing seen with
  | nil => rfl
  | cons d rest ih =>
    have hsucc (i : Fin rest.length) :
        (foldCase (d :: rest)[i.succ].name ∉ seen ∧ IsFirst (d :: rest) i.succ) ↔
          foldCase rest[i].name ∉ foldCase d.name :: seen ∧ IsFirst rest i := by
      rw [isFirst_succ, List.mem_cons, not_or, and_assoc]
      exact and_left_comm
    rw [pick_cons, pick_cons, pick_congr hsucc, pick_congr fun i => not_congr (hsucc i)]
    unfold distinctDomains
    simp only
    split
    · rename_i hseen
      have hmem : foldCase d.name ∈ seen := by simpa using hseen
      have hsame (i : Fin rest.length) : (foldCase rest[i].name ∉ foldCase d.name :: seen ∧
          IsFirst rest i) ↔ foldCase rest[i].name ∉ seen ∧ IsFirst rest i := by
        have hne : foldCase rest[i].name ∉ seen → foldCase rest[i].name ≠ foldCase d.name :=
          fun hnot heq => hnot (heq ▸ hmem)
        rw [List.mem_cons, not_or, and_iff_right_of_imp hne]
      rw [ih seen, pick_congr hsame, pick_congr fun i => not_congr (hsame i)]
      simp [hmem, repetition]
    · rename_i hnew
      have hmem : foldCase d.name ∉ seen := by simpa using hnew
      rw [ih (foldCase d.name :: seen)]
      simp [hmem, isFirst_zero]

lemma retained_eq (description : Description) :
    retained description = firsts description.domains := by
  rw [retained, distinctDomains_eq]
  exact pick_congr fun i => by simp

example : (firsts [{ name := "Page" }, { name := "DOM" }, { name := "page" }]).map (·.name) =
    ["Page", "DOM"] := by
  decide +kernel

lemma duplicates_eq (domains : List Domain) :
    (distinctDomains [] domains).2 = (repeats domains).map repetition := by
  rw [distinctDomains_eq]
  exact congrArg _ (pick_congr fun i => by simp)

end Bindings

/-! ### What a declaration is emitted as -/

/-- What tells which binding of which item a binding is. -/
structure Label where
  kind : BindingKind
  name : String
  method : Option String := none
  /-- the name of a request's response -/
  response : Option String := none

def Binding.label (b : Binding) : Label := ⟨b.kind, b.name, b.method, b.response⟩

/-- A method constant but for its identifier: its kind, its wire method and the name of its type. -/
def MethodConstant.signature (m : MethodConstant) : MethodKind × String × String :=
  (m.kind, m.method, m.type)

/-- What a declared type is bound as. -/
def Description.TypeDecl.bindingKind (settings : Settings) (domain : String) (type : TypeDecl) :
    BindingKind :=
  match settings.override? domain type.name, type.values, type.kind, type.properties with
  | some _, _, _, _ => .alias
  | none, _ :: _, _, _ => .enumeration
  | none, [], .object, _ :: _ => .record
  | none, [], _, _ => .alias

namespace Declaration

/-- The labels of the bindings that bear the name of a declaration. -/
def mainLabels (settings : Settings) (domain : String) : Declaration → List Label
  | .type decl => [⟨decl.bindingKind settings domain, Identifier.typeName decl.name, none, none⟩]
  | .command decl =>
    let stem := Identifier.typeName domain ++ Identifier.typeName decl.name
    let method := domain ++ "." ++ decl.name
    [⟨.request, stem ++ "Request", some method, some (stem ++ "Response")⟩,
      ⟨.response, stem ++ "Response", some method, none⟩]
  | .event decl =>
    let name := Identifier.typeName domain ++ Identifier.typeName decl.name ++ "Payload"
    [⟨.payload, name, some (domain ++ "." ++ decl.name), none⟩]

/-- The signatures of the method constants of a declaration. -/
def signatures (domain : String) : Declaration → List (MethodKind × String × String)
  | .type _ => []
  | .command decl =>
    [(.command, domain ++ "." ++ decl.name,
      Identifier.typeName domain ++ Identifier.typeName decl.name ++ "Request")]
  | .event decl =>
    [(.event, domain ++ "." ++ decl.name,
      Identifier.typeName domain ++ Identifier.typeName decl.name ++ "Payload")]

/-- Whether some bindings are those of a declaration: the ones that bear its name, in order, and
then one for each record made up for it. -/
def EmittedAs (settings : Settings) (domain : String) (x : Declaration) (bindings : List Binding) :
    Prop :=
  ∃ mains inline, bindings = mains ++ inline ∧
    mains.map (·.label) = x.mainLabels settings domain ∧
    (inline.map (·.label)).Perm ((x.inlineRecords settings domain).map fun r =>
      { kind := .record, name := Identifier.typeName r.name })

end Declaration

namespace Draft

variable {settings : Settings} {c : Catalogue} {domain : String} {draft : Draft}

lemma label_typeBinding {type : TypeDecl} {binding : Binding} {records : List InlineRecord}
    (h : typeBinding settings c domain type = .ok (binding, records)) :
    binding.label =
      { kind := type.bindingKind settings domain, name := Identifier.typeName type.name } := by
  have hbinds := bindsType_of_typeBinding h
  unfold TypeDecl.bindingKind
  generalize Identifier.typeName type.name = name at hbinds ⊢
  cases hbinds with
  | replaced hoverride =>
    simp only [hoverride]
    rfl
  | values hoverride hvalues =>
    simp only [hoverride, hvalues]
    rfl
  | record hoverride hvalues hkind hproperties _ =>
    simp only [hoverride, hvalues, hkind, hproperties]
    rfl
  | array hoverride hvalues hkind _ _ =>
    simp only [hoverride, hvalues, hkind]
    rfl
  | plain hoverride hvalues _ _ _ =>
    simp only [hoverride, hvalues]
    rfl

lemma label_of_mem_recordBindings {fuel : Nat} {queue : List InlineRecord}
    {bindings : List Binding} (h : recordBindings c domain fuel queue = .ok bindings) :
    ∀ b ∈ bindings, b.label = { kind := .record, name := b.name } := by
  intro b hb
  exact congrArg Binding.label (eq_of_mem_recordBindings h b hb).1

/-- A draft has the main bindings of its declaration, then records, and the constants for its wire
methods. -/
lemma attempt_labelled {x : Declaration} (h : x.attempt settings c domain = .ok draft) :
    ∃ mains inline, draft.bindings = mains ++ inline ∧
      mains.map (·.label) = x.mainLabels settings domain ∧
      (∀ b ∈ inline, b.label = { kind := .record, name := b.name }) ∧
      draft.methods.map (·.signature) = x.signatures domain := by
  cases made_of_attempt h with
  | type hbinding hinline =>
    have hlabel := label_typeBinding hbinding
    refine ⟨[_], _, rfl, ?_, label_of_mem_recordBindings hinline, rfl⟩
    exact congrArg (fun label => [label]) hlabel
  | command hrequest hresponse _ _ hinline =>
    subst hrequest hresponse
    exact ⟨[_, _], _, rfl, rfl, label_of_mem_recordBindings hinline, rfl⟩
  | event hpayload _ hinline =>
    subst hpayload
    exact ⟨[_], _, rfl, rfl, label_of_mem_recordBindings hinline, rfl⟩

lemma emittedAs_of_attempt {x : Declaration} (h : x.attempt settings c domain = .ok draft) :
    x.EmittedAs settings domain draft.bindings := by
  obtain ⟨mains, inline, hbindings, hmains, hinline, _⟩ := attempt_labelled h
  have hnames : mains.map (·.name) = (x.mainOutlines settings domain).map (·.name) := by
    have hlabels := congrArg (List.map (·.name)) hmains
    rw [List.map_map] at hlabels
    refine hlabels.trans ?_
    cases x <;> rfl
  have hperm : (inline.map (·.name)).Perm ((x.inlineRecords settings domain).map fun r =>
      Identifier.typeName r.name) := by
    have hall := names_perm h
    rw [names, hbindings, List.map_append, hnames, Declaration.bindingNames, Declaration.outlines,
      List.map_append, List.map_map, List.perm_append_left_iff] at hall
    simpa only [Function.comp_def, InlineRecord.outline] using hall
  have hrecords : inline.map (·.label) =
      (inline.map (·.name)).map fun name => { kind := .record, name := name } := by
    rw [List.map_map]
    exact List.map_congr_left hinline
  refine ⟨mains, inline, hbindings, hmains, ?_⟩
  rw [hrecords]
  simpa only [List.map_map, Function.comp_def] using
    hperm.map fun name => ({ kind := .record, name := name } : Label)

end Draft

namespace Bindings

variable {settings : Settings} {description : Description}

lemma label_box (domains : List DomainBindings) (domain : String) (b : Binding) :
    (Boxing.box domains domain b).label = b.label := rfl

lemma emittedAs_boxed {domain : String} {x : Declaration} {bindings : List Binding}
    (o : DomainDrafts) (h : x.EmittedAs settings domain bindings) :
    x.EmittedAs settings domain (bindings.map (boxed settings description o)) := by
  obtain ⟨mains, inline, rfl, hmains, hinline⟩ := h
  have hlabels (bs : List Binding) :
      (bs.map (boxed settings description o)).map (·.label) = bs.map (·.label) := by
    rw [List.map_map]
    exact List.map_congr_left fun b _ => label_box _ _ b
  refine ⟨_, _, List.map_append, ?_, ?_⟩
  · rw [hlabels, hmains]
  · rw [hlabels]
    exact hinline

lemma signatures_nameConstants (taken : List String)
    (constants : List (ItemKind × MethodConstant)) :
    (nameConstants taken constants).map (·.signature) = constants.map (·.2.signature) := by
  induction constants generalizing taken with
  | nil => rfl
  | cons constant rest ih =>
    unfold nameConstants
    rw [List.map_cons, List.map_cons, ih]
    rfl

lemma signatures_assemble (o : DomainDrafts) :
    (assemble o).methods.map (·.signature) =
      o.drafts.flatMap fun draft => draft.methods.map (·.signature) := by
  simp [assemble, signatures_nameConstants, List.map_flatten, List.flatMap, Function.comp_def]

/-! ### Counting -/

lemma total_of_nodup {α : Type} (key : α → String) (measure : α → Nat) {xs : List α}
    (h : (xs.map key).Nodup) {x : α} (hx : x ∈ xs) :
    total (fun y => if key y = key x then measure y else 0) xs = measure x := by
  induction xs with
  | nil => cases hx
  | cons y rest ih =>
    obtain ⟨hnew, hrest⟩ := List.nodup_cons.mp h
    rw [total_cons]
    rcases List.mem_cons.mp hx with rfl | hlater
    · have hzero : ¬ 0 < total (fun y => if key y = key x then measure y else 0) rest := by
        intro hpos
        obtain ⟨z, hz, hpos⟩ := exists_of_total_pos hpos
        have hne : key z ≠ key x := fun heq => hnew (heq ▸ List.mem_map_of_mem hz)
        simp [hne] at hpos
      rw [if_pos rfl]
      omega
    · have hne : key y ≠ key x := fun heq => hnew (heq ▸ List.mem_map_of_mem hlater)
      rw [if_neg hne, Nat.zero_add, ih hrest hlater]

lemma retained_names_nodup (description : Description) :
    ((retained description).map (·.name)).Nodup := by
  rw [← @kept_domains {} description, List.map_map]
  exact kept_names_nodup

lemma exists_of_mem_itemReports {s : Skipped} (hs : s ∈ itemReports settings description) :
    ∃ d ∈ retained description, d.name = s.domain ∧ ∃ x ∈ d.declarations, x.kind = s.kind := by
  have hreported : 0 < (itemReports settings description).countP
      (Skipped.isOf s.domain s.item s.kind) :=
    List.countP_pos_iff.mpr ⟨s, hs, by simp [Skipped.isOf]⟩
  have hcount := @countP_itemReports settings description s.domain s.item s.kind
  have hdeclared : 0 < declarationCount description s.domain s.item s.kind := by omega
  obtain ⟨d, hd, hpos⟩ := exists_of_total_pos hdeclared
  split at hpos
  · rename_i hname
    obtain ⟨x, hx, hself⟩ := List.countP_pos_iff.mp hpos
    refine ⟨d, hd, hname, x, hx, ?_⟩
    simp only [Declaration.isOf, Bool.and_eq_true, beq_iff_eq] at hself
    exact hself.2
  · cases hpos

end Bindings

/-- The reports of the declarations of a domain, each by its name and kind. -/
def Report.itemsOf (r : Report) (domain : String) : List (String × ItemKind) :=
  (r.skipped.filter fun s => s.domain == domain && s.kind != .domain).map fun s => (s.item, s.kind)

/-- What becomes of a domain: the declarations that are emitted follow each other with all their
bindings and method constants, and each of the others is reported once. -/
structure Accounted (settings : Settings) (report : Report) (source : Domain)
    (d : DomainBindings) : Prop where
  name : d.name = source.name
  items : ∃ emitted left runs, Splits emitted left source.declarations ∧
    d.bindings = runs.flatten ∧
    List.Forall₂ (·.EmittedAs settings source.name) emitted runs ∧
    d.methods.map (·.signature) = emitted.flatMap (·.signatures source.name) ∧
    (report.itemsOf source.name).Perm (left.map fun x => (x.name, x.kind))

namespace Bindings

variable {settings : Settings} {description : Description}

lemma kind_ne_domain (x : Declaration) : x.kind ≠ .domain := by
  cases x <;> simp [Declaration.kind]

lemma skipped_eq (settings : Settings) (description : Description) :
    (generate settings description).report.skipped =
      (repeats description.domains).map repetition ++ itemReports settings description := by
  rw [skipped_generate, List.append_assoc, duplicates_eq, itemReports]

lemma kind_of_mem_itemReports {s : Skipped} (hs : s ∈ itemReports settings description) :
    s.kind ≠ .domain := by
  obtain ⟨_, _, _, x, _, hkind⟩ := exists_of_mem_itemReports hs
  rw [← hkind]
  exact kind_ne_domain x

lemma itemsOf_eq (settings : Settings) (description : Description) (domain : String) :
    (generate settings description).report.itemsOf domain =
      ((itemReports settings description).filter (·.domain == domain)).map
        fun s => (s.item, s.kind) := by
  have hrepeats : ((repeats description.domains).map repetition).filter
      (fun s => s.domain == domain && s.kind != .domain) = [] := by
    refine List.filter_eq_nil_iff.mpr fun s hs => ?_
    obtain ⟨d, _, rfl⟩ := List.mem_map.mp hs
    simp [repetition]
  have hitems : (itemReports settings description).filter
      (fun s => s.domain == domain && s.kind != .domain) =
      (itemReports settings description).filter (·.domain == domain) := by
    refine List.filter_congr fun s hs => ?_
    rw [bne_iff_ne.mpr (kind_of_mem_itemReports hs), Bool.and_true]
  rw [Report.itemsOf, skipped_eq, List.filter_append, hrepeats, hitems, List.nil_append]

lemma count_itemsOf (domain item : String) (kind : ItemKind) :
    ((generate settings description).report.itemsOf domain).count (item, kind) =
      (itemReports settings description).countP (Skipped.isOf domain item kind) := by
  rw [itemsOf_eq, List.count_eq_countP, List.countP_map, List.countP_filter]
  refine List.countP_congr fun s _ => ?_
  simp only [Function.comp_apply, Skipped.isOf, Bool.and_eq_true, beq_iff_eq, Prod.mk.injEq]
  tauto

lemma countP_drafts {c : Catalogue} {domain : String} {items : List Declaration}
    {drafts : List Draft} (item : String) (kind : ItemKind)
    (h : List.Forall₂ (fun x draft => x.attempt settings c domain = .ok draft) items drafts) :
    drafts.countP (Draft.isOf item kind) = items.countP (Declaration.isOf item kind) := by
  induction h with
  | nil => rfl
  | cons hhead _ ih =>
    obtain ⟨hitem, hkind, _⟩ := Draft.attempt_labels hhead
    rw [List.countP_cons, List.countP_cons, ih, Draft.isOf, Declaration.isOf, hitem, hkind]

lemma signatures_drafts {c : Catalogue} {domain : String} {items : List Declaration}
    {drafts : List Draft}
    (h : List.Forall₂ (fun x draft => x.attempt settings c domain = .ok draft) items drafts) :
    (drafts.flatMap fun draft => draft.methods.map (·.signature)) =
      items.flatMap (·.signatures domain) := by
  induction h with
  | nil => rfl
  | cons hhead _ ih =>
    obtain ⟨_, _, _, _, _, hsignatures⟩ := Draft.attempt_labelled hhead
    rw [List.flatMap_cons, List.flatMap_cons, ih, hsignatures]

/-- Of the declarations of a domain, as many of each name and kind are reported as are not kept. -/
lemma reported_perm {o : DomainDrafts} {emitted left : List Declaration}
    (ho : o ∈ kept settings description) (hsplits : Splits emitted left o.domain.declarations)
    (hdrafts : List.Forall₂ (fun x draft =>
      x.attempt settings (catalogue settings description) o.domain.name = .ok draft)
      emitted o.drafts) :
    ((generate settings description).report.itemsOf o.domain.name).Perm
      (left.map fun x => (x.name, x.kind)) := by
  refine List.perm_iff_count.mpr fun ⟨item, kind⟩ => ?_
  have hkept : Pruning.countOf o.domain.name item kind (kept settings description) =
      o.drafts.countP (Draft.isOf item kind) :=
    total_of_nodup (fun o : DomainDrafts => o.domain.name) _ kept_names_nodup ho
  have hdeclared : declarationCount description o.domain.name item kind =
      o.domain.declarations.countP (Declaration.isOf item kind) :=
    total_of_nodup (fun d : Domain => d.name) _ (retained_names_nodup description) (kept_items ho).1
  have hcount := @countP_itemReports settings description o.domain.name item kind
  have hemitted := countP_drafts item kind hdrafts
  have hparts := hsplits.countP (Declaration.isOf item kind)
  have hleft : (left.map fun x => (x.name, x.kind)).count (item, kind) =
      left.countP (Declaration.isOf item kind) := by
    rw [List.count_eq_countP, List.countP_map]
    exact List.countP_congr fun x _ => by simp [Declaration.isOf]
  rw [count_itemsOf, hleft]
  omega

lemma accounted_of_kept {o : DomainDrafts} (ho : o ∈ kept settings description) :
    Accounted settings (generate settings description).report o.domain
      { assemble o with
        bindings := (assemble o).bindings.map (boxed settings description o) } := by
  obtain ⟨_, _, emitted, hsub, hdrafts⟩ := kept_items ho
  obtain ⟨left, hsplits⟩ := Splits.exists_of_sublist hsub
  refine ⟨rfl, emitted, left,
    o.drafts.map fun draft => draft.bindings.map (boxed settings description o),
    hsplits, ?_, ?_, ?_, reported_perm ho hsplits hdrafts⟩
  · simp [assemble, List.map_flatten, Function.comp_def]
  · refine List.forall₂_map_right_iff.mpr (hdrafts.imp fun x draft hok => ?_)
    exact emittedAs_boxed o (Draft.emittedAs_of_attempt hok)
  · exact (signatures_assemble o).trans (signatures_drafts hdrafts)

/-- One domain is emitted for each first occurrence of a name, in order, and each other occurrence
is reported once. Every declaration of an emitted domain is emitted in its place or reported, never
both and never twice. All other reports are about emitted domains, and the report counts the
bindings. -/
theorem every_declaration_is_accounted_for (settings : Settings) (description : Description) :
    let bindings := generate settings description
    List.Forall₂ (Accounted settings bindings.report) (firsts description.domains)
      bindings.domains ∧
    bindings.report.skipped.filter (·.kind == .domain) =
      (repeats description.domains).map repetition ∧
    (∀ s ∈ bindings.report.skipped, s.kind ≠ .domain → ∃ d ∈ bindings.domains, d.name = s.domain) ∧
    bindings.report.generated = (bindings.domains.flatMap (·.bindings)).length := by
  intro bindings
  refine ⟨?_, ?_, ?_, ?_⟩
  · rw [← retained_eq, ← @kept_domains settings]
    unfold bindings
    rw [domains_generate, Boxing.boxAll, List.map_map]
    refine List.forall₂_map_left_iff.mpr (List.forall₂_map_right_iff.mpr ?_)
    exact List.forall₂_same.mpr fun o ho => accounted_of_kept ho
  · have hitems : (itemReports settings description).filter (·.kind == .domain) = [] :=
      List.filter_eq_nil_iff.mpr fun s hs => by simpa using kind_of_mem_itemReports hs
    have hrepeats : ((repeats description.domains).map repetition).filter (·.kind == .domain) =
        (repeats description.domains).map repetition := by
      refine List.filter_eq_self.mpr fun s hs => ?_
      obtain ⟨d, _, rfl⟩ := List.mem_map.mp hs
      rfl
    rw [skipped_eq, List.filter_append, hitems, hrepeats, List.append_nil]
  · intro s hs hkind
    rw [skipped_eq] at hs
    rcases List.mem_append.mp hs with hrepeat | hitem
    · obtain ⟨d, _, rfl⟩ := List.mem_map.mp hrepeat
      exact absurd rfl hkind
    · obtain ⟨d, hd, hname, _⟩ := exists_of_mem_itemReports hitem
      have hnames := names_generate settings description
      have hmem : d.name ∈ bindings.domains.map (·.name) := hnames ▸ List.mem_map_of_mem hd
      obtain ⟨d', hd', heq⟩ := List.mem_map.mp hmem
      exact ⟨d', hd', heq.trans hname⟩
  · exact (length_flatMap _ _).symm

end Bindings

end InspectorProtocol

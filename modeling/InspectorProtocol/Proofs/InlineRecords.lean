import InspectorProtocol.Proofs.Drafts
import Mathlib.Data.List.Perm.Basic

/-!
# Records made up for inline objects

An array of inline objects gives rise to a record, whose properties may hold further arrays of
inline objects. The records of an item are found level by level through a queue; here they are a
tree, read off the descriptors alone. Both have the same records, each as often.
-/

namespace InspectorProtocol

open Description

/-- Where the type of a descriptor comes from, at the bottom of nested arrays. -/
inductive Origin where
  | reference (name : String)
  /-- an inline object -/
  | inline (record : InlineRecord)
  | plain

namespace Origin

def reference? : Origin → Option String
  | .reference name => some name
  | _ => none

def record? : Origin → Option InlineRecord
  | .inline record => some record
  | _ => none

/-- Whether a type is what an origin stands for in a domain. -/
def Gives (c : Catalogue) (here : String) : Origin → TypeRef → Prop
  | .reference name, type =>
    ∃ resolved, c.resolveReference here name = .ok resolved ∧ type.named? = resolved.named?
  | .inline record, type => type.named? = some (here, record.name)
  | .plain, type => type.named? = none

end Origin

/-- The origin of the elements of an array; `record` is the name for inline objects. -/
def Description.Items.origin (record : String) : Items → Origin
  | ⟨_, some reference, _, _⟩ => .reference reference
  | ⟨some .array, none, _, some nested⟩ => nested.origin record
  | ⟨some .object, none, p :: ps, _⟩ => .inline ⟨record, p :: ps⟩
  | ⟨none, none, p :: ps, _⟩ => .inline ⟨record, p :: ps⟩
  | _ => .plain

/-- The origin of the type of a property of `owner`. -/
def Description.PropertyOf.origin (owner : String) (p : Property) : Origin :=
  match p.reference, p.kind, p.items with
  | some reference, _, _ => .reference reference
  | none, some .array, some items => items.origin (Catalogue.recordName owner p.name)
  | none, _, _ => .plain

namespace Catalogue

variable {c : Catalogue} {here owner record : String} {type : TypeRef}
  {records : List InlineRecord}

lemma gives_list {origin : Origin} (h : origin.Gives c here type) :
    origin.Gives c here (.list type) := by
  cases origin <;> exact h

lemma gives_of_resolveReference {name : String} (h : c.resolveReference here name = .ok type) :
    (Origin.reference name).Gives c here type := ⟨type, h, rfl⟩

lemma gives_plain_of_primitive? {kind : Kind} (h : primitive? kind = some type) :
    Origin.plain.Gives c here type := by
  cases kind <;> cases h <;> rfl

theorem resolveItems_spec {items : Items}
    (h : c.resolveItems here record items = .ok (type, records)) :
    records = (items.origin record).record?.toList ∧
      (items.origin record).Gives c here type := by
  fun_induction Items.origin record items generalizing type records with
  | case1 =>
    obtain ⟨element, helement, heq⟩ := exists_of_bind_ok h
    cases heq
    exact ⟨rfl, gives_list (gives_of_resolveReference helement)⟩
  | case2 properties nested ih =>
    obtain ⟨⟨inner, found⟩, hinner, heq⟩ := exists_of_bind_ok h
    cases heq
    exact ⟨(ih hinner).1, gives_list (ih hinner).2⟩
  | case3 | case4 =>
    cases h
    exact ⟨rfl, rfl⟩
  | case5 items hreference hnested hobject hbare =>
    unfold resolveItems at h
    split at h
    · exact (hreference _ _ _ _ rfl).elim
    · split at h
      · cases h
      · exact (hnested _ _ rfl).elim
    · exact (hobject _ _ _ rfl).elim
    · exact (hbare _ _ _ rfl).elim
    · cases h
    · cases h
    · split at h
      · rename_i hprimitive
        cases h
        exact ⟨rfl, gives_list (gives_plain_of_primitive? hprimitive)⟩
      · cases h

theorem resolveProperty_spec {p : Property}
    (h : c.resolveProperty here owner p = .ok (type, records)) :
    records = (p.origin owner).record?.toList ∧ (p.origin owner).Gives c here type := by
  unfold resolveProperty at h
  unfold PropertyOf.origin
  split at h
  · rename_i reference hreference
    obtain ⟨resolved, hresolved, heq⟩ := exists_of_bind_ok h
    cases heq
    simp only [hreference]
    exact ⟨rfl, gives_of_resolveReference hresolved⟩
  · rename_i hreference hkind
    split at h
    · cases h
    · rename_i items hitems
      simp only [hreference, hkind, hitems]
      exact resolveItems_spec h
  · cases h
  · rename_i kind harray hunknown hreference hkind
    split at h
    · rename_i hprimitive
      cases h
      split
      · rename_i hsome
        cases hreference.symm.trans hsome
      · rename_i hsome _
        exact (harray (Option.some.inj (hkind.symm.trans hsome))).elim
      · exact ⟨rfl, gives_plain_of_primitive? hprimitive⟩
    · cases h
  · cases h

end Catalogue

/-! ### Records inside records -/

/-- The records made up for the properties of an owner. -/
def directRecords (owner : String) (properties : List Property) : List InlineRecord :=
  properties.filterMap fun p => (p.origin owner).record?

lemma directRecords_cons (owner : String) (p : Property) (rest : List Property) :
    directRecords owner (p :: rest) =
      (p.origin owner).record?.toList ++ directRecords owner rest := by
  simp only [directRecords, List.filterMap_eq_flatMap_toList, List.flatMap_cons]

lemma itemsWeight_of_origin {items : Items} {record : String} {r : InlineRecord}
    (h : items.origin record = .inline r) :
    1 + Draft.itemsWeight.propertiesWeight r.properties ≤ Draft.itemsWeight items := by
  fun_induction Items.origin record items with
  | case1 | case5 => cases h
  | case2 properties nested ih =>
    have hle := ih h
    simp only [Draft.itemsWeight, Draft.itemsWeight.nestedWeight]
    omega
  | case3 | case4 =>
    cases h
    simp only [Draft.itemsWeight]
    omega

lemma propertyWeight_of_origin {p : Property} {owner : String} {r : InlineRecord}
    (h : p.origin owner = .inline r) : 1 + Draft.itemsWeight.propertiesWeight r.properties ≤
      Draft.itemsWeight.propertyWeight p := by
  unfold PropertyOf.origin at h
  split at h
  · cases h
  · rename_i items _ _ hitems
    have hle := itemsWeight_of_origin h
    obtain ⟨⟩ := p
    cases hitems
    exact hle
  · cases h

/-- The records made up for properties need no more than the properties' weight. -/
lemma queueWeight_directRecords (owner : String) (properties : List Property) :
    Draft.queueWeight (directRecords owner properties) ≤
      Draft.itemsWeight.propertiesWeight properties := by
  induction properties with
  | nil => exact Nat.le_refl _
  | cons p rest ih =>
    rw [directRecords_cons]
    cases horigin : p.origin owner with
    | inline r =>
      have hle := propertyWeight_of_origin horigin
      simp only [Draft.queueWeight, Draft.itemsWeight.propertiesWeight, Origin.record?,
        Option.toList_some, total_append, total_cons, total_nil] at ih ⊢
      omega
    | reference | plain =>
      simp only [Draft.itemsWeight.propertiesWeight, Origin.record?, Option.toList_none,
        List.nil_append]
      omega

/-- A record and all the records made up inside it. -/
def InlineRecord.tree (r : InlineRecord) : List InlineRecord :=
  r :: ((directRecords r.name r.properties).attach.flatMap fun ⟨inner, _⟩ => inner.tree)
termination_by Draft.itemsWeight.propertiesWeight r.properties
decreasing_by
  rename_i hinner
  have hle := measure_le_total (fun r => 1 + Draft.itemsWeight.propertiesWeight r.properties) hinner
  have hweight := queueWeight_directRecords r.name r.properties
  unfold Draft.queueWeight at hweight
  omega

lemma InlineRecord.tree_eq (r : InlineRecord) :
    r.tree = r :: (directRecords r.name r.properties).flatMap tree := by
  rw [tree]
  simp

lemma InlineRecord.mem_tree_self (r : InlineRecord) : r ∈ r.tree := by
  rw [tree_eq]
  exact List.mem_cons_self

lemma InlineRecord.mem_tree_of_direct {root r inner : InlineRecord} (h : r ∈ root.tree)
    (hinner : inner ∈ directRecords r.name r.properties) : inner ∈ root.tree := by
  induction root using InlineRecord.tree.induct with
  | case1 root ih =>
    rw [tree_eq] at h ⊢
    refine List.mem_cons_of_mem _ (List.mem_flatMap.mpr ?_)
    rcases List.mem_cons.mp h with rfl | hbelow
    · exact ⟨inner, hinner, inner.mem_tree_self⟩
    · obtain ⟨child, hchild, hmem⟩ := List.mem_flatMap.mp hbelow
      exact ⟨child, hchild, ih child hchild hmem⟩

/-! ### From descriptors to bindings -/

/-- What a binding looks like before anything is resolved: its name, and where the types that it
refers to come from. -/
structure Outline where
  name : String
  origins : List Origin

namespace Outline

/-- The records made up for the types of a binding. -/
def records (o : Outline) : List InlineRecord := o.origins.filterMap (·.record?)

/-- Whether a binding carries out an outline in a domain. -/
structure Renders (c : Catalogue) (here : String) (o : Outline) (b : Binding) : Prop where
  name : b.name = o.name
  references : List.Forall₂ (·.Gives c here) o.origins b.references

end Outline

def InlineRecord.outline (r : InlineRecord) : Outline :=
  ⟨Identifier.typeName r.name, r.properties.map (·.origin r.name)⟩

/-- Whether a binding is that of a record: it has the fields of the record's properties, and nothing
else. -/
def InlineRecord.Builds (c : Catalogue) (domain : String) (r : InlineRecord) (b : Binding) : Prop :=
  ∃ fs records, Draft.fields c domain r.name r.properties = .ok (fs, records) ∧
    b = { name := Identifier.typeName r.name, kind := .record, fields := fs }

namespace Draft

variable {c : Catalogue} {domain owner : String} {properties : List Property} {fs : List Field}
  {records : List InlineRecord}

lemma fieldsFrom_spec {namer : Identifier.FieldNamer}
    (h : fieldsFrom c domain owner namer properties = .ok (fs, records)) :
    records = directRecords owner properties ∧
      List.Forall₂ (·.Gives c domain) (properties.map (·.origin owner)) (fs.map (·.type)) := by
  induction properties generalizing namer fs records with
  | nil =>
    cases h
    exact ⟨rfl, .nil⟩
  | cons p rest ih =>
    unfold fieldsFrom at h
    obtain ⟨⟨type, first⟩, hproperty, h⟩ := exists_of_bind_ok h
    obtain ⟨⟨others, more⟩, hrest, h⟩ := exists_of_bind_ok h
    cases h
    obtain ⟨hfirst, hgives⟩ := Catalogue.resolveProperty_spec hproperty
    obtain ⟨hmore, hothers⟩ := ih hrest
    refine ⟨?_, .cons hgives hothers⟩
    rw [hfirst, hmore]
    cases horigin : (p.origin owner).record? <;> simp [directRecords, horigin]

lemma renders_of_fields (h : fields c domain owner properties = .ok (fs, records)) {b : Binding}
    {name : String} (hname : b.name = name) (hfields : b.fields = fs) (htarget : b.target = none) :
    Outline.Renders c domain ⟨name, properties.map (·.origin owner)⟩ b := by
  refine ⟨hname, ?_⟩
  simpa [Binding.references, hfields, htarget] using (fieldsFrom_spec h).2

lemma renders_of_builds {r : InlineRecord} {b : Binding} (h : r.Builds c domain b) :
    r.outline.Renders c domain b := by
  obtain ⟨fs, records, hfields, rfl⟩ := h
  exact renders_of_fields hfields (by simp only) rfl rfl

/-- The queue yields one binding for each record of the trees in it. -/
theorem recordBindings_spec {fuel : Nat} {queue : List InlineRecord} {bindings : List Binding}
    (hfuel : queueWeight queue ≤ fuel)
    (h : recordBindings c domain fuel queue = .ok bindings) :
    ∃ order : List InlineRecord, order.Perm (queue.flatMap (·.tree)) ∧
      List.Forall₂ (·.Builds c domain) order bindings := by
  induction fuel generalizing queue bindings with
  | zero =>
    cases queue with
    | nil =>
      cases h
      exact ⟨[], .nil, .nil⟩
    | cons r queue => simp [queueWeight] at hfuel
  | succ fuel ih =>
    cases queue with
    | nil =>
      cases h
      exact ⟨[], .nil, .nil⟩
    | cons r queue =>
      unfold recordBindings at h
      obtain ⟨⟨fs, more⟩, hfields, h⟩ := exists_of_bind_ok h
      obtain ⟨others, hothers, h⟩ := exists_of_bind_ok h
      cases h
      obtain ⟨rfl, _⟩ := fieldsFrom_spec hfields
      have hweight := queueWeight_directRecords r.name r.properties
      obtain ⟨order, hperm, hbuilds⟩ := ih (by
        simp only [queueWeight, total_cons, total_append] at hfuel hweight ⊢
        omega) hothers
      refine ⟨r :: order, ?_, .cons ⟨_, _, hfields, by simp only⟩ hbuilds⟩
      rw [List.flatMap_append] at hperm
      rw [List.flatMap_cons, r.tree_eq]
      exact (hperm.trans List.perm_append_comm).cons r

end Draft

end InspectorProtocol

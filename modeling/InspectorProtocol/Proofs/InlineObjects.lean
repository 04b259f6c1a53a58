import InspectorProtocol.Proofs.Declarations

/-!
# Inline objects

An inline object may stand among the elements of an array, below further arrays, and inside another
inline object. Read off the descriptors from the outside in, they are a list, in which each stands
as often as it is described. The queue of records comes to its end whatever is put into it on the
way, and leaves one binding for each of them.
-/

namespace InspectorProtocol

open Description

/-! ### Reading inline objects off descriptors -/

/-- Whether a descriptor stands for an inline object: one without a reference that has properties
and is of no other kind than an object. -/
def Description.Items.isInlineObject (i : Items) : Bool :=
  i.reference.isNone && (i.kind == none || i.kind == some .object) && !i.properties.isEmpty

/-- The inline objects among the elements of an array, each before those inside it. The first of
them, if there is one, is what the elements are. -/
def Description.Items.inlineObjects : Items → List Items
  | ⟨kind, reference, properties, nested⟩ =>
    if Items.isInlineObject ⟨kind, reference, properties, nested⟩ then
      ⟨kind, reference, properties, nested⟩ :: ofProperties properties
    else if reference.isNone && kind == some .array then ofNested nested
    else []
where
  ofNested : Option Items → List Items
    | none => []
    | some items => items.inlineObjects
  ofProperties : List (PropertyOf Items) → List Items
    | [] => []
    | p :: rest => ofProperty p ++ ofProperties rest
  ofProperty : PropertyOf Items → List Items
    | ⟨_, kind, reference, items, _, _, _, _, _⟩ =>
      if reference.isNone && kind == some .array then ofNested items else []

/-- The inline objects that a property holds in arrays. -/
def Description.PropertyOf.inlineObjects (p : Property) : List Items :=
  Items.inlineObjects.ofProperty p

/-- The lists of properties that the main bindings of a declaration have their types from. An array
type has its type from its items, as a property that is such an array. -/
def Declaration.descriptors : Declaration → List (List Property)
  | .type decl =>
    match decl.kind with
    | .array => [[{ kind := some .array, items := decl.items }]]
    | _ => [decl.properties]
  | .command decl => [decl.parameters, decl.returns]
  | .event decl => [decl.parameters]

/-- The inline objects of a declaration. -/
def Declaration.inlineObjects (x : Declaration) : List Items :=
  x.descriptors.flatten.flatMap (·.inlineObjects)

/-- Whether a declared type has its binding from properties or from items: it is neither replaced
nor does it list its values. -/
def Description.TypeDecl.IsComposite (settings : Settings) (domain : String) (type : TypeDecl) :
    Prop :=
  settings.override? domain type.name = none ∧ type.values = [] ∧
    (type.kind = .object ∧ type.properties ≠ [] ∨ type.kind = .array)

def Declaration.IsComposite (settings : Settings) (domain : String) : Declaration → Prop
  | .type decl => decl.IsComposite settings domain
  | _ => True

/-- Whether the type of a property can be told. Who owns the property does not matter. -/
def Description.PropertyOf.Resolves (c : Catalogue) (domain : String) (p : Property) : Prop :=
  ∃ owner type records, c.resolveProperty domain owner p = .ok (type, records)

/-- Whether the types of all properties can be told, those of inline objects too. -/
def Declaration.Resolves (c : Catalogue) (domain : String) (x : Declaration) : Prop :=
  (∀ properties ∈ x.descriptors, ∀ p ∈ properties, p.Resolves c domain) ∧
    ∀ object ∈ x.inlineObjects, ∀ p ∈ object.properties, p.Resolves c domain

/-! ### Records carry inline objects -/

/-- A record carries an inline object if it has its properties. -/
def InlineRecord.Carries (r : InlineRecord) (object : Items) : Prop :=
  r.properties = object.properties

/-- The records made up for an origin carry some inline objects. -/
def Origin.Covers (o : Origin) (objects : List Items) : Prop :=
  List.Forall₂ InlineRecord.Carries (o.record?.toList.flatMap (·.tree)) objects

lemma Origin.covers_inline {r : InlineRecord} {object : Items} {objects : List Items}
    (hcarries : r.Carries object) (hrest : List.Forall₂ InlineRecord.Carries
      ((directRecords r.name r.properties).flatMap (·.tree)) objects) :
    (Origin.inline r).Covers (object :: objects) := by
  simpa [Origin.Covers, Origin.record?, r.tree_eq] using ⟨hcarries, hrest⟩

mutual

lemma Description.Items.covers_origin (record : String) :
    (i : Items) → (i.origin record).Covers i.inlineObjects
  | ⟨kind, some reference, properties, nested⟩ => by
    simp [Items.origin, Items.inlineObjects, Items.isInlineObject, Origin.Covers, Origin.record?]
  | ⟨some .array, none, properties, nested⟩ => by
    simpa [Items.inlineObjects, Items.isInlineObject] using covers_nested record properties nested
  | ⟨some .object, none, p :: ps, nested⟩ => by
    have hcarries :
        InlineRecord.Carries ⟨record, p :: ps⟩ ⟨some .object, none, p :: ps, nested⟩ := rfl
    simpa [Items.origin, Items.inlineObjects, Items.isInlineObject] using
      Origin.covers_inline hcarries (covers_properties record (p :: ps))
  | ⟨none, none, p :: ps, nested⟩ => by
    have hcarries : InlineRecord.Carries ⟨record, p :: ps⟩ ⟨none, none, p :: ps, nested⟩ := rfl
    simpa [Items.origin, Items.inlineObjects, Items.isInlineObject] using
      Origin.covers_inline hcarries (covers_properties record (p :: ps))
  | ⟨some .object, none, [], nested⟩ | ⟨none, none, [], nested⟩
  | ⟨some .number, none, properties, nested⟩ | ⟨some .integer, none, properties, nested⟩
  | ⟨some .boolean, none, properties, nested⟩ | ⟨some .string, none, properties, nested⟩
  | ⟨some .any, none, properties, nested⟩ | ⟨some .unknown, none, properties, nested⟩ => by
    simp [Items.origin, Items.inlineObjects, Items.isInlineObject, Origin.Covers, Origin.record?]

lemma Description.Items.covers_nested (record : String) (properties : List Property) :
    (nested : Option Items) → (Items.origin record ⟨some .array, none, properties, nested⟩).Covers
      (Items.inlineObjects.ofNested nested)
  | none => by
    simp [Items.origin, Items.inlineObjects.ofNested, Origin.Covers, Origin.record?]
  | some i => by
    simpa [Items.origin, Items.inlineObjects.ofNested] using i.covers_origin record

lemma Description.Items.covers_properties (owner : String) :
    (properties : List Property) → List.Forall₂ InlineRecord.Carries
      ((directRecords owner properties).flatMap (·.tree))
      (Items.inlineObjects.ofProperties properties)
  | [] => .nil
  | p :: rest => by
    rw [directRecords_cons, List.flatMap_append, Items.inlineObjects.ofProperties]
    exact List.rel_append (covers_property owner p) (covers_properties owner rest)

lemma Description.Items.covers_property (owner : String) :
    (p : Property) → (p.origin owner).Covers (Items.inlineObjects.ofProperty p)
  | ⟨_, _, some _, _, _, _, _, _, _⟩ => by
    simp [PropertyOf.origin, Items.inlineObjects.ofProperty, Origin.Covers, Origin.record?]
  | ⟨name, some .array, none, some items, _, _, _, _, _⟩ => by
    simpa [PropertyOf.origin, Items.inlineObjects.ofProperty, Items.inlineObjects.ofNested] using
      items.covers_origin (Catalogue.recordName owner name)
  | ⟨name, some .array, none, none, _, _, _, _, _⟩ => by
    simp [PropertyOf.origin, Items.inlineObjects.ofProperty, Items.inlineObjects.ofNested,
      Origin.Covers, Origin.record?]
  | ⟨_, none, none, _, _, _, _, _, _⟩ | ⟨_, some .object, none, _, _, _, _, _, _⟩
  | ⟨_, some .number, none, _, _, _, _, _, _⟩ | ⟨_, some .integer, none, _, _, _, _, _, _⟩
  | ⟨_, some .boolean, none, _, _, _, _, _, _⟩ | ⟨_, some .string, none, _, _, _, _, _, _⟩
  | ⟨_, some .any, none, _, _, _, _, _, _⟩ | ⟨_, some .unknown, none, _, _, _, _, _, _⟩ => by
    simp [PropertyOf.origin, Items.inlineObjects.ofProperty, Origin.Covers, Origin.record?]

end

lemma Origin.Covers.exists_record {o : Origin} {objects : List Items} {object : Items}
    (h : o.Covers objects) (hobject : objects.head? = some object) :
    ∃ r, o = .inline r ∧ r.Carries object := by
  cases o with
  | inline r =>
    simp only [Origin.Covers, Origin.record?, Option.toList_some, List.flatMap_singleton,
      r.tree_eq] at h
    cases h with
    | cons hcarries _ =>
      cases hobject
      exact ⟨r, rfl, hcarries⟩
  | reference | plain =>
    cases h
    cases hobject

lemma covers_flatMap {origins : List Origin} {properties : List Property}
    (h : List.Forall₂ (fun o (p : Property) => o.Covers p.inlineObjects) origins properties) :
    List.Forall₂ InlineRecord.Carries
      ((origins.filterMap (·.record?)).flatMap (·.tree))
      (properties.flatMap (·.inlineObjects)) := by
  induction h with
  | nil => exact .nil
  | @cons o p origins properties hhead _ ih =>
    rw [List.filterMap_eq_flatMap_toList] at ih ⊢
    rw [List.flatMap_cons, List.flatMap_append, List.flatMap_cons]
    exact List.rel_append hhead ih

/-- Properties, and where their types come from. -/
def Outline.Covers (o : Outline) (properties : List Property) : Prop :=
  List.Forall₂ (fun o (p : Property) => o.Covers p.inlineObjects) o.origins properties

lemma covers_of_properties (owner name : String) (properties : List Property) :
    Outline.Covers ⟨name, properties.map (·.origin owner)⟩ properties :=
  List.forall₂_map_left_iff.mpr (List.forall₂_same.mpr fun p _ => Items.covers_property owner p)

/-! ### Which descriptors resolve -/

namespace Catalogue

variable {c : Catalogue} {here : String}

lemma exists_resolveItems {record : String} (other : String) :
    (items : Items) → (∃ found, c.resolveItems here record items = .ok found) →
      ∃ found, c.resolveItems here other items = .ok found
  | ⟨_, some reference, _, _⟩, h => by
    simpa only [resolveItems] using h
  | ⟨some .array, none, _, some nested⟩, ⟨found, h⟩ => by
    obtain ⟨inner, hinner, _⟩ := exists_of_bind_ok h
    obtain ⟨again, hagain⟩ := exists_resolveItems other nested ⟨inner, hinner⟩
    exact ⟨_, by rw [resolveItems, hagain]; rfl⟩
  | ⟨some .object, none, _ :: _, _⟩, _ | ⟨none, none, _ :: _, _⟩, _ => ⟨_, rfl⟩
  | ⟨some .array, none, _, none⟩, ⟨_, h⟩ | ⟨none, none, [], _⟩, ⟨_, h⟩
  | ⟨some .unknown, none, _, _⟩, ⟨_, h⟩ => by
    cases h
  | ⟨some .object, none, [], _⟩, _ | ⟨some .number, none, _, _⟩, _
  | ⟨some .integer, none, _, _⟩, _ | ⟨some .boolean, none, _, _⟩, _
  | ⟨some .string, none, _, _⟩, _ | ⟨some .any, none, _, _⟩, _ => ⟨_, rfl⟩

lemma exists_resolveProperty {p : Property} (h : p.Resolves c here) (owner : String) :
    ∃ type records, c.resolveProperty here owner p = .ok (type, records) := by
  obtain ⟨other, type, records, h⟩ := h
  unfold resolveProperty at h ⊢
  split at h
  · exact ⟨type, records, h⟩
  · split at h
    · cases h
    · obtain ⟨⟨type, records⟩, hfound⟩ := exists_resolveItems (recordName owner p.name) _ ⟨_, h⟩
      exact ⟨type, records, hfound⟩
  · cases h
  · split at h
    · exact ⟨type, records, h⟩
    · cases h
  · cases h

end Catalogue

namespace Draft

variable {settings : Settings} {c : Catalogue} {domain : String} {draft : Draft}

lemma resolves_of_fields {owner : String} {properties : List Property} {fs : List Field}
    {records : List InlineRecord} (h : fields c domain owner properties = .ok (fs, records)) :
    ∀ p ∈ properties, p.Resolves c domain := by
  intro p hp
  obtain ⟨f, _, hfield⟩ := Bindings.exists_right_of_mem (fieldsFrom_fieldOf h) hp
  cases hfield with
  | mk namer hresolved => exact ⟨owner, _, _, hresolved⟩

lemma exists_fields {properties : List Property} (h : ∀ p ∈ properties, p.Resolves c domain)
    (owner : String) : ∃ fs, fields c domain owner properties =
      .ok (fs, directRecords owner properties) := by
  have hfrom (namer : Identifier.FieldNamer) :
      ∃ found, fieldsFrom c domain owner namer properties = .ok found := by
    induction properties generalizing namer with
    | nil => exact ⟨_, rfl⟩
    | cons p rest ih =>
      obtain ⟨hp, hrest⟩ := List.forall_mem_cons.mp h
      obtain ⟨type, records, hproperty⟩ := Catalogue.exists_resolveProperty hp owner
      obtain ⟨found, hfound⟩ := ih hrest (namer.next p.name).2
      simp only [fieldsFrom, hproperty, bind, Except.bind, hfound]
      exact ⟨_, rfl⟩
  obtain ⟨⟨fs, records⟩, hfound⟩ := hfrom (.ofOwner owner)
  exact ⟨fs, (fieldsFrom_spec hfound).1 ▸ hfound⟩

end Draft

namespace Declaration

variable {settings : Settings} {c : Catalogue} {domain : String} {x : Declaration} {draft : Draft}

lemma resolves_descriptors (hx : x.IsComposite settings domain)
    (h : x.attempt settings c domain = .ok draft) :
    ∀ properties ∈ x.descriptors, ∀ p ∈ properties, p.Resolves c domain := by
  cases Draft.made_of_attempt h with
  | @type decl _ _ _ hbinding =>
    obtain ⟨hoverride, hvalues, hshape⟩ := hx
    cases Draft.bindsType_of_typeBinding hbinding with
    | replaced hreplaced => cases hoverride.symm.trans hreplaced
    | values _ hlisted => cases hvalues.symm.trans hlisted
    | record _ _ hkind hproperties hfields =>
      simp only [descriptors, hkind, hproperties, List.forall_mem_singleton]
      exact Draft.resolves_of_fields hfields
    | array _ _ hkind hitems hresolved =>
      obtain ⟨⟨type, records⟩, hfound⟩ :=
        Catalogue.exists_resolveItems (Catalogue.recordName "" "") _ ⟨_, hresolved⟩
      simp only [descriptors, hkind, hitems, List.forall_mem_singleton]
      exact ⟨"", type, records, hfound⟩
    | plain _ _ harray hobject =>
      rcases hshape with ⟨hkind, hproperties⟩ | hkind
      · obtain ⟨p, ps, hcons⟩ := List.exists_cons_of_ne_nil hproperties
        exact (hobject p ps hkind hcons).elim
      · exact (harray hkind).elim
  | command _ _ hparameters hreturns =>
    simp only [descriptors, List.forall_mem_cons]
    exact ⟨Draft.resolves_of_fields hparameters, Draft.resolves_of_fields hreturns, by simp⟩
  | event _ hparameters =>
    simp only [descriptors, List.forall_mem_singleton]
    exact Draft.resolves_of_fields hparameters

lemma covers_mainOutlines (hx : x.IsComposite settings domain)
    (hresolves : ∀ properties ∈ x.descriptors, ∀ p ∈ properties, p.Resolves c domain) :
    List.Forall₂ Outline.Covers (x.mainOutlines settings domain) x.descriptors := by
  cases x with
  | type decl =>
    obtain ⟨hoverride, hvalues, ⟨hkind, hproperties⟩ | hkind⟩ := hx
    · obtain ⟨p, ps, hcons⟩ := List.exists_cons_of_ne_nil hproperties
      simp only [mainOutlines, descriptors, TypeDecl.origins, hoverride, hvalues, hkind, hcons]
      exact .cons (covers_of_properties _ _ _) .nil
    · simp only [descriptors, hkind, List.forall_mem_singleton] at hresolves
      simp only [mainOutlines, descriptors, TypeDecl.origins, hoverride, hvalues, hkind]
      refine .cons ?_ .nil
      cases hitems : decl.items with
      | none =>
        rw [hitems] at hresolves
        obtain ⟨_, _, _, hmissing⟩ := hresolves
        cases hmissing
      | some items => exact .cons (items.covers_origin _) .nil
  | command decl =>
    exact .cons (covers_of_properties _ _ _) (.cons (covers_of_properties _ _ _) .nil)
  | event decl => exact .cons (covers_of_properties _ _ _) .nil

/-- The records of a declaration carry its inline objects. -/
lemma covers_inlineRecords {outlines : List Outline} {lists : List (List Property)}
    (h : List.Forall₂ Outline.Covers outlines lists) :
    List.Forall₂ InlineRecord.Carries ((outlines.flatMap (·.records)).flatMap (·.tree))
      (lists.flatten.flatMap (·.inlineObjects)) := by
  induction h with
  | nil => exact .nil
  | cons hhead _ ih =>
    rw [List.flatMap_cons, List.flatMap_append, List.flatten_cons, List.flatMap_append]
    exact List.rel_append (covers_flatMap hhead) ih

end Declaration

namespace Draft

variable {settings : Settings} {c : Catalogue} {domain : String} {draft : Draft}

/-! ### The end of the queue -/

lemma length_tree (r : InlineRecord) :
    r.tree.length = 1 + ((directRecords r.name r.properties).flatMap (·.tree)).length := by
  rw [r.tree_eq, List.length_cons, Nat.add_comm]

/-- The weight of a record is enough for the records made up inside it. -/
lemma length_tree_le (r : InlineRecord) :
    r.tree.length ≤ 1 + itemsWeight.propertiesWeight r.properties := by
  induction r using InlineRecord.tree.induct with
  | case1 r ih =>
    have hbelow : ((directRecords r.name r.properties).flatMap (·.tree)).length ≤
        queueWeight (directRecords r.name r.properties) := by
      generalize directRecords r.name r.properties = children at ih
      induction children with
      | nil => exact Nat.le_refl _
      | cons child rest ihrest =>
        obtain ⟨hchild, hrest⟩ := List.forall_mem_cons.mp ih
        have hrest := ihrest hrest
        simp only [List.flatMap_cons, List.length_append, queueWeight, total_cons] at hrest ⊢
        omega
    have hweight := queueWeight_directRecords r.name r.properties
    rw [length_tree]
    omega

lemma length_trees_le (queue : List InlineRecord) :
    (queue.flatMap (·.tree)).length ≤ queueWeight queue := by
  induction queue with
  | nil => exact Nat.le_refl _
  | cons r queue ih =>
    have hr := length_tree_le r
    simp only [List.flatMap_cons, List.length_append, queueWeight, total_cons] at ih ⊢
    omega

/-- The queue is empty after as many steps as there are records in its trees, however many more may
be taken. -/
lemma recordBindings_add {fuel : Nat} {queue : List InlineRecord}
    (hfuel : (queue.flatMap (·.tree)).length ≤ fuel) (more : Nat) :
    recordBindings c domain (fuel + more) queue = recordBindings c domain fuel queue := by
  have hempty (steps : Nat) : recordBindings c domain steps [] = .ok [] := by
    cases steps <;> rfl
  induction fuel generalizing queue with
  | zero =>
    cases queue with
    | nil => rw [hempty, hempty]
    | cons r queue => simp [r.tree_eq] at hfuel
  | succ fuel ih =>
    cases queue with
    | nil => rw [hempty, hempty]
    | cons r queue =>
      rw [Nat.add_right_comm, recordBindings, recordBindings]
      cases hfields : fields c domain r.name r.properties with
      | error reason => rfl
      | ok found =>
        obtain ⟨fs, records⟩ := found
        obtain ⟨rfl, _⟩ := fieldsFrom_spec hfields
        have hrest := @ih (queue ++ directRecords r.name r.properties) (by
          simp only [List.flatMap_cons, List.flatMap_append, List.length_append, length_tree]
            at hfuel ⊢
          omega)
        simp only [bind, Except.bind, hrest]

lemma recordBindings_eq {steps : Nat} {queue : List InlineRecord}
    (h : (queue.flatMap (·.tree)).length ≤ steps) :
    recordBindings c domain steps queue = inlineBindings c domain queue := by
  obtain ⟨more, rfl⟩ := Nat.exists_eq_add_of_le h
  obtain ⟨rest, hrest⟩ := Nat.exists_eq_add_of_le (length_trees_le queue)
  rw [recordBindings_add (Nat.le_refl _), inlineBindings, hrest,
    recordBindings_add (Nat.le_refl _)]

lemma exists_recordBindings (fuel : Nat) {queue : List InlineRecord}
    (h : ∀ r ∈ queue.flatMap (·.tree), ∀ p ∈ r.properties, p.Resolves c domain) :
    ∃ bindings, recordBindings c domain fuel queue = .ok bindings := by
  induction fuel generalizing queue with
  | zero => exact ⟨[], rfl⟩
  | succ fuel ih =>
    cases queue with
    | nil => exact ⟨[], rfl⟩
    | cons r queue =>
      have hself : r ∈ (r :: queue).flatMap (·.tree) :=
        List.mem_flatMap.mpr ⟨r, List.mem_cons_self, r.mem_tree_self⟩
      obtain ⟨fs, hfields⟩ := exists_fields (h r hself) r.name
      have hinner : ∀ inner ∈ (queue ++ directRecords r.name r.properties).flatMap (·.tree),
          inner ∈ (r :: queue).flatMap (·.tree) := by
        intro inner hmem
        rw [List.flatMap_append] at hmem
        rw [List.flatMap_cons, r.tree_eq]
        rcases List.mem_append.mp hmem with hlater | hbelow
        · exact List.mem_append_right _ hlater
        · exact List.mem_append_left _ (List.mem_cons_of_mem _ hbelow)
      obtain ⟨others, hothers⟩ := ih fun inner hmem => h inner (hinner inner hmem)
      simp only [recordBindings, hfields, bind, Except.bind, hothers]
      exact ⟨_, rfl⟩

end Draft

namespace Declaration

variable {settings : Settings} {c : Catalogue} {domain : String} {x : Declaration} {draft : Draft}

lemma carries_inlineRecords (hx : x.IsComposite settings domain)
    (h : ∀ properties ∈ x.descriptors, ∀ p ∈ properties, p.Resolves c domain) :
    List.Forall₂ InlineRecord.Carries (x.inlineRecords settings domain) x.inlineObjects :=
  covers_inlineRecords (covers_mainOutlines hx h)

lemma records_outline (name owner : String) (properties : List Property) :
    Outline.records ⟨name, properties.map (·.origin owner)⟩ = directRecords owner properties := by
  rw [Outline.records, directRecords, List.filterMap_map]
  rfl

lemma exists_attempt (hx : x.IsComposite settings domain) (h : x.Resolves c domain) :
    ∃ draft, x.attempt settings c domain = .ok draft := by
  obtain ⟨hdescriptors, hobjects⟩ := h
  have hrecords : ∀ r ∈ x.inlineRecords settings domain, ∀ p ∈ r.properties,
      p.Resolves c domain := by
    intro r hr
    obtain ⟨object, hobject, hcarries⟩ :=
      Bindings.exists_right_of_mem (carries_inlineRecords hx hdescriptors) hr
    rw [hcarries]
    exact hobjects object hobject
  obtain ⟨inline, hinline⟩ := Draft.exists_recordBindings _ hrecords
  change Draft.inlineBindings c domain _ = .ok inline at hinline
  cases x with
  | type decl =>
    suffices hmain : ∃ binding, Draft.typeBinding settings c domain decl =
        .ok (binding, (mainOutlines settings domain (.type decl)).flatMap (·.records)) by
      obtain ⟨binding, hbinding⟩ := hmain
      simp only [attempt, Draft.ofType, hbinding, bind, Except.bind, hinline]
      exact ⟨_, rfl⟩
    obtain ⟨hoverride, hvalues, ⟨hkind, hproperties⟩ | hkind⟩ := hx
    · obtain ⟨p, ps, hcons⟩ := List.exists_cons_of_ne_nil hproperties
      simp only [descriptors, hkind, hcons, List.forall_mem_singleton] at hdescriptors
      obtain ⟨fs, hfields⟩ := Draft.exists_fields hdescriptors decl.name
      simp only [Draft.typeBinding, hoverride, hvalues, hkind, hcons, hfields, bind, Except.bind,
        mainOutlines, TypeDecl.origins, List.flatMap_singleton, records_outline]
      exact ⟨_, rfl⟩
    · simp only [descriptors, hkind, List.forall_mem_singleton] at hdescriptors
      obtain ⟨owner, type, records, hresolved⟩ := hdescriptors
      cases hitems : decl.items with
      | none =>
        rw [hitems] at hresolved
        cases hresolved
      | some items =>
        rw [hitems] at hresolved
        obtain ⟨⟨target, found⟩, hfound⟩ :=
          Catalogue.exists_resolveItems (decl.name ++ "Item") items ⟨_, hresolved⟩
        obtain ⟨rfl, _⟩ := Catalogue.resolveItems_spec hfound
        simp only [Draft.typeBinding, hoverride, hvalues, hkind, hitems, hfound, bind, Except.bind,
          mainOutlines, TypeDecl.origins, List.flatMap_singleton, Outline.records, Option.map_some,
          Option.toList_some, Draft.records_singleton]
        exact ⟨_, rfl⟩
  | command decl =>
    simp only [descriptors, List.forall_mem_cons] at hdescriptors
    obtain ⟨hparameters, hreturns, _⟩ := hdescriptors
    let stem := Identifier.typeName domain ++ Identifier.typeName decl.name
    obtain ⟨taken, htaken⟩ := Draft.exists_fields hparameters (stem ++ "Request")
    obtain ⟨given, hgiven⟩ := Draft.exists_fields hreturns (stem ++ "Response")
    simp only [mainOutlines, List.flatMap_cons, List.flatMap_nil, List.append_nil,
      records_outline] at hinline
    simp only [attempt, Draft.ofCommand, htaken, hgiven, bind, Except.bind, hinline, stem]
    exact ⟨_, rfl⟩
  | event decl =>
    simp only [descriptors, List.forall_mem_singleton] at hdescriptors
    obtain ⟨taken, htaken⟩ := Draft.exists_fields hdescriptors
      (Identifier.typeName domain ++ Identifier.typeName decl.name ++ "Payload")
    simp only [mainOutlines, List.flatMap_singleton, records_outline] at hinline
    simp only [attempt, Draft.ofEvent, htaken, bind, Except.bind, hinline]
    exact ⟨_, rfl⟩

end Declaration

/-! ### One binding for each inline object -/

/-- Whether a type names a record that carries the elements of a property's arrays, where these are
an inline object. -/
def Description.PropertyOf.NamesRecord (domain : String) (records : List InlineRecord)
    (p : Property) (type : TypeRef) : Prop :=
  ∀ object, p.inlineObjects.head? = some object →
    ∃ r ∈ records, r.Carries object ∧ type.named? = some (domain, r.name)

/-- Whether a binding is that of a record: it is named for it, and has one field for each of its
properties. -/
structure InlineRecord.BoundTo (c : Catalogue) (domain : String) (r : InlineRecord) (b : Binding) :
    Prop where
  name : b.name = Identifier.typeName r.name
  kind : b.kind = .record
  fields : List.Forall₂ (Draft.FieldOf c domain r.name) r.properties b.fields

/-- What becomes of the inline objects of a declaration. The records that carry them are those of
the queue, which comes to its end in as many steps as there are objects. -/
structure Declaration.Unfolds (settings : Settings) (c : Catalogue) (domain : String)
    (x : Declaration) (bindings : List Binding) (records : List InlineRecord)
    (objects : List Items) : Prop where
  all : objects.Perm x.inlineObjects
  carried : List.Forall₂ InlineRecord.Carries records objects
  bound : List.Forall₂ (InlineRecord.BoundTo c domain) records
    (bindings.drop x.descriptors.length)
  ends : ∀ steps, objects.length ≤ steps →
    Draft.recordBindings c domain steps ((x.mainOutlines settings domain).flatMap (·.records)) =
      .ok (bindings.drop x.descriptors.length)
  named : List.Forall₂
    (fun properties b => List.Forall₂ (PropertyOf.NamesRecord domain records) properties
      b.references)
    (x.descriptors ++ objects.map (·.properties)) bindings

lemma boundTo_of_builds {c : Catalogue} {domain : String} {r : InlineRecord} {b : Binding}
    (h : r.Builds c domain b) : r.BoundTo c domain b := by
  obtain ⟨fs, records, hfields, rfl⟩ := h
  exact ⟨by simp only, rfl, Draft.fieldsFrom_fieldOf hfields⟩

lemma Outline.Covers.names {c : Catalogue} {domain : String} {o : Outline} {b : Binding}
    {properties : List Property} {records : List InlineRecord} (hcovers : o.Covers properties)
    (hrenders : o.Renders c domain b) (hrecords : ∀ r, .inline r ∈ o.origins → r ∈ records) :
    List.Forall₂ (PropertyOf.NamesRecord domain records) properties b.references := by
  have hgives := hrenders.references
  unfold Outline.Covers at hcovers
  generalize o.origins = origins at hcovers hgives hrecords
  generalize b.references = types at hgives
  induction hcovers generalizing types with
  | nil =>
    cases hgives
    exact .nil
  | cons hhead _ ih =>
    cases hgives with
    | cons hfirst hrest =>
      refine .cons (fun object hobject => ?_) (ih (fun r hr => ?_) _ hrest)
      · obtain ⟨r, rfl, hcarries⟩ := hhead.exists_record hobject
        exact ⟨r, hrecords r List.mem_cons_self, hcarries, hfirst⟩
      · exact hrecords r (List.mem_cons_of_mem _ hr)

lemma forall₂_of_common {α β γ : Type} {R : α → β → Prop} {S : α → γ → Prop} {T : β → γ → Prop}
    {xs : List α} {ys : List β} {zs : List γ} (hys : List.Forall₂ R xs ys)
    (hzs : List.Forall₂ S xs zs) (h : ∀ x ∈ xs, ∀ y z, R x y → S x z → T y z) :
    List.Forall₂ T ys zs := by
  induction hys generalizing zs with
  | nil =>
    cases hzs
    exact .nil
  | cons hhead _ ih =>
    cases hzs with
    | cons hfirst hrest =>
      exact .cons (h _ List.mem_cons_self _ _ hhead hfirst)
        (ih hrest fun x hx => h x (List.mem_cons_of_mem _ hx))

namespace Declaration

variable {settings : Settings} {c : Catalogue} {domain : String} {x : Declaration} {draft : Draft}

lemma exists_unfolds (hx : x.IsComposite settings domain)
    (h : x.attempt settings c domain = .ok draft) :
    ∃ records objects, x.Unfolds settings c domain draft.bindings records objects := by
  have hcovers := covers_mainOutlines hx (resolves_descriptors hx h)
  have hcarries : List.Forall₂ InlineRecord.Carries (x.inlineRecords settings domain)
      x.inlineObjects := carries_inlineRecords hx (resolves_descriptors hx h)
  obtain ⟨mains, inline, hbindings, hmains, hinline⟩ := Draft.attempt_mains h
  obtain ⟨records, hperm, hbuilds⟩ := Draft.recordBindings_spec (Nat.le_refl _) hinline
  change records.Perm (x.inlineRecords settings domain) at hperm
  obtain ⟨objects, hcarried, hobjects⟩ := List.perm_comp_forall₂ hperm hcarries
  have hdrop : draft.bindings.drop x.descriptors.length = inline := by
    rw [hbindings, ← hcovers.length_eq, hmains.length_eq, List.drop_left]
  refine ⟨records, objects, hobjects, hcarried, ?_, ?_, ?_⟩
  · rw [hdrop]
    exact hbuilds.imp fun _ _ => boundTo_of_builds
  · intro steps hsteps
    have hlength : (x.inlineRecords settings domain).length = objects.length :=
      hperm.length_eq.symm.trans hcarried.length_eq
    rw [hdrop, Draft.recordBindings_eq, hinline]
    exact Nat.le_trans (Nat.le_of_eq hlength) hsteps
  · rw [hbindings]
    refine List.rel_append ?_ (List.forall₂_map_left_iff.mpr ?_)
    · refine forall₂_of_common hcovers hmains fun o ho properties b hcovered hrenders => ?_
      refine hcovered.names hrenders fun r hr => hperm.mem_iff.mpr ?_
      exact mem_inlineRecords_of_origin (List.mem_append_left _ ho) hr
    · refine forall₂_of_common hcarried hbuilds fun owner howner object b hcarried hbuilt => ?_
      rw [← hcarried]
      refine (covers_of_properties _ _ _).names (Draft.renders_of_builds hbuilt) fun r hr => ?_
      refine hperm.mem_iff.mpr (mem_inlineRecords_of_origin (List.mem_append_right _ ?_) hr)
      exact List.mem_map_of_mem (hperm.mem_iff.mp howner)

lemma resolves_of_attempt (hx : x.IsComposite settings domain)
    (h : x.attempt settings c domain = .ok draft) : x.Resolves c domain := by
  refine ⟨resolves_descriptors hx h, fun object hobject p hp => ?_⟩
  obtain ⟨records, objects, hunfolds⟩ := exists_unfolds hx h
  obtain ⟨r, hr, hcarries⟩ :=
    Bindings.exists_left_of_mem hunfolds.carried (hunfolds.all.mem_iff.mpr hobject)
  obtain ⟨b, _, hbound⟩ := Bindings.exists_right_of_mem hunfolds.bound hr
  rw [← hcarries] at hp
  obtain ⟨f, _, hfield⟩ := Bindings.exists_right_of_mem hbound.fields hp
  cases hfield with
  | mk namer hresolved => exact ⟨r.name, _, _, hresolved⟩

/-- A declaration whose descriptors resolve has a draft, and only then. Besides its main bindings
the draft has one for each inline object, at whatever depth that is found. -/
theorem inline_objects_have_their_records (hx : x.IsComposite settings domain) :
    ((∃ draft, x.attempt settings c domain = .ok draft) ↔ x.Resolves c domain) ∧
      ∀ draft, x.attempt settings c domain = .ok draft →
        ∃ records objects, x.Unfolds settings c domain draft.bindings records objects := by
  refine ⟨⟨?_, exists_attempt hx⟩, fun _ => exists_unfolds hx⟩
  rintro ⟨draft, h⟩
  exact resolves_of_attempt hx h

/-- An array of objects that hold an array of arrays of objects. -/
def nestedEntries : Declaration :=
  .type
    { name := "Entries", kind := .array
      items := some
        { kind := some .object
          properties :=
            [{ name := "tags", kind := some .array
               items := some
                { kind := some .array
                  items := some { properties := [{ name := "t", kind := some .string }] } } }] } }

theorem nested_entries_have_two_records :
    nestedEntries.IsComposite {} "Store" ∧ nestedEntries.inlineObjects.length = 2 ∧
      ∃ draft records objects, nestedEntries.attempt {} {} "Store" = .ok draft ∧
        nestedEntries.Unfolds {} {} "Store" draft.bindings records objects := by
  have hcomposite : nestedEntries.IsComposite {} "Store" := ⟨rfl, rfl, .inr rfl⟩
  obtain ⟨hiff, hunfolds⟩ := inline_objects_have_their_records (c := {}) hcomposite
  have hresolves : nestedEntries.Resolves {} "Store" := by
    refine ⟨?_, ?_⟩
    · rintro _ (_ | ⟨_, ⟨⟩⟩) _ (_ | ⟨_, ⟨⟩⟩)
      exact ⟨"", _, _, rfl⟩
    · rintro _ (_ | ⟨_, _ | ⟨_, ⟨⟩⟩⟩) _ (_ | ⟨_, ⟨⟩⟩)
      · exact ⟨"", _, _, rfl⟩
      · exact ⟨"", _, _, rfl⟩
  obtain ⟨draft, hdraft⟩ := hiff.mpr hresolves
  obtain ⟨records, objects, h⟩ := hunfolds draft hdraft
  exact ⟨hcomposite, rfl, draft, records, objects, hdraft, h⟩

end Declaration

end InspectorProtocol

import InspectorProtocol.Proofs.Components
import InspectorProtocol.Proofs.Drafts
import InspectorProtocol.Binding.Boxing

/-!
# Boxed fields are those that lead back

Boxing numbers the bindings and asks for the components of a graph of numbers. Here its edges are
read back as references between bindings, which are known by domain and name, and a field turns out
to be boxed exactly when the binding it holds by value leads back to its owner.
-/

namespace InspectorProtocol

/-- The binding whose value a type contains itself, not in a list. -/
def TypeRef.byValue? : TypeRef → Option (String × String)
  | .named domain name => some (domain, Identifier.typeName name)
  | _ => none

/-- The types whose values a binding stores within its own. -/
def Binding.inlineTypes (b : Binding) : List TypeRef :=
  (b.fields.filter (!·.boxed)).map (·.type) ++ b.target.toList

namespace Boxing

/-- A binding named `x` refers by value to `y`, boxed or not. -/
def HoldsByValue (domains : List DomainBindings) (x y : String × String) : Prop :=
  ∃ d ∈ domains, ∃ b ∈ d.bindings, (d.name, b.name) = x ∧
    ∃ type ∈ b.references, type.byValue? = some y

/-- A binding named `x` stores a `y` within its own value. -/
def StoresInline (domains : List DomainBindings) (x y : String × String) : Prop :=
  ∃ d ∈ domains, ∃ b ∈ d.bindings, (d.name, b.name) = x ∧
    ∃ type ∈ b.inlineTypes, type.byValue? = some y

/-- A binding of the domain with the fields boxed that lead back to it. -/
def box (domains : List DomainBindings) (domain : String) (b : Binding) : Binding :=
  boxBinding (nodes domains) (graph (nodes domains) domains).components domain b

section Frame

variable (domains : List DomainBindings) (domain : String) (b : Binding)

@[simp] lemma name_box : (box domains domain b).name = b.name := rfl

@[simp] lemma kind_box : (box domains domain b).kind = b.kind := rfl

@[simp] lemma target_box : (box domains domain b).target = b.target := rfl

@[simp] lemma references_box : (box domains domain b).references = b.references := by
  have htypes : (box domains domain b).fields.map (·.type) = b.fields.map (·.type) := by
    simp only [box, boxBinding, List.map_map]
    apply List.map_congr_left
    intro f _
    simp only [Function.comp_apply]
    split
    · split
      · rfl
      · rfl
    · rfl
  simp only [Binding.references, htypes, target_box]

end Frame

variable {domains : List DomainBindings}

lemma mem_boxAll {d : DomainBindings} :
    d ∈ boxAll domains ↔
      ∃ d' ∈ domains, { d' with bindings := d'.bindings.map (box domains d'.name) } = d :=
  List.mem_map

lemma mem_nodes {x : String × String} :
    x ∈ nodes domains ↔ ∃ d ∈ domains, ∃ b ∈ d.bindings, (d.name, b.name) = x := by
  simp [nodes, List.mem_eraseDups]

lemma target?_eq (nodes : List (String × String)) (type : TypeRef) :
    target? nodes type = type.byValue?.bind (nodes.idxOf? ·) := by
  cases type <;> rfl

lemma getElem?_of_idxOf? {nodes : List (String × String)} {x : String × String} {i : Nat}
    (h : nodes.idxOf? x = some i) : nodes[i]? = some x := by
  obtain ⟨hi, hx, _⟩ := List.idxOf?_eq_some_iff.mp h
  rw [List.getElem?_eq_getElem hi, hx]

lemma exists_idxOf? {nodes : List (String × String)} {x : String × String} (h : x ∈ nodes) :
    ∃ i, nodes.idxOf? x = some i :=
  Option.isSome_iff_exists.mp (List.isSome_idxOf?.mpr h)

lemma lt_size_of_idxOf? {x : String × String} {i : Nat} (h : (nodes domains).idxOf? x = some i) :
    i < (graph (nodes domains) domains).size := by
  obtain ⟨hi, _⟩ := List.idxOf?_eq_some_iff.mp h
  simpa [Graph.size, graph] using hi

lemma inRange_graph : (graph (nodes domains) domains).InRange := by
  intro targets htargets j hj
  obtain ⟨⟨domain, name⟩, _, rfl⟩ := List.mem_map.mp htargets
  obtain ⟨_, hlist, hj⟩ := List.mem_flatten.mp hj
  obtain ⟨d, _, rfl⟩ := List.mem_map.mp hlist
  split at hj
  · obtain ⟨_, hlist, hj⟩ := List.mem_flatten.mp hj
    obtain ⟨b, _, rfl⟩ := List.mem_map.mp hlist
    obtain ⟨type, _, htarget⟩ := List.mem_filterMap.mp hj
    rw [target?_eq] at htarget
    obtain ⟨y, _, hy⟩ := Option.bind_eq_some_iff.mp htarget
    exact lt_size_of_idxOf? hy
  · cases hj

lemma edge_iff {x : String × String} {i j : Nat} (hx : (nodes domains).idxOf? x = some i) :
    (graph (nodes domains) domains).Edge i j ↔
      ∃ y, HoldsByValue domains x y ∧ (nodes domains).idxOf? y = some j := by
  unfold Graph.Edge Graph.targetsOf graph HoldsByValue
  rw [List.getD_eq_getElem?_getD, List.getElem?_map, getElem?_of_idxOf? hx]
  simp only [Option.map_some, Option.getD_some, List.mem_flatten, List.mem_map,
    exists_exists_and_eq_and]
  constructor
  · rintro ⟨d, hd, hj⟩
    split at hj
    · rename_i hname
      simp only [List.mem_flatten, List.mem_map, exists_exists_and_eq_and, List.mem_filter,
        targets, List.mem_filterMap, target?_eq, Option.bind_eq_some_iff] at hj
      obtain ⟨b, ⟨hb, hbname⟩, type, htype, y, hy, hindex⟩ := hj
      refine ⟨y, ⟨d, hd, b, hb, ?_, type, htype, hy⟩, hindex⟩
      rw [eq_of_beq hname, eq_of_beq hbname]
    · cases hj
  · rintro ⟨y, ⟨d, hd, b, hb, rfl, type, htype, hy⟩, hindex⟩
    refine ⟨d, hd, ?_⟩
    rw [if_pos (beq_self_eq_true d.name)]
    simp only [List.mem_flatten, List.mem_map, exists_exists_and_eq_and, List.mem_filter,
      targets, List.mem_filterMap, target?_eq, Option.bind_eq_some_iff]
    exact ⟨b, ⟨hb, beq_self_eq_true b.name⟩, type, htype, y, hy, hindex⟩

lemma mem_nodes_of_holdsByValue {x y : String × String} (h : HoldsByValue domains x y) :
    x ∈ nodes domains := by
  obtain ⟨d, hd, b, hb, hx, _⟩ := h
  exact mem_nodes.mpr ⟨d, hd, b, hb, hx⟩

lemma exists_of_reaches {x : String × String} {i j : Nat} (hx : (nodes domains).idxOf? x = some i)
    (h : (graph (nodes domains) domains).Reaches i j) :
    ∃ y, Relation.ReflTransGen (HoldsByValue domains) x y ∧
      (nodes domains).idxOf? y = some j := by
  induction h with
  | refl => exact ⟨x, Relation.ReflTransGen.refl, hx⟩
  | tail _ hedge ih =>
    obtain ⟨y, hxy, hy⟩ := ih
    obtain ⟨z, hyz, hz⟩ := (edge_iff hy).mp hedge
    exact ⟨z, hxy.tail hyz, hz⟩

/-- Numbers reach each other as the bindings do that they stand for. -/
lemma reaches_iff {x y : String × String} {i j : Nat} (hx : (nodes domains).idxOf? x = some i)
    (hy : (nodes domains).idxOf? y = some j) :
    (graph (nodes domains) domains).Reaches i j ↔
      Relation.ReflTransGen (HoldsByValue domains) x y := by
  constructor
  · intro h
    obtain ⟨z, hxz, hz⟩ := exists_of_reaches hx h
    have heq : some z = some y := by
      rw [← getElem?_of_idxOf? hz, getElem?_of_idxOf? hy]
    cases heq
    exact hxz
  · intro h
    induction h generalizing j with
    | refl =>
      rw [hx] at hy
      cases hy
      exact Relation.ReflTransGen.refl
    | tail _ hyz ih =>
      obtain ⟨k, hk⟩ := exists_idxOf? (mem_nodes_of_holdsByValue hyz)
      exact (ih hk).tail ((edge_iff hk).mpr ⟨_, hyz, hy⟩)

/-- The field of a binding as boxing leaves it. -/
def boxField (domains : List DomainBindings) (owner : String × String) (f : Field) : Field :=
  let component := (graph (nodes domains) domains).components
  let here := ((nodes domains).idxOf? owner).bind (component[·]?)
  match target? (nodes domains) f.type with
  | some v => if here.isSome && component[v]? == here then { f with boxed := true } else f
  | none => f

lemma fields_box (domain : String) (b : Binding) :
    (box domains domain b).fields = b.fields.map (boxField domains (domain, b.name)) := rfl

lemma boxed_boxField {d : DomainBindings} {b : Binding} {f : Field} (hd : d ∈ domains)
    (hb : b ∈ d.bindings) (hf : f ∈ b.fields) (hunboxed : f.boxed = false) :
    (boxField domains (d.name, b.name) f).boxed = true ↔
      ∃ y, f.type.byValue? = some y ∧
        Relation.ReflTransGen (HoldsByValue domains) y (d.name, b.name) := by
  have howner : (d.name, b.name) ∈ nodes domains := mem_nodes.mpr ⟨d, hd, b, hb, rfl⟩
  obtain ⟨i, hi⟩ := exists_idxOf? howner
  unfold boxField
  simp only [hi, Option.bind_some, Graph.getElem?_components inRange_graph (lt_size_of_idxOf? hi),
    target?_eq]
  cases hvalue : f.type.byValue? with
  | none => simp [hunboxed]
  | some y =>
    have hholds : HoldsByValue domains (d.name, b.name) y :=
      ⟨d, hd, b, hb, rfl, f.type, List.mem_append_left _ (List.mem_map_of_mem hf), hvalue⟩
    simp only [Option.bind_some, Option.some.injEq, exists_eq_left']
    cases hv : (nodes domains).idxOf? y with
    | none =>
      have hnode : y ∉ nodes domains := List.idxOf?_eq_none_iff.mp hv
      simp only [hunboxed, Bool.false_eq_true, false_iff]
      intro hback
      rcases hback.cases_head with rfl | ⟨z, hyz, _⟩
      · exact hnode howner
      · exact hnode (mem_nodes_of_holdsByValue hyz)
    | some v =>
      have hsame : ((graph (nodes domains) domains).component v =
          (graph (nodes domains) domains).component i) ↔
          Relation.ReflTransGen (HoldsByValue domains) y (d.name, b.name) := by
        rw [Graph.component_eq_iff inRange_graph (lt_size_of_idxOf? hv) (lt_size_of_idxOf? hi),
          reaches_iff hv hi, reaches_iff hi hv]
        exact and_iff_left (Relation.ReflTransGen.single hholds)
      rw [← hsame]
      simp only [Graph.getElem?_components inRange_graph (lt_size_of_idxOf? hv),
        Option.isSome_some, Bool.true_and, beq_iff_eq, Option.some.injEq]
      split
      · rename_i heq
        simp [heq]
      · rename_i hne
        simp [hne, hunboxed]

lemma boxField_eq (owner : String × String) (f : Field) :
    boxField domains owner f = { f with boxed := (boxField domains owner f).boxed } := by
  unfold boxField
  simp only
  split
  · split
    · rfl
    · rfl
  · rfl

lemma type_boxField (owner : String × String) (f : Field) :
    (boxField domains owner f).type = f.type := by
  rw [boxField_eq]

lemma exists_of_mem_boxAll {d : DomainBindings} {b : Binding} (hd : d ∈ boxAll domains)
    (hb : b ∈ d.bindings) :
    ∃ d' ∈ domains, d'.name = d.name ∧ ∃ b' ∈ d'.bindings, box domains d'.name b' = b := by
  obtain ⟨d', hd', rfl⟩ := mem_boxAll.mp hd
  obtain ⟨b', hb', hbox⟩ := List.mem_map.mp hb
  exact ⟨d', hd', rfl, b', hb', hbox⟩

lemma holdsByValue_boxAll {x y : String × String} :
    HoldsByValue (boxAll domains) x y ↔ HoldsByValue domains x y := by
  constructor
  · rintro ⟨d, hd, b, hb, hx, type, htype, hy⟩
    obtain ⟨d', hd', hname, b', hb', rfl⟩ := exists_of_mem_boxAll hd hb
    rw [references_box] at htype
    rw [← hname] at hx
    exact ⟨d', hd', b', hb', hx, type, htype, hy⟩
  · rintro ⟨d, hd, b, hb, hx, type, htype, hy⟩
    rw [← references_box domains d.name] at htype
    exact ⟨_, mem_boxAll.mpr ⟨d, hd, rfl⟩, _, List.mem_map_of_mem hb, hx, type, htype, hy⟩

/-- A field is boxed exactly when what it holds by value leads back to its owner. -/
theorem boxed_iff (h : ∀ d ∈ domains, ∀ b ∈ d.bindings, b.Unboxed)
    {d : DomainBindings} {b : Binding} {f : Field} (hd : d ∈ boxAll domains)
    (hb : b ∈ d.bindings) (hf : f ∈ b.fields) :
    f.boxed = true ↔ ∃ y, f.type.byValue? = some y ∧
      Relation.ReflTransGen (HoldsByValue (boxAll domains)) y (d.name, b.name) := by
  have hsame : HoldsByValue (boxAll domains) = HoldsByValue domains := by
    funext x y
    exact propext holdsByValue_boxAll
  obtain ⟨d', hd', hname, b', hb', rfl⟩ := exists_of_mem_boxAll hd hb
  rw [fields_box] at hf
  obtain ⟨f', hf', rfl⟩ := List.mem_map.mp hf
  rw [hsame, type_boxField, ← hname, name_box]
  exact boxed_boxField hd' hb' hf' ((h d' hd' b' hb').fields f' hf')

lemma StoresInline.holdsByValue {x y : String × String} (h : StoresInline domains x y) :
    HoldsByValue domains x y := by
  obtain ⟨d, hd, b, hb, hx, type, htype, hy⟩ := h
  refine ⟨d, hd, b, hb, hx, type, ?_, hy⟩
  rcases List.mem_append.mp htype with hfield | htarget
  · exact List.mem_append_left _ ((List.filter_sublist.map _).subset hfield)
  · exact List.mem_append_right _ htarget

/-- References that are not boxed run in no circle: an alias stands for no named type itself, and a
field on a circle is boxed. -/
theorem not_transGen_storesInline (h : ∀ d ∈ domains, ∀ b ∈ d.bindings, b.Unboxed)
    (x : String × String) : ¬ Relation.TransGen (StoresInline (boxAll domains)) x x := by
  intro hcycle
  obtain ⟨y, ⟨d, hd, b, hb, rfl, type, htype, hy⟩, hback⟩ := Relation.TransGen.head'_iff.mp hcycle
  have hvalue : Relation.ReflTransGen (HoldsByValue (boxAll domains)) y (d.name, b.name) :=
    Relation.ReflTransGen.mono (fun _ _ => StoresInline.holdsByValue) _ _ hback
  rcases List.mem_append.mp htype with hfield | htarget
  · obtain ⟨f, hf, rfl⟩ := List.mem_map.mp hfield
    obtain ⟨hmem, hunboxed⟩ := List.mem_filter.mp hf
    have hboxed := (boxed_iff h hd hb hmem).mpr ⟨y, hy, hvalue⟩
    simp [hboxed] at hunboxed
  · obtain ⟨d', hd', _, b', hb', rfl⟩ := exists_of_mem_boxAll hd hb
    have hnot := (h d' hd' b' hb').target type (Option.mem_toList.mp htarget)
    cases type <;> simp [TypeRef.byValue?, TypeRef.isNamed] at hy hnot

lemma exists_depth {α : Type} {r : α → α → Prop} {sources : List α}
    (hsources : ∀ x y, r x y → x ∈ sources) (hacyclic : ∀ x, ¬ Relation.TransGen r x x) :
    ∃ depth : α → Nat, ∀ x y, r x y → depth y < depth x := by
  classical
  refine ⟨fun x => (sources.filter fun z => Relation.ReflTransGen r x z).length, ?_⟩
  intro x y hxy
  have hfilter : (sources.filter fun z => Relation.ReflTransGen r y z) =
      (sources.filter fun z => Relation.ReflTransGen r x z).filter
        fun z => Relation.ReflTransGen r y z := by
    rw [List.filter_filter]
    apply List.filter_congr
    intro z _
    by_cases hyz : Relation.ReflTransGen r y z
    · simp [hyz, hyz.head hxy]
    · simp [hyz]
  simp only
  rw [hfilter, List.length_filter_lt_length_iff_exists]
  refine ⟨x, ?_, ?_⟩
  · simpa using ⟨hsources x y hxy, Relation.ReflTransGen.refl⟩
  · have hnot : ¬ Relation.ReflTransGen r y x :=
      fun hyx => hacyclic x (Relation.TransGen.head' hxy hyx)
    simpa using hnot

/-- Without circles every binding has a finite size, above that of all it stores together. -/
theorem exists_size (hacyclic : ∀ x, ¬ Relation.TransGen (StoresInline domains) x x) :
    ∃ size : String × String → Nat, ∀ d ∈ domains, ∀ b ∈ d.bindings,
      total size (b.inlineTypes.filterMap TypeRef.byValue?) < size (d.name, b.name) := by
  obtain ⟨depth, hdepth⟩ := exists_depth
    (fun x y h => mem_nodes_of_holdsByValue (StoresInline.holdsByValue h)) hacyclic
  let width := total (fun d => total (fun b => b.inlineTypes.length) d.bindings) domains
  refine ⟨fun x => (width + 1) ^ depth x, ?_⟩
  intro d hd b hb
  generalize hparts : b.inlineTypes.filterMap TypeRef.byValue? = parts
  have hpart : ∀ y ∈ parts, (width + 1) ^ depth y * (width + 1) ≤
      (width + 1) ^ depth (d.name, b.name) := by
    intro y hy
    rw [← hparts] at hy
    obtain ⟨type, htype, hvalue⟩ := List.mem_filterMap.mp hy
    have hless := hdepth (d.name, b.name) y ⟨d, hd, b, hb, rfl, type, htype, hvalue⟩
    rw [← Nat.pow_succ]
    exact Nat.pow_le_pow_right (Nat.succ_pos width) hless
  have hwidth : parts.length ≤ width := by
    calc parts.length ≤ b.inlineTypes.length := hparts ▸ List.length_filterMap_le _ _
      _ ≤ total (fun b => b.inlineTypes.length) d.bindings :=
        measure_le_total (fun b => b.inlineTypes.length) hb
      _ ≤ width :=
        measure_le_total (fun d => total (fun b => b.inlineTypes.length) d.bindings) hd
  have hpos : 0 < (width + 1) ^ depth (d.name, b.name) := Nat.pow_pos (Nat.succ_pos width)
  have hsum := total_mul_le hpart
  have hbound : parts.length * (width + 1) ^ depth (d.name, b.name) <
      (width + 1) ^ depth (d.name, b.name) * (width + 1) := by
    rw [Nat.mul_comm]
    exact Nat.mul_lt_mul_of_pos_left (Nat.lt_succ_of_le hwidth) hpos
  exact Nat.lt_of_mul_lt_mul_right (Nat.lt_of_le_of_lt hsum hbound)

end Boxing

end InspectorProtocol

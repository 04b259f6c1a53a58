import InspectorProtocol.Proofs.DeclaredMembers
import InspectorProtocol.Proofs.Lookup
import InspectorProtocol.Proofs.MemberOrder
import InspectorProtocol.Proofs.WireNames
import InspectorProtocol.SampleProtocol
import InspectorProtocol.Wire.Message
import Mathlib.Data.List.Perm.Basic

/-!
# Values survive the wire

A value of a generated type is written as JSON and read back. What makes it one of its type can be
computed: numbers are in their range, maps have their members in order, and a record has the fields
that its binding declares, each with a value unless it is optional. The proof goes by the depth that
reading has left, which is the depth of the document at first.
-/

namespace InspectorProtocol

open Json

lemma Field.memberName_eq (f : Field) : f.memberName = f.wireName := by
  unfold memberName attributes
  cases hrenamed : f.isRenamed with
  | true => rfl
  | false =>
    have hsame : Identifier.bare f.ident = f.wireName := by simpa [isRenamed] using hrenamed
    cases f.optional <;> exact hsame

lemma Field.skipsNone_eq (f : Field) : f.skipsNone = f.optional := by
  unfold skipsNone attributes
  cases f.isRenamed <;> cases f.optional <;> rfl

/-- The command that has a request for its parameters. -/
def Value.command (id : Int) (method : String) (request : Value) : Wire.Command :=
  .make id method (some request.toJson)

/-! ### Values without null -/

namespace Json

/-- Whether there is no null in a value. -/
def nullFree : Json → Bool
  | .null => false
  | .array items => freeItems items
  | .object members => freeMembers members
  | _ => true
where
  freeItems : List Json → Bool
    | [] => true
    | item :: rest => item.nullFree && freeItems rest
  freeMembers : List (String × Json) → Bool
    | [] => true
    | (_, value) :: rest => value.nullFree && freeMembers rest

variable {name : String} {value : Json} {members : List (String × Json)}

lemma nullFreeMembers_iff :
    nullFree.freeMembers members = true ↔ ∀ m ∈ members, m.2.nullFree = true := by
  induction members with
  | nil => simp [nullFree.freeMembers]
  | cons m rest ih => simp [nullFree.freeMembers, ih]

lemma nullFree_insertMember (hvalue : value.nullFree = true)
    (h : nullFree.freeMembers members = true) :
    nullFree.freeMembers (insertMember name value members) = true := by
  induction members with
  | nil => simpa [insertMember, nullFree.freeMembers] using hvalue
  | cons m rest ih =>
    obtain ⟨other, old⟩ := m
    obtain ⟨hold, hrest⟩ := Bool.and_eq_true_iff.mp h
    rw [insertMember]
    split
    · exact Bool.and_eq_true_iff.mpr ⟨hvalue, h⟩
    · split
      · exact Bool.and_eq_true_iff.mpr ⟨hvalue, hrest⟩
      · exact Bool.and_eq_true_iff.mpr ⟨hold, ih hrest⟩

lemma nullFree_ofMembers (h : nullFree.freeMembers members = true) :
    (ofMembers members).nullFree = true := by
  suffices hfold : ∀ done, nullFree.freeMembers done = true →
      nullFree.freeMembers (members.foldl (fun acc m => insertMember m.1 m.2 acc) done) = true from
    hfold [] rfl
  induction members with
  | nil => exact fun _ hdone => hdone
  | cons m rest ih =>
    intro done hdone
    obtain ⟨hm, hrest⟩ := Bool.and_eq_true_iff.mp h
    exact ih hrest _ (nullFree_insertMember hm hdone)

lemma ne_null_of_nullFree (h : value.nullFree = true) : value ≠ .null := by
  rintro rfl
  cases h

end Json

namespace Bindings

/-- Whether a type is a built-in one, once aliases are expanded. -/
def isPlain (b : Bindings) (type plain : TypeRef) : Bool :=
  match b.shape? b.size type with
  | some (.plain found) => found == plain
  | _ => false

/-- Whether a value is one of a type. -/
def fits (b : Bindings) : Value → TypeRef → Bool
  | .float _, type => b.isPlain type .float
  | .integer value, type => b.isPlain type .integer && decide (-2 ^ 63 ≤ value ∧ value < 2 ^ 63)
  | .boolean _, type => b.isPlain type .boolean
  | .string _, type => b.isPlain type .string
  | .any _, _ => false
  | .openMap _, _ => false
  | .stringMap members, type =>
    b.isPlain type .stringMap && decide ((members.map (·.1)).Pairwise (· < ·))
  | .list items, type =>
    match b.shape? b.size type with
    | some (.list element) => fitAll element items
    | _ => false
  | .record fields, type =>
    match b.shape? b.size type with
    | some (.record binding) => decide (fields.map (·.1) = binding.fields) && fitFields fields
    | _ => false
  | .choice variant, type =>
    match b.shape? b.size type with
    | some (.enumeration binding) => binding.variants.contains variant
    | _ => false
where
  fitAll (element : TypeRef) : List Value → Bool
    | [] => true
    | item :: rest => b.fits item element && fitAll element rest
  fitFields : List (Field × Option Value) → Bool
    | [] => true
    | (f, none) :: rest => f.optional && fitFields rest
    | (f, some value) :: rest => b.fits value f.type && fitFields rest

/-- Whether fields make a value of a record binding. -/
def fitsRecord (b : Bindings) (binding : Binding) (fields : List (Field × Option Value)) : Bool :=
  decide (fields.map (·.1) = binding.fields) && fits.fitFields b fields

/-- No two members of a binding are called the same on the wire. -/
structure Distinguishes (binding : Binding) : Prop where
  fields : (binding.fields.map (·.memberName)).Nodup
  variants : (binding.variants.map (·.memberName)).Nodup

def Unambiguous (b : Bindings) : Prop :=
  ∀ d ∈ b.domains, ∀ binding ∈ d.bindings, Distinguishes binding

/-! ### What fits -/

section Fits

variable {b : Bindings} {type : TypeRef} {binding : Binding}
  {fields : List (Field × Option Value)}

lemma shape?_of_isPlain {plain : TypeRef} (h : b.isPlain type plain = true) :
    b.shape? b.size type = some (.plain plain) := by
  unfold isPlain at h
  split at h
  · rename_i found hshape
    rw [hshape, eq_of_beq h]
  · cases h

lemma fitAll_iff {element : TypeRef} {items : List Value} :
    fits.fitAll b element items = true ↔ ∀ item ∈ items, b.fits item element = true := by
  induction items with
  | nil => simp [fits.fitAll]
  | cons item rest ih => simp [fits.fitAll, ih]

/-- The fields of a record as its binding has them. -/
structure MakesUp (b : Bindings) (binding : Binding) (fields : List (Field × Option Value)) :
    Prop where
  declared : fields.map (·.1) = binding.fields
  optional : ∀ f, (f, none) ∈ fields → f.optional = true
  values : ∀ f value, (f, some value) ∈ fields → b.fits value f.type = true

lemma fitFields_iff : fits.fitFields b fields = true ↔
    (∀ f, (f, none) ∈ fields → f.optional = true) ∧
      ∀ f value, (f, some value) ∈ fields → b.fits value f.type = true := by
  induction fields with
  | nil => simp [fits.fitFields]
  | cons p rest ih =>
    obtain ⟨f, _ | value⟩ := p
    · rw [fits.fitFields, Bool.and_eq_true, ih]
      grind
    · rw [fits.fitFields, Bool.and_eq_true, ih]
      grind

lemma makesUp_of_fitsRecord (h : b.fitsRecord binding fields = true) :
    b.MakesUp binding fields := by
  obtain ⟨hdeclared, hfit⟩ := Bool.and_eq_true_iff.mp h
  obtain ⟨hoptional, hvalues⟩ := fitFields_iff.mp hfit
  exact ⟨of_decide_eq_true hdeclared, hoptional, hvalues⟩

lemma mem_of_bindingOf? {domain name : String} (h : b.bindingOf? domain name = some binding) :
    ∃ d ∈ b.domains, binding ∈ d.bindings := by
  obtain ⟨d, hd, hbinding⟩ := Option.bind_eq_some_iff.mp h
  exact ⟨d, List.mem_of_find?_eq_some hd, List.mem_of_find?_eq_some hbinding⟩

lemma mem_of_shape? {limit : Nat} {shape : Shape} (h : b.shape? limit type = some shape)
    (hbinding : shape = .record binding ∨ shape = .enumeration binding) :
    ∃ d ∈ b.domains, binding ∈ d.bindings := by
  fun_induction shape? b limit type with
  | case1 | case2 => cases h
  | case3 _ _ _ _ _ _ _ ih => exact ih h
  | case4 _ _ _ _ hfound =>
    cases h
    cases hbinding with
    | inl heq => cases heq
    | inr heq =>
      cases heq
      exact mem_of_bindingOf? hfound
  | case5 _ _ _ _ hfound =>
    cases h
    cases hbinding with
    | inl heq =>
      cases heq
      exact mem_of_bindingOf? hfound
    | inr heq => cases heq
  | case6 | case7 =>
    cases h
    rcases hbinding with heq | heq <;> cases heq

mutual

lemma nullFree_toJson {value : Value} {type : TypeRef} (h : b.fits value type = true) :
    value.toJson.nullFree = true := by
  cases value with
  | any | openMap => simp [fits] at h
  | float | integer | boolean | string | choice => rfl
  | stringMap members =>
    refine nullFree_ofMembers (nullFreeMembers_iff.mpr fun m hm => ?_)
    obtain ⟨_, _, rfl⟩ := List.mem_map.mp hm
    rfl
  | list items =>
    rw [fits] at h
    split at h
    · exact nullFree_itemsToJson h
    · cases h
  | record fields =>
    rw [fits] at h
    split at h
    · exact nullFree_ofMembers (nullFree_fieldsToJson (Bool.and_eq_true_iff.mp h).2)
    · cases h

lemma nullFree_itemsToJson {element : TypeRef} {items : List Value}
    (h : fits.fitAll b element items = true) :
    nullFree.freeItems (Value.toJson.itemsToJson items) = true := by
  cases items with
  | nil => rfl
  | cons item rest =>
    rw [fits.fitAll, Bool.and_eq_true] at h
    exact Bool.and_eq_true_iff.mpr ⟨nullFree_toJson h.1, nullFree_itemsToJson h.2⟩

lemma nullFree_fieldsToJson {fields : List (Field × Option Value)}
    (h : fits.fitFields b fields = true) :
    nullFree.freeMembers (Value.toJson.fieldsToJson fields) = true := by
  match fields with
  | [] => rfl
  | (f, none) :: rest =>
    rw [fits.fitFields, Bool.and_eq_true] at h
    rw [Value.toJson.fieldsToJson, f.skipsNone_eq, if_pos h.1]
    exact nullFree_fieldsToJson h.2
  | (f, some value) :: rest =>
    rw [fits.fitFields, Bool.and_eq_true] at h
    exact Bool.and_eq_true_iff.mpr ⟨nullFree_toJson h.1, nullFree_fieldsToJson h.2⟩

end

end Fits

/-! ### Maps and lists -/

section Containers

lemma insertMember_of_last {name : String} {value : Json} {members : List (String × Json)}
    (h : ∀ m ∈ members, m.1 < name) :
    insertMember name value members = members ++ [(name, value)] := by
  induction members with
  | nil => rfl
  | cons m rest ih =>
    obtain ⟨other, old⟩ := m
    have hless : other < name := h _ List.mem_cons_self
    have hne : name ≠ other := fun heq => String.lt_irrefl _ (heq ▸ hless)
    rw [insertMember, if_neg (String.lt_asymm hless), if_neg hne,
      ih fun m hm => h m (List.mem_cons_of_mem _ hm)]
    rfl

lemma ofMembers_of_ascending {members : List (String × Json)}
    (h : (members.map (·.1)).Pairwise (· < ·)) : ofMembers members = .object members := by
  suffices hfold : ∀ done : List (String × Json),
      ((done ++ members).map (·.1)).Pairwise (· < ·) →
        members.foldl (fun acc m => insertMember m.1 m.2 acc) done = done ++ members from
    congrArg Json.object (hfold [] h)
  clear h
  induction members with
  | nil => simp
  | cons m rest ih =>
    intro done hdone
    have hlast : ∀ n ∈ done, n.1 < m.1 := by
      rw [List.map_append, List.pairwise_append] at hdone
      exact fun n hn => hdone.2.2 _ (List.mem_map_of_mem hn) _ (by simp)
    rw [List.foldl_cons, insertMember_of_last hlast, ih _ (by simpa using hdone)]
    simp

lemma mapM_ok_of_forall {α β : Type} {read : β → Except DecodeError α} {write : α → β}
    {xs : List α} (h : ∀ x ∈ xs, read (write x) = .ok x) : (xs.map write).mapM read = .ok xs := by
  induction xs with
  | nil => rfl
  | cons x rest ih =>
    rw [List.map_cons, List.mapM_cons, h x List.mem_cons_self,
      ih fun y hy => h y (List.mem_cons_of_mem _ hy)]
    rfl

lemma toDocument_ofMembers (members : List (String × Json)) :
    toDocument.ofMembers members = members.map fun m => (some m.1, m.2.toDocument) := by
  induction members with
  | nil => rfl
  | cons m rest ih => rw [toDocument.ofMembers, ih, List.map_cons]

lemma itemsToJson_eq (items : List Value) :
    Value.toJson.itemsToJson items = items.map Value.toJson := by
  induction items with
  | nil => rfl
  | cons item rest ih => rw [Value.toJson.itemsToJson, ih, List.map_cons]

/-- The fields that have a value, by the names of their members. -/
def given (fields : List (Field × Option Value)) : List (String × Value) :=
  fields.filterMap fun p => p.2.map (p.1.memberName, ·)

lemma given_sublist (fields : List (Field × Option Value)) :
    ((given fields).map (·.1)).Sublist (fields.map (·.1.memberName)) := by
  induction fields with
  | nil => exact List.nil_sublist _
  | cons p rest ih =>
    obtain ⟨f, _ | value⟩ := p
    · exact ih.cons _
    · exact ih.cons_cons _

lemma mem_given {fields : List (Field × Option Value)} {p : String × Value} :
    p ∈ given fields ↔ ∃ f, (f, some p.2) ∈ fields ∧ f.memberName = p.1 := by
  obtain ⟨name, value⟩ := p
  simp [given]

lemma fieldsToJson_eq {fields : List (Field × Option Value)}
    (h : ∀ f, (f, none) ∈ fields → f.optional = true) :
    Value.toJson.fieldsToJson fields = (given fields).map fun p => (p.1, p.2.toJson) := by
  induction fields with
  | nil => rfl
  | cons p rest ih =>
    have hrest := ih fun f hf => h f (List.mem_cons_of_mem _ hf)
    obtain ⟨f, _ | value⟩ := p
    · rw [Value.toJson.fieldsToJson, f.skipsNone_eq, if_pos (h f List.mem_cons_self), hrest]
      rfl
    · rw [Value.toJson.fieldsToJson, hrest]
      rfl

lemma exists_sorted {fields : List (Field × Option Value)}
    (hoptional : ∀ f, (f, none) ∈ fields → f.optional = true)
    (hnodup : ((given fields).map (·.1)).Nodup) :
    ∃ sorted : List (String × Value), sorted.Perm (given fields) ∧
      (Value.record fields).toJson = .object (sorted.map fun p => (p.1, p.2.toJson)) := by
  obtain ⟨members, heq, hperm⟩ :=
    keepsMembers_ofMembers ((given fields).map fun p => (p.1, p.2.toJson))
  replace hperm := hperm (by simpa [Function.comp_def] using hnodup)
  obtain ⟨sorted, rfl, hsorted⟩ :=
    (congrFun₂ (List.eq_map_comp_perm _) members (given fields)).mpr hperm
  exact ⟨sorted, hsorted, by rw [Value.toJson, fieldsToJson_eq hoptional, heq]⟩

lemma stringMap_toJson {members : List (String × String)} {budget : Nat}
    (h : (members.map (·.1)).Pairwise (· < ·)) :
    Decoder.stringMap (budget + 1) (Value.stringMap members).toJson.toDocument = .ok members := by
  have hobject : (Value.stringMap members).toJson =
      .object (members.map fun m => (m.1, .string m.2)) := by
    refine ofMembers_of_ascending ?_
    simpa [Function.comp_def] using h
  rw [hobject, toDocument, toDocument_ofMembers, List.map_map]
  rw [Decoder.stringMap, mapM_ok_of_forall]
  · rfl
  · exact fun _ _ => rfl

end Containers

/-! ### Records -/

section Records

variable {b : Bindings} {binding : Binding} {read : TypeRef → Decoder Value}
  {declared : List Field} {fields : List (Field × Option Value)}
  {there found : List (String × Value)}

/-- A member whose value is read back, and is not null. -/
def ReadsBack (read : TypeRef → Decoder Value) (declared : List Field) (p : String × Value) :
    Prop :=
  ∃ f ∈ declared, f.memberName = p.1 ∧ read f.type p.2.toJson.toDocument = .ok p.2 ∧
    p.2.toJson ≠ .null

lemma names_fieldReaders :
    (fieldReaders read declared).map (·.name) = declared.map (·.memberName) := by
  rw [fieldReaders, List.map_map]
  refine List.map_congr_left fun f _ => ?_
  simp only [Function.comp_apply]
  split <;> rfl

lemma optional_toDocument {value : Json} (h : value ≠ .null) (read : Decoder Value) :
    Decoder.optional read value.toDocument = some <$> read value.toDocument := by
  cases value with
  | null => exact absurd rfl h
  | bool | number | string | array | object => rfl

lemma exists_fieldReader (read : TypeRef → Decoder Value) {f : Field} (hf : f ∈ declared) :
    ∃ reader ∈ fieldReaders read declared, reader.name = f.memberName ∧
      ∀ value : Value, value.toJson ≠ .null → read f.type value.toJson.toDocument = .ok value →
        reader.read value.toJson.toDocument = .ok ((f.memberName, value) :: ·) := by
  refine ⟨_, List.mem_map_of_mem hf, ?_⟩
  cases f.optional with
  | false =>
    refine ⟨rfl, fun value _ hread => ?_⟩
    simp only [Bool.false_eq_true, if_false, Decoder.Field.needed, hread]
    rfl
  | true =>
    refine ⟨rfl, fun value hnull hread => ?_⟩
    simp only [if_true, Decoder.Field.free, optional_toDocument hnull, hread]
    rfl

lemma find?_fieldReaders (hdeclared : (declared.map (·.memberName)).Nodup) {p : String × Value}
    (h : ReadsBack read declared p) : ∃ reader : Decoder.Field (List (String × Value)),
      (fieldReaders read declared).find? (·.name == p.1) = some reader ∧
        reader.read p.2.toJson.toDocument = .ok (p :: ·) := by
  obtain ⟨name, value⟩ := p
  obtain ⟨f, hf, rfl, hread, hnull⟩ := h
  have hnames : ((fieldReaders read declared).map (·.name)).Nodup := names_fieldReaders ▸ hdeclared
  obtain ⟨reader, hreader, hname, hreads⟩ := exists_fieldReader read hf
  exact ⟨reader, hname ▸ Decoder.find?_of_mem hnames hreader, hreads value hnull hread⟩

lemma required_fieldReaders {reader : Decoder.Field (List (String × Value))}
    (hreader : reader ∈ fieldReaders read declared) (hrequired : reader.required = true) :
    ∃ f ∈ declared, f.optional = false ∧ reader.name = f.memberName := by
  obtain ⟨f, hf, rfl⟩ := List.mem_map.mp hreader
  cases hoptional : f.optional with
  | false => exact ⟨f, hf, hoptional, by simp [Decoder.Field.needed]⟩
  | true => simp [hoptional, Decoder.Field.free] at hrequired

lemma recordMembers_there (hdeclared : (declared.map (·.memberName)).Nodup) {seen : List String}
    (hthere : ∀ p ∈ there, ReadsBack read declared p) (hnames : (there.map (·.1)).Nodup)
    (hnew : ∀ p ∈ there, p.1 ∉ seen)
    (hrequired : ∀ f ∈ declared, f.optional = false →
      f.memberName ∈ seen ∨ f.memberName ∈ there.map (·.1)) :
    Decoder.recordMembers (fieldReaders read declared) true seen found
      (there.map fun p => (some p.1, p.2.toJson.toDocument)) = .ok (there.reverse ++ found) := by
  induction there generalizing seen found with
  | nil =>
    refine Decoder.recordMembers_done fun reader hreader hneeded => ?_
    obtain ⟨f, hf, hoptional, hname⟩ := required_fieldReaders hreader hneeded
    exact hname ▸ (hrequired f hf hoptional).resolve_right (by simp)
  | cons p rest ih =>
    obtain ⟨reader, hfind, hread⟩ := find?_fieldReaders hdeclared (hthere p List.mem_cons_self)
    obtain ⟨hname, hrest⟩ := List.nodup_cons.mp hnames
    rw [List.map_cons, Decoder.recordMembers_known hfind (hnew p List.mem_cons_self), hread]
    refine (ih (fun q hq => hthere q (List.mem_cons_of_mem _ hq)) hrest ?_ ?_).trans ?_
    · intro q hq hseen
      rcases List.mem_cons.mp hseen with heq | hseen
      · exact hname (List.mem_map.mpr ⟨q, hq, heq⟩)
      · exact hnew q (List.mem_cons_of_mem _ hq) hseen
    · intro f hf hoptional
      rcases hrequired f hf hoptional with hseen | hlisted
      · exact .inl (List.mem_cons_of_mem _ hseen)
      · rcases List.mem_cons.mp hlisted with heq | hlisted
        · exact .inl (heq ▸ List.mem_cons_self)
        · exact .inr hlisted
    · simp

lemma lookup_given (hnodup : (fields.map (·.1.memberName)).Nodup) {p : Field × Option Value}
    (hp : p ∈ fields) : (given fields).lookup p.1.memberName = p.2 := by
  induction fields with
  | nil => cases hp
  | cons q rest ih =>
    obtain ⟨hq, hrest⟩ := List.nodup_cons.mp hnodup
    obtain ⟨f, value⟩ := q
    rcases List.mem_cons.mp hp with rfl | hlater
    · cases value with
      | none =>
        refine List.lookup_eq_none_iff.mpr fun p hp => bne_iff_ne.mpr fun heq => hq ?_
        exact (given_sublist rest).subset (List.mem_map.mpr ⟨p, hp, heq.symm⟩)
      | some value => exact List.lookup_cons_self
    · cases value with
      | none => exact ih hrest hlater
      | some value =>
        have hne : (p.1.memberName == f.memberName) = false :=
          beq_eq_false_iff_ne.mpr fun heq => hq (List.mem_map.mpr ⟨p, hlater, heq⟩)
        exact (List.lookup_cons.trans (by rw [hne]; rfl)).trans (ih hrest hlater)

/-- With distinct names, each field finds its own value among those that are given. -/
lemma arrange_given (hnodup : (fields.map (·.1.memberName)).Nodup) :
    arrange (fields.map (·.1)) (given fields) = fields := by
  rw [arrange, List.map_map]
  refine (List.map_congr_left fun p hp => ?_).trans (List.map_id _)
  simp [lookup_given hnodup hp]

section MakesUp

lemma MakesUp.names (h : b.MakesUp binding fields) :
    fields.map (·.1.memberName) = binding.fields.map (·.memberName) := by
  rw [← h.declared, List.map_map]
  rfl

lemma MakesUp.nodup (h : b.MakesUp binding fields) (hbinding : Distinguishes binding) :
    ((given fields).map (·.1)).Nodup :=
  (given_sublist fields).nodup (h.names ▸ hbinding.fields)

lemma MakesUp.required (h : b.MakesUp binding fields) {f : Field} (hf : f ∈ binding.fields)
    (hoptional : f.optional = false) : f.memberName ∈ (given fields).map (·.1) := by
  rw [← h.declared] at hf
  obtain ⟨⟨f, _ | value⟩, hp, rfl⟩ := List.mem_map.mp hf
  · exact absurd (h.optional f hp) (Bool.eq_false_iff.mp hoptional)
  · exact List.mem_map.mpr ⟨(f.memberName, value), mem_given.mpr ⟨f, hp, rfl⟩, rfl⟩

end MakesUp

lemma readRecord_toJson (hbinding : Distinguishes binding) (h : b.MakesUp binding fields)
    (hreads : ∀ p ∈ given fields, ReadsBack read binding.fields p) :
    readRecord read binding (Value.record fields).toJson.toDocument = .ok (.record fields) := by
  have hnodup := h.nodup hbinding
  obtain ⟨sorted, hsorted, heq⟩ := exists_sorted h.optional hnodup
  have hmembers : Decoder.recordMembers (fieldReaders read binding.fields) true [] []
      (sorted.map fun p => (some p.1, p.2.toJson.toDocument)) = .ok (sorted.reverse ++ []) := by
    refine recordMembers_there hbinding.fields (fun p hp => hreads p (hsorted.mem_iff.mp hp))
      ((hsorted.map _).nodup_iff.mpr hnodup) (by simp) fun f hf hoptional => .inr ?_
    exact (hsorted.map _).mem_iff.mpr (h.required hf hoptional)
  have hlookup : ∀ name, (sorted.reverse ++ []).lookup name = (given fields).lookup name := by
    rw [List.append_nil]
    have hperm : sorted.reverse.Perm (given fields) := sorted.reverse_perm.trans hsorted
    exact lookup_eq_of_perm hperm ((hperm.map _).nodup_iff.mpr hnodup)
  have harranged : arrange binding.fields (sorted.reverse ++ []) = fields := by
    simp only [arrange, hlookup]
    rw [← h.declared]
    exact arrange_given (h.names ▸ hbinding.fields)
  rw [heq, toDocument, toDocument_ofMembers, List.map_map, readRecord, Decoder.record]
  simp only [Function.comp_def, hmembers]
  exact congrArg (fun found => Except.ok (Value.record found)) harranged

end Records

/-! ### Values of types -/

section Types

variable {b : Bindings} {type : TypeRef} {binding : Binding} {fields : List (Field × Option Value)}

lemma find?_variant (hbinding : Distinguishes binding) {v : Variant} (hv : v ∈ binding.variants) :
    binding.variants.find? (·.memberName == v.memberName) = some v := by
  refine List.find?_eq_some_iff_append.mpr ⟨by simp, ?_⟩
  obtain ⟨before, behind, heq⟩ := List.append_of_mem hv
  refine ⟨before, behind, heq, fun w hw => ?_⟩
  have hdistinct := hbinding.variants
  rw [heq, List.map_append, List.nodup_append] at hdistinct
  simpa using hdistinct.2.2 _ (List.mem_map_of_mem hw) _ (by simp)

lemma readRecord_of_readType {left : Nat} (hbinding : Distinguishes binding)
    (h : b.MakesUp binding fields) (hdepth : (Value.record fields).toJson.depth ≤ left + 1)
    (hvalues : ∀ (value : Value) (type : TypeRef), b.fits value type = true →
      value.toJson.depth ≤ left → b.readType left type value.toJson.toDocument = .ok value) :
    readRecord (b.readType left) binding (Value.record fields).toJson.toDocument =
      .ok (.record fields) := by
  obtain ⟨sorted, hsorted, heq⟩ := exists_sorted h.optional (h.nodup hbinding)
  rw [heq, depth, Nat.add_le_add_iff_right, depthMembers_le] at hdepth
  refine readRecord_toJson hbinding h fun p hp => ?_
  obtain ⟨f, hf, hname⟩ := mem_given.mp hp
  have hfits := h.values f p.2 hf
  have hvalue : p.2.toJson.depth ≤ left :=
    hdepth _ (List.mem_map_of_mem (hsorted.mem_iff.mpr hp))
  exact ⟨f, h.declared ▸ List.mem_map_of_mem hf, hname, hvalues p.2 f.type hfits hvalue,
    ne_null_of_nullFree (nullFree_toJson hfits)⟩

/-- With enough depth left, a value is read back as a value of its type. -/
theorem readType_toJson (hb : b.Unambiguous) {budget : Nat} {value : Value}
    (h : b.fits value type = true) (hdepth : value.toJson.depth ≤ budget) :
    b.readType budget type value.toJson.toDocument = .ok value := by
  induction budget using Nat.strong_induction_on generalizing value type with
  | _ budget ih =>
    rw [readType]
    cases value with
    | any | openMap => simp [fits] at h
    | float value =>
      rw [shape?_of_isPlain h]
      rfl
    | integer value =>
      obtain ⟨hplain, hrange⟩ := Bool.and_eq_true_iff.mp h
      have hbound : value < Nat.pow 2 63 := (of_decide_eq_true hrange).2
      rw [shape?_of_isPlain hplain]
      simp only [Value.toJson, toDocument, Decoder.int64, if_pos hbound]
      rfl
    | boolean value =>
      rw [shape?_of_isPlain h]
      rfl
    | string value =>
      rw [shape?_of_isPlain h]
      rfl
    | stringMap members =>
      obtain ⟨hplain, hascending⟩ := Bool.and_eq_true_iff.mp h
      rw [shape?_of_isPlain hplain]
      cases budget with
      | zero => exact absurd hdepth (Nat.not_succ_le_zero _)
      | succ left =>
        simp only [stringMap_toJson (of_decide_eq_true hascending)]
        rfl
    | list items =>
      rw [fits] at h
      split at h
      · rename_i element hshape
        rw [hshape]
        cases budget with
        | zero => exact absurd hdepth (Nat.not_succ_le_zero _)
        | succ left =>
          rw [Value.toJson, itemsToJson_eq] at hdepth ⊢
          have hread : (items.map fun item => item.toJson.toDocument).mapM
              (b.readType left element) = .ok items :=
            mapM_ok_of_forall fun item hitem =>
              ih left (Nat.lt_succ_self _) (fitAll_iff.mp h item hitem)
                (depth_array.mp hdepth _ (List.mem_map_of_mem hitem))
          rw [toDocument, ofItems_eq_map, List.map_map]
          simp only [Decoder.list, Function.comp_def, hread]
          rfl
      · cases h
    | record fields =>
      rw [fits] at h
      split at h
      · rename_i binding hshape
        rw [hshape]
        cases budget with
        | zero => exact absurd hdepth (Nat.not_succ_le_zero _)
        | succ left =>
          obtain ⟨d, hd, hbinding⟩ := mem_of_shape? hshape (.inl rfl)
          exact readRecord_of_readType (hb d hd binding hbinding) (makesUp_of_fitsRecord h) hdepth
            fun value type => ih left (Nat.lt_succ_self _)
      · cases h
    | choice variant =>
      rw [fits] at h
      split at h
      · rename_i binding hshape
        rw [hshape]
        obtain ⟨d, hd, hbinding⟩ := mem_of_shape? hshape (.inr rfl)
        have hknown := find?_variant (hb d hd binding hbinding) (List.contains_iff_mem.mp h)
        simp only [readChoice, Value.toJson, toDocument, Decoder.choice, hknown]
        rfl
      · cases h

/-- A record is read back from the value that it is written as. -/
theorem decodeRecord_toJson (hb : b.Unambiguous) {d : DomainBindings} (hd : d ∈ b.domains)
    (hbinding : binding ∈ d.bindings) (h : b.fitsRecord binding fields = true) :
    b.decodeRecord binding (Value.record fields).toJson = .ok (.record fields) := by
  obtain ⟨left, hleft⟩ : ∃ left, (Value.record fields).toJson.depth = left + 1 := ⟨_, rfl⟩
  rw [decodeRecord, decodeValue, hleft]
  exact readRecord_of_readType (hb d hd binding hbinding) (makesUp_of_fitsRecord h) hleft.le
    fun _ _ hvalue hdepth => readType_toJson hb hvalue hdepth

end Types

/-! ### Records on the wire -/

section Wire

variable {b : Bindings} {binding : Binding} {fields : List (Field × Option Value)}

/-- The members of a record: one for each field that has a value, under the protocol's name for it,
and so one for each field that is required. -/
structure Encodes (binding : Binding) (fields : List (Field × Option Value))
    (members : List (String × Json)) : Prop where
  given : members.Perm
    (fields.filterMap fun p => p.2.map fun value => (p.1.wireName, value.toJson))
  distinct : (members.map (·.1)).Nodup
  required : ∀ f ∈ binding.fields, f.optional = false → f.wireName ∈ members.map (·.1)

lemma exists_encodes (hbinding : Distinguishes binding) (h : b.MakesUp binding fields) :
    ∃ members, (Value.record fields).toJson = .object members ∧
      Encodes binding fields members := by
  have hnodup := h.nodup hbinding
  obtain ⟨sorted, hsorted, heq⟩ := exists_sorted h.optional hnodup
  have hnames : ((sorted.map fun p => (p.1, p.2.toJson)).map (·.1)).Perm
      ((Bindings.given fields).map (·.1)) := by
    simpa [Function.comp_def] using hsorted.map (·.1)
  have hgiven : (Bindings.given fields).map (fun p => (p.1, p.2.toJson)) =
      fields.filterMap fun p => p.2.map fun value => (p.1.wireName, value.toJson) := by
    rw [Bindings.given, List.map_filterMap]
    simp [Function.comp_def, Field.memberName_eq]
  refine ⟨_, heq, hgiven ▸ hsorted.map _, hnames.nodup_iff.mpr hnodup, fun f hf hoptional => ?_⟩
  exact hnames.mem_iff.mpr (f.memberName_eq ▸ h.required hf hoptional)

lemma params_command {id : Int} {method : String} (hbinding : Distinguishes binding)
    (h : b.MakesUp binding fields) :
    (((Value.record fields).command id method).params = none ↔ ∀ p ∈ fields, p.2 = none) ∧
      ((Value.record fields).command id method).params.getD emptyObject =
        (Value.record fields).toJson := by
  have hnone : (∀ p ∈ fields, p.2 = none) ↔ Bindings.given fields = [] := by
    simp [Bindings.given, List.filterMap_eq_nil_iff]
  obtain ⟨sorted, hsorted, heq⟩ := exists_sorted h.optional (h.nodup hbinding)
  rw [hnone, ← List.isEmpty_iff, ← hsorted.isEmpty_eq, Value.command, Wire.Command.make, heq]
  cases sorted with
  | nil => exact ⟨⟨fun _ => rfl, fun _ => rfl⟩, rfl⟩
  | cons p rest => simp [Wire.Command.isEmptyParams, Option.filter]

end Wire

end Bindings

/-! ### The sample -/

namespace Bindings

/-- Whether a shape is neither free-form nor a list. -/
def Shape.isTyped : Shape → Bool
  | .plain type => [.float, .integer, .boolean, .string, .stringMap].contains type
  | .list _ => false
  | .record _ | .enumeration _ => true

/-- Whether a type is not free-form, and if it is a list, neither are its elements. -/
def isTyped (b : Bindings) (type : TypeRef) : Bool :=
  match b.shape? b.size type with
  | some (.list element) => (b.shape? b.size element).any Shape.isTyped
  | shape => shape.any Shape.isTyped

end Bindings

namespace SampleProtocol

/-- The members of a binding are called as the sample declares them: a record's as the properties,
parameters or returned values that it is for, an enumeration's as its values. -/
def CalledAsDeclared (d : DomainBindings) (binding : Binding) : Prop :=
  ∃ source ∈ description.domains, source.name = d.name ∧ ∃ x ∈ source.declarations,
    ∃ w ∈ x.wireNames {} source.name, w.name = binding.name ∧
      w.fields = binding.fields.map (·.memberName) ∧
      w.values = binding.variants.map (·.memberName)

instance (d : DomainBindings) (binding : Binding) : Decidable (CalledAsDeclared d binding) :=
  inferInstanceAs (Decidable (∃ source ∈ description.domains, source.name = d.name ∧ _))

/-- What is seen by looking at a binding of the sample. -/
structure Regular (d : DomainBindings) (binding : Binding) : Prop where
  readable : Source.isReadable binding = true
  called : CalledAsDeclared d binding
  fields : (binding.fields.map (·.memberName)).Nodup
  variants : (binding.variants.map (·.memberName)).Nodup
  typed : ∀ f ∈ binding.fields, bindings.isTyped f.type = true

/-- Names are plain, as declared, and distinct in each binding, and nothing is free-form. -/
def isRegular : Bool :=
  bindings.domains.all fun d => d.bindings.all fun binding =>
    Source.isReadable binding && decide (CalledAsDeclared d binding) &&
      decide (binding.fields.map (·.memberName)).Nodup &&
      decide (binding.variants.map (·.memberName)).Nodup &&
      binding.fields.all fun f => bindings.isTyped f.type

lemma isRegular_eq : isRegular = true := by decide +kernel

lemma regular_of_mem {d : DomainBindings} (hd : d ∈ bindings.domains) {binding : Binding}
    (hbinding : binding ∈ d.bindings) : Regular d binding := by
  have h := List.all_eq_true.mp (List.all_eq_true.mp isRegular_eq d hd) binding hbinding
  simp only [Bool.and_eq_true, decide_eq_true_eq, List.all_eq_true, and_assoc] at h
  obtain ⟨hreadable, hcalled, hfields, hvariants, htyped⟩ := h
  exact ⟨hreadable, hcalled, hfields, hvariants, htyped⟩

/-- The fields of a record, those that are named with a value. -/
def fieldsOf (domain name : String) (values : List (String × Value)) :
    List (Field × Option Value) :=
  match bindings.bindingOf? domain name with
  | some binding => Bindings.arrange binding.fields values
  | none => []

/-- A leaf on its own. -/
def bareLeaf : Value := .record (fieldsOf "Tree" "Leaf" [("peers", .list [])])

/-- A branch that holds another one, a leaf next to its own, and a frame. -/
def fullBranch : List (Field × Option Value) :=
  fieldsOf "Tree" "Branch"
    [("leaf", .record (fieldsOf "Tree" "Leaf"
        [("parent", .record (fieldsOf "Tree" "Branch"
            [("leaf", bareLeaf), ("label", .string "inner")])),
          ("peers", .list [bareLeaf]),
          ("frame", .record (fieldsOf "Page" "Frame"
            [("id", .string "F1"), ("url", .string "about:blank"),
              ("owner", .record (fieldsOf "Tree" "Branch"
                [("leaf", bareLeaf), ("label", .string "owner")])),
              ("securityDetails", .list
                [.record (fieldsOf "Page" "FrameSecurityDetailsItem"
                  [("protocol", .string "TLS 1.3")])])]))])),
      ("label", .string "outer")]

end SampleProtocol

end InspectorProtocol

import InspectorProtocol.Proofs.JsonText
import InspectorProtocol.Proofs.Records
import Mathlib.Data.List.Pairwise

/-!
# Members in any order

An object can have its members in the order in which they are given or sorted by name. A record is
read from either as long as its fields change different parts of it. What holds of the defaults of a
record and is kept by every field holds of all that is read.
-/

namespace InspectorProtocol.Json

/-- Whether the object made of members with different names has just these, in some order. -/
def KeepsMembers (object : List (String × Json) → Json) : Prop :=
  ∀ members, ∃ ms, object members = .object ms ∧ ((members.map (·.1)).Nodup → ms.Perm members)

lemma keepsMembers_object : KeepsMembers .object := fun members => ⟨members, rfl, fun _ => .refl _⟩

lemma insertMember_perm {name : String} {value : Json} {members : List (String × Json)}
    (h : name ∉ members.map (·.1)) :
    (insertMember name value members).Perm ((name, value) :: members) := by
  induction members with
  | nil => exact .refl _
  | cons m rest ih =>
    obtain ⟨other, old⟩ := m
    obtain ⟨hne, hrest⟩ : name ≠ other ∧ name ∉ rest.map (·.1) := by simpa using h
    rw [insertMember]
    split
    · exact .refl _
    · exact ((ih hrest).cons (other, old)).trans (.swap _ _ _)

lemma keepsMembers_ofMembers : KeepsMembers ofMembers := by
  intro members
  suffices h : ∀ (done : List (String × Json)), ((done ++ members).map (·.1)).Nodup →
      (members.foldl (fun acc m => insertMember m.1 m.2 acc) done).Perm
        (done ++ members) from
    ⟨_, rfl, h []⟩
  induction members with
  | nil => exact fun done _ => by simp
  | cons m rest ih =>
    intro done hnodup
    have hmiddle : (done ++ m :: rest).Perm (m :: done ++ rest) := List.perm_middle
    have hnodup' : ((m :: done ++ rest).map (·.1)).Nodup := (hmiddle.map _).nodup_iff.mp hnodup
    have hnew : m.1 ∉ done.map (·.1) := by
      intro hmem
      rw [List.cons_append, List.map_cons, List.map_append] at hnodup'
      exact (List.nodup_cons.mp hnodup').1 (List.mem_append_left _ hmem)
    have hinsert : (insertMember m.1 m.2 done).Perm (m :: done) := insertMember_perm hnew
    have hrest : ((insertMember m.1 m.2 done ++ rest).map (·.1)).Nodup :=
      ((hinsert.append_right rest).map _).nodup_iff.mpr hnodup'
    exact ((ih _ hrest).trans (hinsert.append_right rest)).trans hmiddle.symm

/-! ### Members and what they hold -/

/-- Values of members that nest no deeper, without numbers. -/
def Within (n : Nat) (members : List (String × Json)) : Prop :=
  ∀ m ∈ members, m.2.depth ≤ n

def NumberFree (members : List (String × Json)) : Prop :=
  ∀ m ∈ members, m.2.numberFree = true

section Members

variable {n : Nat} {members members' : List (String × Json)} {items : List Json} {name : String}
  {object : List (String × Json) → Json}

lemma depthItems_le : depth.depthItems items ≤ n ↔ ∀ item ∈ items, item.depth ≤ n := by
  induction items with
  | nil => simp [depth.depthItems]
  | cons item rest ih => simp [depth.depthItems, ih]

lemma depthMembers_le : depth.depthMembers members ≤ n ↔ Within n members := by
  induction members with
  | nil => simp [depth.depthMembers, Within]
  | cons m rest ih =>
    rw [depth.depthMembers, Nat.max_le, ih]
    simp [Within]

lemma depth_array : (Json.array items).depth ≤ n + 1 ↔ ∀ item ∈ items, item.depth ≤ n := by
  rw [depth, Nat.add_le_add_iff_right, depthItems_le]

lemma depth_object (hkeeps : KeepsMembers object) (hnodup : (members.map (·.1)).Nodup) :
    (object members).depth ≤ n + 1 ↔ Within n members := by
  obtain ⟨ms, heq, hperm⟩ := hkeeps members
  rw [heq, depth, Nat.add_le_add_iff_right, depthMembers_le]
  exact forall_congr' fun m => imp_congr_left (hperm hnodup).mem_iff

lemma depth_object_pos (hkeeps : KeepsMembers object) : ¬(object members).depth ≤ 0 := by
  obtain ⟨ms, heq, _⟩ := hkeeps members
  rw [heq, depth]
  omega

lemma object_ne_null (hkeeps : KeepsMembers object) : object members ≠ .null := by
  obtain ⟨ms, heq, _⟩ := hkeeps members
  rw [heq]
  exact Json.noConfusion

lemma freeItems_iff :
    numberFree.freeItems items = true ↔ ∀ item ∈ items, item.numberFree = true := by
  induction items with
  | nil => simp [numberFree.freeItems]
  | cons item rest ih => simp [numberFree.freeItems, ih]

lemma freeMembers_iff : numberFree.freeMembers members = true ↔ NumberFree members := by
  induction members with
  | nil => simp [numberFree.freeMembers, NumberFree]
  | cons m rest ih =>
    rw [numberFree.freeMembers, Bool.and_eq_true, ih]
    simp [NumberFree]

lemma numberFree_object (hkeeps : KeepsMembers object) (hnodup : (members.map (·.1)).Nodup) :
    (object members).numberFree = true ↔ NumberFree members := by
  obtain ⟨ms, heq, hperm⟩ := hkeeps members
  rw [heq, numberFree, freeMembers_iff]
  exact forall_congr' fun m => imp_congr_left (hperm hnodup).mem_iff

lemma within_append : Within n (members ++ members') ↔ Within n members ∧ Within n members' :=
  List.forall_mem_append

end Members

lemma ofItems_eq_map (items : List Json) : toDocument.ofItems items = items.map toDocument := by
  induction items with
  | nil => rfl
  | cons item rest ih => rw [toDocument.ofItems, ih, List.map_cons]

namespace Decoder

/-- A value without numbers that a decoder reads as `a`. -/
structure IsReadAs {α : Type} (read : Decoder α) (value : Json) (a : α) : Prop where
  numberFree : value.numberFree = true
  read_eq : read value.toDocument = .ok a

variable {σ : Type} {fields : List (Field σ)} {x y z : σ} {members members' : List (String × Json)}

/-- Members that are read one after another, each by its field, and what they make of a record. -/
inductive Fills (fields : List (Field σ)) : σ → List (String × Json) → σ → Prop
  | nil (x : σ) : Fills fields x [] x
  | cons {x y : σ} {f : Field σ} {value : Json} {rest : List (String × Json)} {set : σ → σ}
      (known : f ∈ fields) (read : IsReadAs f.read value set)
      (others : Fills fields (set x) rest y) : Fills fields x ((f.name, value) :: rest) y

lemma Fills.numberFree (h : Fills fields x members y) : NumberFree members := by
  induction h with
  | nil => exact fun m hm => by cases hm
  | cons known read _ ih => exact List.forall_mem_cons.mpr ⟨read.numberFree, ih⟩

lemma Fills.weaken {f : Field σ} (h : Fills fields x members y) :
    Fills (f :: fields) x members y := by
  induction h with
  | nil => exact .nil _
  | cons known read _ ih => exact .cons (List.mem_cons_of_mem _ known) read ih

/-- Fields that change different parts of a record. -/
def Apart (f g : Field σ) : Prop :=
  ∀ d e set set', f.read d = .ok set → g.read e = .ok set' → ∀ x, set (set' x) = set' (set x)

def Independent (fields : List (Field σ)) : Prop := fields.Pairwise Apart

lemma Independent.apart (h : Independent fields) {f g : Field σ} (hf : f ∈ fields) (hg : g ∈ fields)
    (hne : f.name ≠ g.name) : Apart f g := by
  have hsymm : Std.Symm (@Apart σ) :=
    ⟨fun f g hfg d e set set' hg hf x => (hfg e d set' set hf hg x).symm⟩
  exact List.Pairwise.forall h hf hg fun heq => hne (congrArg Field.name heq)

lemma Fills.perm (hfields : Independent fields) (hnames : (members.map (·.1)).Nodup)
    (hperm : members.Perm members') (h : Fills fields x members y) : Fills fields x members' y := by
  induction hperm generalizing x with
  | nil => exact h
  | cons m _ ih =>
    cases h with
    | cons known read others =>
      exact .cons known read (ih (List.nodup_cons.mp hnames).2 others)
  | swap m m' rest =>
    cases h with
    | @cons _ _ f _ _ set known read others =>
      cases others with
      | @cons _ _ g _ _ set' known' read' others =>
        have hnew := (List.nodup_cons.mp hnames).1
        have hne : f.name ≠ g.name := fun heq => hnew (by simp [heq])
        have hapart := hfields.apart known known' hne
        have hcomm := hapart _ _ _ _ read.read_eq read'.read_eq x
        exact .cons known' read' (.cons known read (hcomm ▸ others))
  | trans hfirst _ ih ih' =>
    exact ih' ((hfirst.map _).nodup_iff.mp hnames) (ih hnames h)

lemma find?_of_mem (hfields : (fields.map (·.name)).Nodup) {f : Field σ} (hf : f ∈ fields) :
    fields.find? (·.name == f.name) = some f := by
  cases hfind : fields.find? (·.name == f.name) with
  | none => simpa using List.find?_eq_none.mp hfind f hf
  | some g => rw [eq_of_find?_name hfields hfind hf rfl]

lemma recordMembers_done {seen : List String}
    (hneeded : ∀ f ∈ fields, f.required = true → f.name ∈ seen) :
    recordMembers fields true seen x [] = .ok x := by
  have hnone : fields.find? (fun f => f.required && !seen.contains f.name) = none := by
    rw [List.find?_eq_none]
    intro f hf
    cases hrequired : f.required with
    | false => simp
    | true => simp [hneeded f hf hrequired]
  rw [recordMembers, hnone]
  rfl

/-- A record is filled by members that come once each and do not leave out what is needed. -/
lemma recordMembers_of_fills (hfields : (fields.map (·.name)).Nodup)
    (h : Fills fields x members y) {seen : List String}
    (hnew : ∀ m ∈ members, m.1 ∉ seen) (hnames : (members.map (·.1)).Nodup)
    (hneeded : ∀ f ∈ fields, f.required = true → f.name ∈ seen ∨ f.name ∈ members.map (·.1)) :
    recordMembers fields true seen x (toDocument.ofMembers members) = .ok y := by
  induction h generalizing seen with
  | nil x =>
    exact recordMembers_done fun f hf hrequired => (hneeded f hf hrequired).resolve_right (by simp)
  | @cons x y f value rest set known read others ih =>
    obtain ⟨hname, hrest⟩ := List.nodup_cons.mp hnames
    have hfind := find?_of_mem hfields known
    rw [toDocument.ofMembers, recordMembers_known hfind (hnew _ List.mem_cons_self), read.read_eq]
    refine ih ?_ hrest ?_
    · intro m hm hmem
      rcases List.mem_cons.mp hmem with heq | hmem
      · have hagain : m.1 ∈ rest.map (·.1) := List.mem_map_of_mem hm
        exact hname (heq ▸ hagain)
      · exact hnew m (List.mem_cons_of_mem _ hm) hmem
    · intro g hg hrequired
      rcases hneeded g hg hrequired with hseen | hmem
      · exact .inl (List.mem_cons_of_mem _ hseen)
      · rcases List.mem_cons.mp hmem with heq | hmem
        · exact .inl (heq ▸ List.mem_cons_self)
        · exact .inr hmem

/-- However an object has its members, a record that they fill is read from it. -/
theorem record_of_fills {object : List (String × Json) → Json} {name : String} {defaults : σ}
    (hkeeps : KeepsMembers object) (hfields : (fields.map (·.name)).Nodup)
    (hindependent : Independent fields) (hnames : (members.map (·.1)).Nodup)
    (hneeded : ∀ f ∈ fields, f.required = true → f.name ∈ members.map (·.1))
    (h : Fills fields defaults members x) :
    IsReadAs (record .text name fields defaults) (object members) x := by
  refine ⟨(numberFree_object hkeeps hnames).mpr h.numberFree, ?_⟩
  obtain ⟨ms, heq, hperm⟩ := hkeeps members
  replace hperm := hperm hnames
  have hnames' : (ms.map (·.1)).Nodup := (hperm.map _).nodup_iff.mpr hnames
  rw [heq]
  refine recordMembers_of_fills hfields (h.perm hindependent hnames hperm.symm) (by simp) hnames' ?_
  intro f hf hrequired
  exact .inr ((hperm.map _).mem_iff.mpr (hneeded f hf hrequired))

/-- Members that are written for fields in order. Values that nest `n` deep at most are read back;
only fields that may be left out are passed over. -/
inductive Writes (n : Nat) : List (Field σ) → σ → List (String × Json) → σ → Prop
  | nil (x : σ) : Writes n [] x [] x
  | skip {f : Field σ} {fields : List (Field σ)} {x y : σ} {members : List (String × Json)}
      (free : f.required = false) (others : Writes n fields x members y) :
      Writes n (f :: fields) x members y
  | cons {f : Field σ} {fields : List (Field σ)} {x y : σ} {value : Json} {set : σ → σ}
      {members : List (String × Json)} (reads : value.depth ≤ n → IsReadAs f.read value set)
      (others : Writes n fields (set x) members y) :
      Writes n (f :: fields) x ((f.name, value) :: members) y

section Writes

variable {n : Nat}

lemma Writes.names (h : Writes n fields x members y) :
    (members.map (·.1)).Sublist (fields.map (·.name)) := by
  induction h with
  | nil => exact .slnil
  | skip _ _ ih => exact ih.cons _
  | cons _ _ ih => exact ih.cons_cons _

lemma Writes.names_nodup (hfields : (fields.map (·.name)).Nodup) (h : Writes n fields x members y) :
    (members.map (·.1)).Nodup :=
  h.names.nodup hfields

lemma Writes.needed (h : Writes n fields x members y) :
    ∀ f ∈ fields, f.required = true → f.name ∈ members.map (·.1) := by
  induction h with
  | nil => exact fun f hf => by cases hf
  | skip free _ ih =>
    intro g hg hrequired
    rcases List.mem_cons.mp hg with rfl | hg
    · exact absurd hrequired (by simp [free])
    · exact ih g hg hrequired
  | cons _ _ ih =>
    intro g hg hrequired
    rcases List.mem_cons.mp hg with rfl | hg
    · exact List.mem_cons_self
    · exact List.mem_cons_of_mem _ (ih g hg hrequired)

lemma Writes.fills (h : Writes n fields x members y) (hdepth : Within n members) :
    Fills fields x members y := by
  induction h with
  | nil => exact .nil _
  | skip _ _ ih => exact (ih hdepth).weaken
  | cons reads _ ih =>
    obtain ⟨hvalue, hrest⟩ := List.forall_mem_cons.mp hdepth
    exact .cons List.mem_cons_self (reads hvalue) (ih hrest).weaken

/-- However an object has the members that are written for a record, the record is read back. -/
theorem record_of_writes {object : List (String × Json) → Json} {name : String} {defaults : σ}
    (hkeeps : KeepsMembers object) (hfields : (fields.map (·.name)).Nodup)
    (hindependent : Independent fields) (h : Writes n fields defaults members x)
    (hdepth : (object members).depth ≤ n + 1) :
    IsReadAs (record .text name fields defaults) (object members) x := by
  have hnames := h.names_nodup hfields
  have hwithin : Within n members := (depth_object hkeeps hnames).mp hdepth
  exact record_of_fills hkeeps hfields hindependent hnames h.needed (h.fills hwithin)

end Writes

/-! ### What is kept while a record is read -/

/-- A field keeps a property of a record, whatever it reads. -/
def Keeps (holds : σ → Prop) (f : Field σ) : Prop :=
  ∀ d set, f.read d = .ok set → ∀ x, holds x → holds (set x)

variable {holds : σ → Prop}

lemma holds_of_recordMembers
    (hkept : ∀ f ∈ fields, Keeps holds f)
    {closed : Bool} {seen : List String} {members : List (Option String × Document)}
    (hx : holds x) (h : recordMembers fields closed seen x members = .ok y) : holds y := by
  induction members generalizing x seen with
  | nil =>
    rw [recordMembers] at h
    split at h
    · cases h
    · split at h
      · cases h
      · exact Except.ok.inj h ▸ hx
  | cons m rest ih =>
    obtain ⟨_, _, ⟨_, hrest⟩ | ⟨f, set, hfind, _, hread, hrest⟩⟩ := recordMembers_cons_ok h
    · exact ih hx hrest
    · exact ih (hkept f (List.mem_of_find?_eq_some hfind) _ set hread x hx) hrest

lemma holds_of_recordItems
    (hkept : ∀ f ∈ fields, Keeps holds f)
    {origin : Origin} {expected : String} {closed : Bool} {total index : Nat}
    {items : List Document} (hx : holds x)
    (h : recordItems origin expected closed total index fields x items = .ok y) : holds y := by
  induction fields generalizing x index items with
  | nil =>
    cases items with
    | nil =>
      rw [recordItems] at h
      split at h
      · exact Except.ok.inj h ▸ hx
      · cases h
    | cons d rest =>
      cases origin <;> simp [recordItems] at h
  | cons f fields ih =>
    have hrest := fun g hg => hkept g (List.mem_cons_of_mem _ hg)
    cases items with
    | nil =>
      rw [recordItems] at h
      split at h
      · cases h
      · split at h
        · cases h
        · exact ih hrest hx h
    | cons d rest =>
      rw [recordItems] at h
      obtain ⟨set, hread, h⟩ := exists_of_bind_ok h
      exact ih hrest (hkept f List.mem_cons_self d set hread x hx) h

/-- What holds of the defaults of a record and is kept by every field holds of what is read. -/
theorem holds_of_record {origin : Origin} {name : String} {defaults : σ} {d : Document}
    (hkept : ∀ f ∈ fields, Keeps holds f)
    (hdefaults : holds defaults) (h : record origin name fields defaults d = .ok y) : holds y := by
  cases d with
  | object members closed => exact holds_of_recordMembers hkept hdefaults h
  | array items closed => exact holds_of_recordItems hkept hdefaults h
  | null | bool | broken => cases h
  | number value => cases value <;> cases h
  | string value => cases value <;> cases h

/-! ### Fields by their setters -/

section Setters

variable {α β : Type} {read : Decoder α} {read' : Decoder β} {set : α → σ → σ} {set' : β → σ → σ}
  {name name' : String} {required required' : Bool}

lemma isReadAs_set {value : Json} {a : α} (set : α → σ → σ) (h : IsReadAs read value a) :
    IsReadAs (fun d => set <$> read d) value (set a) := by
  refine ⟨h.numberFree, ?_⟩
  simp only [h.read_eq]
  rfl

lemma apart_of_comm (hcomm : ∀ a b x, set a (set' b x) = set' b (set a x)) :
    Apart ⟨name, required, fun d => set <$> read d⟩
      ⟨name', required', fun d => set' <$> read' d⟩ := by
  intro d e change change' (h : (Field.free name read set).read d = _)
    (h' : (Field.free name' read' set').read e = _) x
  obtain ⟨a, _, rfl⟩ := exists_of_free h
  obtain ⟨b, _, rfl⟩ := exists_of_free h'
  exact hcomm a b x

lemma keeps_of_read (h : ∀ d a, read d = .ok a → ∀ x, holds x → holds (set a x)) :
    Keeps holds ⟨name, required, fun d => set <$> read d⟩ := by
  intro d change (hread : (Field.free name read set).read d = _)
  obtain ⟨a, ha, rfl⟩ := exists_of_free hread
  exact h d a ha

lemma keeps_of_set (h : ∀ a x, holds x → holds (set a x)) :
    Keeps holds ⟨name, required, fun d => set <$> read d⟩ :=
  keeps_of_read fun _ a _ => h a

end Setters

end Decoder

end InspectorProtocol.Json

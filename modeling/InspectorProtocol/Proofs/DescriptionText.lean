import InspectorProtocol.Description.Decode
import InspectorProtocol.Description.Encode
import InspectorProtocol.Proofs.MemberOrder

/-!
# Descriptions survive their text

Each record of a description is written with its members in the order of its fields, so that one
statement about written members settles them all. Items and properties contain each other; they are
settled together, by induction on the depth that a text has left.
-/

namespace InspectorProtocol.Description

open Json Json.Decoder

/-- What is written within a depth is read back, and what is read is written within that depth. -/
structure Faithful {α : Type} (read : Decoder α) (encode : α → Json) (n : Nat) : Prop where
  isReadAs : ∀ a, (encode a).depth ≤ n → IsReadAs read (encode a) a
  depth_le : ∀ d a, read d = .ok a → (encode a).depth ≤ n

section Values

variable {α : Type} {n : Nat}

lemma string_ne_null (s : String) : Json.string s ≠ .null := Json.noConfusion

lemma faithful_string : Faithful Decoder.string .string n :=
  ⟨fun _ _ => ⟨rfl, rfl⟩, fun _ _ _ => Nat.zero_le _⟩

lemma faithful_bool : Faithful Decoder.bool .bool n :=
  ⟨fun _ _ => ⟨rfl, rfl⟩, fun _ _ _ => Nat.zero_le _⟩

lemma faithful_kind : Faithful (readKind .text n) (fun k => .string k.name) n :=
  ⟨fun k _ => ⟨rfl, by cases k <;> rfl⟩, fun _ _ _ => Nat.zero_le _⟩

lemma faithful_versionPart : Faithful (readVersionPart n) .string n :=
  ⟨fun _ _ => ⟨rfl, rfl⟩, fun _ _ _ => Nat.zero_le _⟩

lemma faithful_tooDeep {name : String} {encode : α → Json} (hnests : ∀ a, ¬(encode a).depth ≤ 0) :
    Faithful (tooDeep name) encode 0 where
  isReadAs a hdepth := absurd hdepth (hnests a)
  depth_le d a hd := by
    cases d with
    | null | bool | broken | array | object => cases hd
    | number value => cases value <;> cases hd
    | string value => cases value <;> cases hd

lemma exists_of_mapM {read : Decoder α} {items : List Document} {xs : List α}
    (h : items.mapM read = .ok xs) : ∀ a ∈ xs, ∃ d, read d = .ok a := by
  induction items generalizing xs with
  | nil =>
    obtain rfl : [] = xs := Except.ok.inj h
    exact fun a ha => by cases ha
  | cons d rest ih =>
    rw [List.mapM_cons] at h
    obtain ⟨first, hfirst, h⟩ := exists_of_bind_ok h
    obtain ⟨others, hothers, h⟩ := exists_of_bind_ok h
    obtain rfl : first :: others = xs := Except.ok.inj h
    exact List.forall_mem_cons.mpr ⟨⟨d, hfirst⟩, ih hothers⟩

lemma mapM_toDocument {read : Decoder α} {encode : α → Json} {xs : List α}
    (h : ∀ a ∈ xs, read (encode a).toDocument = .ok a) :
    ((xs.map encode).map toDocument).mapM read = .ok xs := by
  induction xs with
  | nil => rfl
  | cons a rest ih =>
    have hrest := ih fun b hb => h b (List.mem_cons_of_mem _ hb)
    rw [List.map_cons, List.map_cons, List.mapM_cons, h a List.mem_cons_self, hrest]
    rfl

lemma faithful_list {read : Nat → Decoder α} {encode : α → Json}
    (h : ∀ m, n = m + 1 → Faithful (read m) encode m) :
    Faithful (list n read) (fun xs => .array (xs.map encode)) n where
  isReadAs xs hdepth := by
    cases n with
    | zero => cases hdepth
    | succ m =>
      have hitems := List.forall_mem_map.mp (depth_array.mp hdepth)
      have heach : ∀ a ∈ xs, IsReadAs (read m) (encode a) a :=
        fun a ha => (h m rfl).isReadAs a (hitems a ha)
      refine ⟨freeItems_iff.mpr (List.forall_mem_map.mpr fun a ha => (heach a ha).numberFree), ?_⟩
      rw [toDocument, ofItems_eq_map, list, mapM_toDocument fun a ha => (heach a ha).read_eq]
      rfl
  depth_le d xs hd := by
    cases d with
    | array items closed =>
      cases n with
      | zero => cases hd
      | succ m =>
        rw [list] at hd
        obtain ⟨values, hvalues, hd⟩ := exists_of_bind_ok hd
        obtain rfl : values = xs := by
          cases closed with
          | false => cases hd
          | true => exact Except.ok.inj hd
        refine depth_array.mpr (List.forall_mem_map.mpr fun a ha => ?_)
        obtain ⟨d, hread⟩ := exists_of_mapM hvalues a ha
        exact (h m rfl).depth_le d a hread
    | null | bool | object | broken => cases hd
    | number value => cases value <;> cases hd
    | string value => cases value <;> cases hd

lemma faithful_strings : Faithful (readStrings n) (fun xs => .array (xs.map .string)) n :=
  faithful_list fun _ _ => faithful_string

end Values

/-! ### Members of a record -/

section Members

variable {σ α : Type} {n : Nat} {name : String} {fields : List (Decoder.Field σ)} {x y : σ}
  {members : List (String × Json)} {read : Decoder α} {encode : α → Json} {d : Document}

lemma optional_eq (h : d ≠ .null) : Decoder.optional read d = some <$> read d := by
  cases d with
  | null => exact absurd rfl h
  | bool | number | string | array | object | broken => rfl

lemma isReadAs_optional {value : Json} {a : α} (hnull : value ≠ .null) (h : IsReadAs read value a) :
    IsReadAs (Decoder.optional read) value (some a) := by
  refine ⟨h.numberFree, ?_⟩
  have hdocument : value.toDocument ≠ .null := by
    cases value with
    | null => exact absurd rfl hnull
    | bool | number | string | array | object => exact Document.noConfusion
  rw [optional_eq hdocument, h.read_eq]
  rfl

lemma writes_needed {set : α → σ → σ} (h : Faithful read encode n) (a : α)
    (others : Writes n fields (set a x) members y) :
    Writes n (.needed name read set :: fields) x ((name, encode a) :: members) y :=
  .cons (fun hdepth => isReadAs_set set (h.isReadAs a hdepth)) others

lemma writes_free {set : α → σ → σ} (h : Faithful read encode n) (a : α)
    (others : Writes n fields (set a x) members y) :
    Writes n (.free name read set :: fields) x ((name, encode a) :: members) y :=
  .cons (fun hdepth => isReadAs_set set (h.isReadAs a hdepth)) others

lemma writes_option {set : Option α → σ → σ} (h : Faithful read encode n)
    (hnull : ∀ a, encode a ≠ .null) (o : Option α) (hnone : set none x = x)
    (others : Writes n fields (set o x) members y) :
    Writes n (.free name (Decoder.optional read) set :: fields) x
      (optionalMember name (o.map encode) ++ members) y := by
  cases o with
  | none => exact .skip rfl (hnone ▸ others)
  | some a =>
    have hreads : (encode a).depth ≤ n → IsReadAs (Decoder.optional read) (encode a) (some a) :=
      fun hdepth => isReadAs_optional (hnull a) (h.isReadAs a hdepth)
    exact .cons (fun hdepth => isReadAs_set set (hreads hdepth)) others

lemma writes_list {read : Decoder (List α)} {set : List α → σ → σ}
    (h : Faithful read (fun xs => .array (xs.map encode)) n) (xs : List α) (hnil : set [] x = x)
    (others : Writes n fields (set xs x) members y) :
    Writes n (.free name read set :: fields) x
      (listMember name (xs.map encode) ++ members) y := by
  cases xs with
  | nil => exact .skip rfl (hnil ▸ others)
  | cons a rest => exact writes_free h (a :: rest) others

lemma within_nil : Within n [] := fun m hm => by cases hm

lemma within_cons {value : Json} :
    Within n ((name, value) :: members) ↔ value.depth ≤ n ∧ Within n members :=
  List.forall_mem_cons

lemma within_option (h : ∀ a, (encode a).depth ≤ n) (o : Option α) :
    Within n (optionalMember name (o.map encode)) := by
  cases o with
  | none => exact within_nil
  | some a => exact within_cons.mpr ⟨h a, within_nil⟩

lemma within_string (o : Option String) : Within n (stringMember name o) :=
  within_option (fun _ => Nat.zero_le n) o

lemma within_of_optional {o : Option α} (h : Faithful read encode n)
    (hread : Decoder.optional read d = .ok o) : Within n (optionalMember name (o.map encode)) := by
  cases o with
  | none => exact within_nil
  | some a =>
    have hd : d ≠ .null := by
      rintro rfl
      cases hread
    rw [optional_eq hd] at hread
    obtain ⟨b, hb, hread⟩ := exists_of_bind_ok hread
    obtain rfl : b = a := Option.some.inj (Except.ok.inj hread)
    exact within_cons.mpr ⟨h.depth_le d b hb, within_nil⟩

lemma within_of_list {read : Decoder (List α)} {xs : List α}
    (h : Faithful read (fun xs => .array (xs.map encode)) n) (hread : read d = .ok xs) :
    Within n (listMember name (xs.map encode)) := by
  cases xs with
  | nil => exact within_nil
  | cons a rest => exact within_cons.mpr ⟨h.depth_le d (a :: rest) hread, within_nil⟩

end Members

/-! ### Records -/

section Records

variable {n : Nat} {object : List (String × Json) → Json}

/-- A record is faithful when its members are written in the order of its fields, and its fields
keep what makes the members nest `n` deep at most. -/
lemma faithful_record {σ : Type} {name : String} {fields : List (Decoder.Field σ)} {defaults : σ}
    {members : σ → List (String × Json)} (hkeeps : KeepsMembers object) (holds : σ → Prop)
    (hfields : (fields.map (·.name)).Nodup) (hindependent : Independent fields)
    (hwrites : ∀ x, Writes n fields defaults (members x) x)
    (hholds : ∀ x, holds x → Within n (members x)) (hdefaults : holds defaults)
    (hkept : ∀ f ∈ fields, Keeps holds f) :
    Faithful (record .text name fields defaults) (fun x => object (members x)) (n + 1) where
  isReadAs x hdepth := record_of_writes hkeeps hfields hindependent (hwrites x) hdepth
  depth_le d x hread := by
    have hnames := (hwrites x).names_nodup hfields
    exact (depth_object hkeeps hnames).mpr (hholds x (holds_of_record hkept hdefaults hread))

lemma itemsMember_eq (items : Option Items) :
    itemsMember object items = optionalMember "items" (items.map (Items.encode object)) := by
  cases items <;> rfl

lemma encodeProperties_eq (properties : List Property) :
    encodeProperties object properties = properties.map (encodeProperty object) := by
  induction properties with
  | nil => rfl
  | cons p rest ih => rw [encodeProperties, ih, List.map_cons]

lemma itemsEncode_eq : Items.encode object = fun i => object
    (optionalMember "type" (i.kind.map fun k => .string k.name) ++
      (stringMember "$ref" i.reference ++
        (listMember "properties" (i.properties.map (encodeProperty object)) ++
          (optionalMember "items" (i.items.map (Items.encode object)) ++ [])))) := by
  funext i
  obtain ⟨kind, reference, properties, items⟩ := i
  simp only [Items.encode, encodeProperties_eq, itemsMember_eq, List.append_assoc, List.append_nil]

lemma itemsEncode_ne_null (hkeeps : KeepsMembers object) (i : Items) :
    Items.encode object i ≠ .null := by
  rw [itemsEncode_eq]
  exact object_ne_null hkeeps

lemma encodeProperty_eq : encodeProperty object = fun p => object
    (("name", .string p.name) :: (optionalMember "type" (p.kind.map fun k => .string k.name) ++
      (stringMember "$ref" p.reference ++
        (optionalMember "items" (p.items.map (Items.encode object)) ++
          (listMember "enum" (p.values.map .string) ++
            ("optional", .bool p.optional) :: ("deprecated", .bool p.deprecated) ::
              ("experimental", .bool p.experimental) ::
                (stringMember "description" p.description ++ [])))))) := by
  funext p
  obtain ⟨_, _, _, _, _, _, _, _, _⟩ := p
  simp only [encodeProperty, itemsMember_eq, List.append_assoc, List.cons_append, List.nil_append,
    List.append_nil]

lemma readItems_succ (origin : Origin) (n : Nat) :
    readItems origin (n + 1) = record origin "ItemDescriptor"
      [.free "type" (Decoder.optional (readKind origin n)) (fun x i => { i with kind := x }),
       .free "$ref" (Decoder.optional Decoder.string) (fun x i => { i with reference := x }),
       .free "properties" (readProperties origin n) (fun x i => { i with properties := x }),
       .free "items" (Decoder.optional (readItems origin n)) (fun x i => { i with items := x })]
      {} := by
  cases n with
  | zero =>
    have hnone : readProperties origin 0 = tooDeepList := by
      funext d
      cases d <;> rfl
    rw [hnone]
    rfl
  | succ m =>
    have heach : readProperties origin (m + 1) = readEach (readProperty origin m) := by
      funext d
      cases d <;> rfl
    rw [heach]
    rfl

lemma faithful_items_succ (hkeeps : KeepsMembers object)
    (hitems : Faithful (readItems .text n) (Items.encode object) n)
    (hproperties : Faithful (readProperties .text n)
      (fun ps => .array (ps.map (encodeProperty object))) n) :
    Faithful (readItems .text (n + 1)) (Items.encode object) (n + 1) := by
  rw [readItems_succ, itemsEncode_eq]
  refine faithful_record hkeeps (fun i =>
    Within n (listMember "properties" (i.properties.map (encodeProperty object))) ∧
      Within n (optionalMember "items" (i.items.map (Items.encode object)))) ?_ ?_ ?_ ?_ ?_ ?_
  · simp [Field.free]
  · simp [Independent, Field.free, apart_of_comm]
  · rintro ⟨kind, reference, properties, items⟩
    exact writes_option faithful_kind (fun k => string_ne_null k.name) kind rfl <|
      writes_option faithful_string string_ne_null reference rfl <|
      writes_list hproperties properties rfl <|
      writes_option hitems (itemsEncode_ne_null hkeeps) items rfl <| .nil _
  · rintro i ⟨hproperties, hitems⟩
    simp only [within_append]
    exact ⟨within_option (fun _ => Nat.zero_le n) i.kind, within_string i.reference, hproperties,
      hitems, within_nil⟩
  · exact ⟨within_nil, within_nil⟩
  · simp only [List.forall_mem_cons]
    refine ⟨keeps_of_set ?_, keeps_of_set ?_, keeps_of_read ?_, keeps_of_read ?_, by simp⟩
    · exact fun _ _ hi => hi
    · exact fun _ _ hi => hi
    · exact fun _ _ hread i hi => ⟨within_of_list hproperties hread, hi.2⟩
    · exact fun _ _ hread i hi => ⟨hi.1, within_of_optional hitems hread⟩

lemma faithful_property_succ (hkeeps : KeepsMembers object)
    (hitems : Faithful (readItems .text n) (Items.encode object) n) :
    Faithful (readProperty .text (n + 1)) (encodeProperty object) (n + 1) := by
  rw [encodeProperty_eq]
  refine faithful_record hkeeps (fun p =>
    Within n (optionalMember "items" (p.items.map (Items.encode object))) ∧
      Within n (listMember "enum" (p.values.map .string))) ?_ ?_ ?_ ?_ ?_ ?_
  · simp [Field.needed, Field.free]
  · simp [Independent, Field.needed, Field.free, apart_of_comm]
  · intro p
    exact writes_needed faithful_string p.name <|
      writes_option faithful_kind (fun k => string_ne_null k.name) p.kind rfl <|
      writes_option faithful_string string_ne_null p.reference rfl <|
      writes_option hitems (itemsEncode_ne_null hkeeps) p.items rfl <|
      writes_list faithful_strings p.values rfl <|
      writes_free faithful_bool p.optional <| writes_free faithful_bool p.deprecated <|
      writes_free faithful_bool p.experimental <|
      writes_option faithful_string string_ne_null p.description rfl <| .nil _
  · rintro p ⟨hitems, hvalues⟩
    simp only [within_append, within_cons]
    exact ⟨Nat.zero_le n, within_option (fun _ => Nat.zero_le n) p.kind, within_string p.reference,
      hitems, hvalues, Nat.zero_le n, Nat.zero_le n, Nat.zero_le n, within_string p.description,
      within_nil⟩
  · exact ⟨within_nil, within_nil⟩
  · simp only [List.forall_mem_cons]
    refine ⟨keeps_of_set ?_, keeps_of_set ?_, keeps_of_set ?_, keeps_of_read ?_, keeps_of_read ?_,
      keeps_of_set ?_, keeps_of_set ?_, keeps_of_set ?_, keeps_of_set ?_, by simp⟩
    case refine_4 => exact fun _ _ hread p hp => ⟨within_of_optional hitems hread, hp.2⟩
    case refine_5 => exact fun _ _ hread p hp => ⟨hp.1, within_of_list faithful_strings hread⟩
    all_goals exact fun _ _ hp => hp

/-- Items and properties, each within the other, by what is left of the depth. -/
lemma faithful_descriptors (hkeeps : KeepsMembers object) (n : Nat) :
    Faithful (readItems .text n) (Items.encode object) n ∧
      Faithful (readProperty .text n) (encodeProperty object) n := by
  induction n using Nat.strong_induction_on with
  | _ n ih =>
    cases n with
    | zero =>
      rw [itemsEncode_eq, encodeProperty_eq]
      exact ⟨faithful_tooDeep fun i => depth_object_pos hkeeps,
        faithful_tooDeep fun p => depth_object_pos hkeeps⟩
    | succ n =>
      have hitems := (ih n (Nat.lt_succ_self n)).1
      have hproperties : Faithful (readProperties .text n)
          (fun ps => .array (ps.map (encodeProperty object))) n :=
        faithful_list fun m hm => (ih m (by omega)).2
      exact ⟨faithful_items_succ hkeeps hitems hproperties, faithful_property_succ hkeeps hitems⟩

lemma faithful_items (hkeeps : KeepsMembers object) :
    Faithful (readItems .text n) (Items.encode object) n :=
  (faithful_descriptors hkeeps n).1

lemma faithful_properties (hkeeps : KeepsMembers object) :
    Faithful (readProperties .text n) (fun ps => .array (ps.map (encodeProperty object))) n :=
  faithful_list fun m _ => (faithful_descriptors hkeeps m).2

lemma faithful_type (hkeeps : KeepsMembers object) :
    Faithful (readType .text n) (TypeDecl.encode object) n := by
  cases n with
  | zero => exact faithful_tooDeep fun t => depth_object_pos hkeeps
  | succ n =>
    refine faithful_record hkeeps (fun t =>
      Within n (listMember "properties" (t.properties.map (encodeProperty object))) ∧
        Within n (listMember "enum" (t.values.map .string)) ∧
          Within n (optionalMember "items" (t.items.map (Items.encode object)))) ?_ ?_ ?_ ?_ ?_ ?_
    · simp [Field.needed, Field.free]
    · simp [Independent, Field.needed, Field.free, apart_of_comm]
    · intro t
      simp only [encodeProperties_eq, itemsMember_eq, List.append_assoc, List.cons_append,
        List.nil_append]
      exact writes_needed faithful_string t.name <| writes_needed faithful_kind t.kind <|
        writes_option faithful_string string_ne_null t.description rfl <|
        writes_list (faithful_properties hkeeps) t.properties rfl <|
        writes_list faithful_strings t.values rfl <|
        writes_option (faithful_items hkeeps) (itemsEncode_ne_null hkeeps) t.items rfl <|
        writes_free faithful_bool t.deprecated <| writes_free faithful_bool t.experimental <| .nil _
    · rintro t ⟨hproperties, hvalues, hitems⟩
      simp only [encodeProperties_eq, itemsMember_eq, within_append, within_cons]
      exact ⟨⟨⟨⟨⟨⟨Nat.zero_le n, Nat.zero_le n, within_nil⟩, within_string t.description⟩,
        hproperties⟩, hvalues⟩, hitems⟩, Nat.zero_le n, Nat.zero_le n, within_nil⟩
    · exact ⟨within_nil, within_nil, within_nil⟩
    · simp only [List.forall_mem_cons]
      refine ⟨keeps_of_set ?_, keeps_of_set ?_, keeps_of_set ?_, keeps_of_read ?_, keeps_of_read ?_,
        keeps_of_read ?_, keeps_of_set ?_, keeps_of_set ?_, by simp⟩
      case refine_4 =>
        exact fun _ _ hread t ht => ⟨within_of_list (faithful_properties hkeeps) hread, ht.2⟩
      case refine_5 =>
        exact fun _ _ hread t ht => ⟨ht.1, within_of_list faithful_strings hread, ht.2.2⟩
      case refine_6 =>
        exact fun _ _ hread t ht =>
          ⟨ht.1, ht.2.1, within_of_optional (faithful_items hkeeps) hread⟩
      all_goals exact fun _ _ ht => ht

lemma faithful_command (hkeeps : KeepsMembers object) :
    Faithful (readCommand .text n) (CommandDecl.encode object) n := by
  cases n with
  | zero => exact faithful_tooDeep fun c => depth_object_pos hkeeps
  | succ n =>
    refine faithful_record hkeeps (fun c =>
      Within n (listMember "parameters" (c.parameters.map (encodeProperty object))) ∧
        Within n (listMember "returns" (c.returns.map (encodeProperty object)))) ?_ ?_ ?_ ?_ ?_ ?_
    · simp [Field.needed, Field.free]
    · simp [Independent, Field.needed, Field.free, apart_of_comm]
    · intro c
      simp only [encodeProperties_eq, List.append_assoc, List.cons_append]
      exact writes_needed faithful_string c.name <|
        writes_option faithful_string string_ne_null c.description rfl <|
        writes_list (faithful_properties hkeeps) c.parameters rfl <|
        writes_list (faithful_properties hkeeps) c.returns rfl <|
        writes_free faithful_bool c.deprecated <| writes_free faithful_bool c.experimental <| .nil _
    · rintro c ⟨hparameters, hreturns⟩
      simp only [encodeProperties_eq, List.cons_append, within_append, within_cons]
      exact ⟨Nat.zero_le n, ⟨⟨within_string c.description, hparameters⟩, hreturns⟩,
        Nat.zero_le n, Nat.zero_le n, within_nil⟩
    · exact ⟨within_nil, within_nil⟩
    · simp only [List.forall_mem_cons]
      refine ⟨keeps_of_set ?_, keeps_of_set ?_, keeps_of_read ?_, keeps_of_read ?_, keeps_of_set ?_,
        keeps_of_set ?_, by simp⟩
      case refine_3 =>
        exact fun _ _ hread c hc => ⟨within_of_list (faithful_properties hkeeps) hread, hc.2⟩
      case refine_4 =>
        exact fun _ _ hread c hc => ⟨hc.1, within_of_list (faithful_properties hkeeps) hread⟩
      all_goals exact fun _ _ hc => hc

lemma faithful_event (hkeeps : KeepsMembers object) :
    Faithful (readEvent .text n) (EventDecl.encode object) n := by
  cases n with
  | zero => exact faithful_tooDeep fun e => depth_object_pos hkeeps
  | succ n =>
    refine faithful_record hkeeps (fun e =>
      Within n (listMember "parameters" (e.parameters.map (encodeProperty object))))
      ?_ ?_ ?_ ?_ ?_ ?_
    · simp [Field.needed, Field.free]
    · simp [Independent, Field.needed, Field.free, apart_of_comm]
    · intro e
      simp only [encodeProperties_eq, List.append_assoc, List.cons_append]
      exact writes_needed faithful_string e.name <|
        writes_option faithful_string string_ne_null e.description rfl <|
        writes_list (faithful_properties hkeeps) e.parameters rfl <|
        writes_free faithful_bool e.deprecated <| writes_free faithful_bool e.experimental <| .nil _
    · intro e hparameters
      simp only [encodeProperties_eq, List.cons_append, within_append, within_cons]
      exact ⟨Nat.zero_le n, ⟨within_string e.description, hparameters⟩, Nat.zero_le n,
        Nat.zero_le n, within_nil⟩
    · exact within_nil
    · simp only [List.forall_mem_cons]
      refine ⟨keeps_of_set ?_, keeps_of_set ?_, keeps_of_read ?_, keeps_of_set ?_, keeps_of_set ?_,
        by simp⟩
      case refine_3 => exact fun _ _ hread _ _ => within_of_list (faithful_properties hkeeps) hread
      all_goals exact fun _ _ he => he

lemma faithful_domain (hkeeps : KeepsMembers object) :
    Faithful (readDomain .text (n + 2)) (Domain.encode object) (n + 2) := by
  have htypes : Faithful (list (n + 1) (readType .text))
      (fun ts => .array (ts.map (TypeDecl.encode object))) (n + 1) :=
    faithful_list fun _ _ => faithful_type hkeeps
  have hcommands : Faithful (list (n + 1) (readCommand .text))
      (fun cs => .array (cs.map (CommandDecl.encode object))) (n + 1) :=
    faithful_list fun _ _ => faithful_command hkeeps
  have hevents : Faithful (list (n + 1) (readEvent .text))
      (fun es => .array (es.map (EventDecl.encode object))) (n + 1) :=
    faithful_list fun _ _ => faithful_event hkeeps
  refine faithful_record hkeeps (fun d =>
    (Json.array (d.types.map (TypeDecl.encode object))).depth ≤ n + 1 ∧
      (Json.array (d.commands.map (CommandDecl.encode object))).depth ≤ n + 1 ∧
        (Json.array (d.events.map (EventDecl.encode object))).depth ≤ n + 1 ∧
          Within (n + 1) (listMember "dependencies" (d.dependencies.map .string))) ?_ ?_ ?_ ?_ ?_ ?_
  · simp [Field.needed, Field.free]
  · simp [Independent, Field.needed, Field.free, apart_of_comm]
  · intro d
    simp only [List.append_assoc, List.cons_append, List.nil_append]
    exact writes_needed faithful_string d.name <|
      writes_option faithful_string string_ne_null d.description rfl <|
      writes_free htypes d.types <| writes_free hcommands d.commands <|
      writes_free hevents d.events <| writes_list faithful_strings d.dependencies rfl <|
      writes_free faithful_bool d.experimental <| writes_free faithful_bool d.deprecated <| .nil _
  · rintro d ⟨htypes, hcommands, hevents, hdependencies⟩
    simp only [List.cons_append, within_append, within_cons]
    exact ⟨Nat.zero_le _, ⟨⟨within_string d.description, htypes, hcommands, hevents, within_nil⟩,
      hdependencies⟩, Nat.zero_le _, Nat.zero_le _, within_nil⟩
  · have hnone : (Json.array []).depth ≤ n + 1 := depth_array.mpr (by simp)
    exact ⟨hnone, hnone, hnone, within_nil⟩
  · simp only [List.forall_mem_cons]
    refine ⟨keeps_of_set ?_, keeps_of_set ?_, keeps_of_read ?_, keeps_of_read ?_, keeps_of_read ?_,
      keeps_of_read ?_, keeps_of_set ?_, keeps_of_set ?_, by simp⟩
    case refine_3 => exact fun d _ hread _ hd => ⟨htypes.depth_le d _ hread, hd.2⟩
    case refine_4 => exact fun d _ hread _ hd => ⟨hd.1, hcommands.depth_le d _ hread, hd.2.2⟩
    case refine_5 =>
      exact fun d _ hread _ hd => ⟨hd.1, hd.2.1, hevents.depth_le d _ hread, hd.2.2.2⟩
    case refine_6 =>
      exact fun _ _ hread _ hd => ⟨hd.1, hd.2.1, hd.2.2.1, within_of_list faithful_strings hread⟩
    all_goals exact fun _ _ hd => hd

lemma faithful_version (hkeeps : KeepsMembers object) :
    Faithful (readVersion .text (n + 1)) (Version.encode object) (n + 1) := by
  refine faithful_record hkeeps (fun _ => True) ?_ ?_ ?_ ?_ trivial ?_
  · simp [Field.needed]
  · simp [Independent, Field.needed, apart_of_comm]
  · intro v
    exact writes_needed faithful_versionPart v.major <|
      writes_needed faithful_versionPart v.minor <| .nil _
  · intro v _
    simp only [within_cons]
    exact ⟨Nat.zero_le n, Nat.zero_le n, within_nil⟩
  · exact fun f _ _ _ _ _ _ => trivial

lemma depth_version (hkeeps : KeepsMembers object) (v : Version) :
    (v.encode object).depth ≤ n + 1 := by
  refine (depth_object hkeeps (by simp)).mpr ?_
  exact within_cons.mpr ⟨Nat.zero_le n, within_cons.mpr ⟨Nat.zero_le n, within_nil⟩⟩

lemma faithful_description (hkeeps : KeepsMembers object) :
    Faithful (read .text (n + 4)) (encode object) (n + 4) := by
  have hversion : Faithful (readVersion .text (n + 3)) (Version.encode object) (n + 3) :=
    faithful_version hkeeps
  have hdomains : Faithful (list (n + 3) (readDomain .text))
      (fun ds => .array (ds.map (Domain.encode object))) (n + 3) := by
    refine faithful_list fun m hm => ?_
    obtain rfl : m = n + 2 := by omega
    exact faithful_domain hkeeps
  refine faithful_record hkeeps (fun d =>
    (Json.array (d.domains.map (Domain.encode object))).depth ≤ n + 3) ?_ ?_ ?_ ?_ ?_ ?_
  · simp [Field.needed, Field.free]
  · simp [Independent, Field.needed, Field.free, apart_of_comm]
  · intro d
    exact writes_needed hversion d.version <| writes_free hdomains d.domains <| .nil _
  · intro d hdomains
    exact within_cons.mpr ⟨depth_version hkeeps d.version, within_cons.mpr ⟨hdomains, within_nil⟩⟩
  · exact depth_array.mpr (by simp)
  · simp only [List.forall_mem_cons]
    refine ⟨keeps_of_set ?_, keeps_of_read ?_, by simp⟩
    · exact fun _ _ hd => hd
    · exact fun d _ hread _ _ => hdomains.depth_le d _ hread

end Records

/-! ### Texts -/

section Texts

variable {object : List (String × Json) → Json}

lemma parse_eq_ok {s : String} {d : Description} : parse s = .ok d ↔ ofText s = .ok d := by
  rw [parse]
  cases ofText s with
  | error reason =>
    constructor
    · intro h
      cases h
    · intro h
      cases h
  | ok value => exact ⟨fun h => congrArg _ (Except.ok.inj h), fun h => congrArg _ (Except.ok.inj h)⟩

lemma ofText_of_depth (hkeeps : KeepsMembers object) {d : Description}
    (hdepth : (d.encode object).depth ≤ textDepth) : ofText (d.encode object).text = .ok d := by
  have hfaithful : Faithful (read .text textDepth) (encode object) textDepth :=
    faithful_description hkeeps
  obtain ⟨hfree, hread⟩ := hfaithful.isReadAs d hdepth
  rw [ofText, decodeText, read_text hfree]
  simp only [hread]
  rfl

lemma depth_of_ofText (hkeeps : KeepsMembers object) {s : String} {d : Description}
    (h : ofText s = .ok d) : (d.encode object).depth ≤ textDepth := by
  have hfaithful : Faithful (read .text textDepth) (encode object) textDepth :=
    faithful_description hkeeps
  obtain ⟨value, hread, h⟩ := exists_of_bind_ok h
  obtain rfl : value = d := by
    split at h
    · exact Except.ok.inj h
    · cases h
  exact hfaithful.depth_le _ value hread

lemma parse_text_iff (hkeeps : KeepsMembers object) (d : Description) :
    parse (d.encode object).text = .ok d ↔ (d.encode object).depth ≤ textDepth := by
  rw [parse_eq_ok]
  exact ⟨depth_of_ofText hkeeps, ofText_of_depth hkeeps⟩

/-- What is read from a text is read back from the text it is written as, and so is any description
whose text nests 127 deep at most. The members can be in the order of the fields or sorted. -/
theorem text_is_read_back :
    (∀ s d, parse s = .ok d → parse d.text = .ok d ∧ parse d.toJson.text = .ok d) ∧
      (∀ d : Description, parse d.text = .ok d ↔ (d.encode .object).depth ≤ 127) ∧
        ∀ d : Description, parse d.toJson.text = .ok d ↔ d.toJson.depth ≤ 127 := by
  refine ⟨?_, parse_text_iff keepsMembers_object, parse_text_iff keepsMembers_ofMembers⟩
  intro s d h
  have hread : ofText s = .ok d := parse_eq_ok.mp h
  have hordered := depth_of_ofText keepsMembers_object hread
  have hsorted := depth_of_ofText keepsMembers_ofMembers hread
  exact ⟨(parse_text_iff keepsMembers_object d).mpr hordered,
    (parse_text_iff keepsMembers_ofMembers d).mpr hsorted⟩

/-- Records as arrays, a number for a part of the version, a kind nobody knows, items within items
and a member nobody knows. -/
def mixedForms : String :=
  "[[1,\"3\"],[[\"A\",null,[[\"T\",\"tuple\",null,[],[],[null,null,[],[\"array\"]]]]]," ++
    "\x7b\"domain\":\"B\",\"later\":0\x7d]]"

theorem mixed_forms_are_read_back : ∃ d, parse mixedForms = .ok d ∧ d.version = ⟨"1", "3"⟩ ∧
    d.domains.map (·.name) = ["A", "B"] ∧ parse d.text = .ok d := by
  have hread : (parse mixedForms).toOption.map (fun d => (d.version, d.domains.map (·.name))) =
      some (⟨"1", "3"⟩, ["A", "B"]) := by decide +kernel
  cases h : parse mixedForms with
  | error reason => simp [h, Except.toOption] at hread
  | ok d =>
    have hparts : (d.version, d.domains.map (·.name)) = (⟨"1", "3"⟩, ["A", "B"]) := by
      simpa [h, Except.toOption] using hread
    obtain ⟨hversion, hnames⟩ := Prod.mk.inj hparts
    exact ⟨d, rfl, hversion, hnames, (text_is_read_back.1 mixedForms d h).1⟩

end Texts

end InspectorProtocol.Description

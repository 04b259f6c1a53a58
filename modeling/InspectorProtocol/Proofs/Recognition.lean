import InspectorProtocol.Proofs.Records
import InspectorProtocol.Wire.Message

/-!
# Texts with an id

A text is a message only if all of its members have the shape of a message's members. A whole number
as `id` therefore does not make a response of it alone: its method has to be a string, and its error
an error object, or they have to be null or missing. The other members may be anything.
-/

namespace InspectorProtocol

namespace Json

namespace Document

def IsString (d : Document) : Prop := ∃ s, d = .string (some s)

/-- A whole number of 64 bits; no text has one below them. -/
def IsInt64 (d : Document) : Prop := ∃ i : Int, d = .number (some (.int i)) ∧ i < Nat.pow 2 63

/-- An error object, or the array of its members in order. -/
inductive IsErrorObject : Document → Prop where
  | object {members : List (Option String × Document)} {closed : Bool}
      (once : ∀ name ∈ ["code", "message", "data"], (members.map (·.1)).count (some name) ≤ 1)
      (code : ∀ d, (some "code", d) ∈ members → d.IsInt64)
      (message : ∀ d, (some "message", d) ∈ members → d.IsString) :
      IsErrorObject (.object members closed)
  | array {items : List Document} {closed : Bool} (length : items.length ≤ 3)
      (code : ∀ d, items[0]? = some d → d.IsInt64)
      (message : ∀ d, items[1]? = some d → d.IsString) : IsErrorObject (.array items closed)

end Document

namespace Decoder

lemma accepts_string {d : Document} : Accepts string d ↔ d.IsString := by
  constructor
  · rintro ⟨a, h⟩
    unfold string at h
    split at h
    · exact ⟨_, rfl⟩
    · exact absurd ⟨a, h⟩ not_accepts_refuse
  · rintro ⟨s, rfl⟩
    exact ⟨s, rfl⟩

lemma accepts_int64 {d : Document} : Accepts int64 d ↔ d.IsInt64 := by
  constructor
  · rintro ⟨a, h⟩
    unfold int64 at h
    split at h
    · rename_i value
      split at h
      · rename_i hless
        exact ⟨value, rfl, by simpa using hless⟩
      · cases h
    · exact absurd ⟨a, h⟩ not_accepts_refuse
  · rintro ⟨i, rfl, hless⟩
    refine ⟨i, ?_⟩
    have hbound : i < Nat.pow 2 63 := by simpa using hless
    simp only [int64, hbound, if_true]

end Decoder

end Json

open Json Json.Decoder

lemma Json.Decoder.fitsOnce_nil {σ : Type} {f : Decoder.Field σ}
    {members : List (Option String × Document)} :
    FitsOnce f [] members ↔ (members.map (·.1)).count (some f.name) ≤ 1 ∧
      ∀ d, (some f.name, d) ∈ members → Accepts f.read d := by
  constructor
  · intro h
    exact ⟨h.once, h.accepts⟩
  · rintro ⟨honce, haccepts⟩
    exact ⟨fun h => absurd h List.not_mem_nil, honce, haccepts⟩

lemma Json.Decoder.AcceptsMember.intact {budget : Nat} {m : Option String × Document}
    (h : AcceptsMember budget m) : ∃ name, m.1 = some name ∧ m.2.intact = true := by
  obtain ⟨name, hname, v, hany⟩ := h
  exact ⟨name, hname, intact_of_any hany⟩

namespace RemoteError

def fields (budget : Nat) : List (Decoder.Field RemoteError) :=
  [.free "code" int64 fun code e => { e with code },
    .free "message" string fun message e => { e with message },
    .free "data" (optional (any budget)) fun data e => { e with data }]

lemma nodup_fields {budget : Nat} : ((fields budget).map (·.name)).Nodup := by
  simp [fields, Decoder.Field.free]

lemma not_required_of_mem_fields {budget : Nat} : ∀ f ∈ fields budget, f.required = false := by
  simp [fields, Decoder.Field.free]

lemma accepts_object {budget : Nat} {members : List (Option String × Document)} {closed : Bool}
    (hany : Accepts (any (budget + 1)) (.object members closed)) :
    Accepts (RemoteError.read .text (budget + 1)) (.object members closed) ↔
      (Document.object members closed).IsErrorObject := by
  obtain ⟨v, hany⟩ := hany
  obtain ⟨rfl, hmembers⟩ := any_object hany
  have hread : Accepts (RemoteError.read .text (budget + 1)) (.object members true) ↔
      ∀ f ∈ fields budget, FitsOnce f [] members :=
    recordMembers_ok_iff nodup_fields not_required_of_mem_fields fun m hm => (hmembers m hm).intact
  have hdata : ∀ d, (some "data", d) ∈ members → d = .null ∨ Accepts (any budget) d := by
    intro d hd
    obtain ⟨_, _, haccepts⟩ := hmembers _ hd
    exact .inr haccepts
  rw [hread]
  simp only [fields, List.forall_mem_cons, fitsOnce_nil, accepts_free, accepts_int64,
    accepts_string, accepts_optional]
  constructor
  · rintro ⟨⟨hcode, hcodes⟩, ⟨hmessage, hmessages⟩, ⟨hdata, _⟩, _⟩
    exact .object (by simpa using ⟨hcode, hmessage, hdata⟩) hcodes hmessages
  · intro h
    cases h with
    | object honce hcodes hmessages =>
      obtain ⟨hcode, hmessage, honce⟩ := by simpa using honce
      exact ⟨⟨hcode, hcodes⟩, ⟨hmessage, hmessages⟩, ⟨honce, hdata⟩, by simp⟩

lemma accepts_array {budget : Nat} {items : List Document} {closed : Bool}
    (hany : Accepts (any (budget + 1)) (.array items closed)) :
    Accepts (RemoteError.read .text (budget + 1)) (.array items closed) ↔
      (Document.array items closed).IsErrorObject := by
  obtain ⟨v, hany⟩ := hany
  obtain ⟨rfl, hitems⟩ := any_array hany
  have hread : Accepts (RemoteError.read .text (budget + 1)) (.array items true) ↔
      items.length ≤ 3 ∧ ∀ p ∈ (fields budget).zip items, Accepts p.1.read p.2 :=
    recordItems_ok_iff not_required_of_mem_fields
  have hdata : ∀ d, items[2]? = some d → d = .null ∨ Accepts (any budget) d := by
    intro d hd
    exact .inr (hitems d (List.mem_of_getElem? hd))
  rw [hread]
  constructor
  · rintro ⟨hlength, hall⟩
    refine .array hlength (fun d hd => ?_) (fun d hd => ?_)
    · have hmem : (Decoder.Field.free "code" int64 fun code e => { e with code }, d) ∈
          (fields budget).zip items :=
        List.mem_of_getElem? (List.getElem?_zip_eq_some.mpr ⟨(rfl : (fields budget)[0]? = _), hd⟩)
      exact accepts_int64.mp (accepts_free.mp (hall _ hmem))
    · have hmem : (Decoder.Field.free "message" string fun message e => { e with message }, d) ∈
          (fields budget).zip items :=
        List.mem_of_getElem? (List.getElem?_zip_eq_some.mpr ⟨(rfl : (fields budget)[1]? = _), hd⟩)
      exact accepts_string.mp (accepts_free.mp (hall _ hmem))
  · intro h
    cases h with
    | array hlength hcode hmessage =>
      refine ⟨hlength, ?_⟩
      rintro ⟨f, d⟩ hp
      obtain ⟨i, hi⟩ := List.mem_iff_getElem?.mp hp
      obtain ⟨hfield, hitem⟩ := List.getElem?_zip_eq_some.mp hi
      match i with
      | 0 =>
        cases hfield
        exact accepts_free.mpr (accepts_int64.mpr (hcode _ hitem))
      | 1 =>
        cases hfield
        exact accepts_free.mpr (accepts_string.mpr (hmessage _ hitem))
      | 2 =>
        cases hfield
        exact accepts_free.mpr (accepts_optional.mpr (hdata _ hitem))
      | _ + 3 => cases hfield

/-- A value is read as an error exactly when it has the shape of one. -/
theorem accepts_read {budget : Nat} {d : Document} (hany : Accepts (any (budget + 1)) d) :
    Accepts (RemoteError.read .text (budget + 1)) d ↔ d.IsErrorObject := by
  cases d with
  | object members closed => exact accepts_object hany
  | array items closed => exact accepts_array hany
  | null | bool | number | string | broken =>
    exact iff_of_false not_accepts_refuse (fun h => by cases h)

end RemoteError

namespace Wire

namespace Members

def fields (budget : Nat) : List (Decoder.Field Members) :=
  [.free "id" (optional int64) fun id m => { m with id },
    .free "method" (optional string) fun method m => { m with method },
    .free "params" (optional (any budget)) fun params m => { m with params },
    .free "result" (optional (any budget)) fun result m => { m with result },
    .free "error" (optional (RemoteError.read .text budget)) fun error m => { m with error }]

lemma nodup_fields {budget : Nat} : ((fields budget).map (·.name)).Nodup := by
  simp [fields, Decoder.Field.free]

lemma not_required_of_mem_fields {budget : Nat} : ∀ f ∈ fields budget, f.required = false := by
  simp [fields, Decoder.Field.free]

end Members

/-- The members of a message. -/
def memberNames : List String := ["id", "method", "params", "result", "error"]

/-- A text that is read as a JSON object with a whole number of 64 bits as its id. No member of a
message comes twice in it. -/
structure Identified (text : String) (id : Int) (members : List (Option String × Document)) :
    Prop where
  accepted : (Json.parse text).isOk = true
  object : ∃ closed, (Json.read text).root = .object members closed
  id_mem : (some "id", .number (some (.int id))) ∈ members
  low : -Nat.pow 2 63 ≤ id
  high : id < Nat.pow 2 63
  once : ∀ name ∈ memberNames, (members.map (·.1)).count (some name) ≤ 1

/-- The method is a string and the error an error object, if they are there and not null. -/
structure HasShape (members : List (Option String × Document)) : Prop where
  method : ∀ d, (some "method", d) ∈ members → d = .null ∨ d.IsString
  error : ∀ d, (some "error", d) ∈ members → d = .null ∨ d.IsErrorObject

variable {text : String} {id : Int} {members : List (Option String × Document)}

namespace Identified

lemma accepted_members (h : Identified text id members) :
    (Json.read text).complete = true ∧ (Json.read text).root = .object members true ∧
      ∀ m ∈ members, AcceptsMember 126 m := by
  obtain ⟨closed, hobject⟩ := h.object
  obtain ⟨value, hparse⟩ : ∃ value, Json.parse text = .ok value := by
    have haccepted := h.accepted
    cases hparse : Json.parse text with
    | error reason => simp [hparse, Except.isOk, Except.toBool] at haccepted
    | ok value => exact ⟨value, rfl⟩
  obtain ⟨v, hany, hcomplete⟩ := exists_of_bind_ok hparse
  rw [hobject] at hany
  obtain ⟨rfl, hmembers⟩ := any_object hany
  refine ⟨?_, hobject, hmembers⟩
  by_contra hnot
  simp only [hnot] at hcomplete
  cases hcomplete

lemma eq_of_id_mem (h : Identified text id members) {d : Document} (hd : (some "id", d) ∈ members) :
    d = .number (some (.int id)) :=
  eq_of_count_le_one (h.once "id" (by decide)) hd h.id_mem

lemma accepts_read_iff (h : Identified text id members) :
    Accepts (Members.read .text 127) (.object members true) ↔ HasShape members := by
  obtain ⟨_, _, hmembers⟩ := h.accepted_members
  have hread : Accepts (Members.read .text 127) (.object members true) ↔
      ∀ f ∈ Members.fields 126, FitsOnce f [] members :=
    recordMembers_ok_iff Members.nodup_fields Members.not_required_of_mem_fields
      fun m hm => (hmembers m hm).intact
  have hany : ∀ name d, (some name, d) ∈ members → Accepts (any 126) d := by
    intro name d hd
    obtain ⟨_, _, haccepts⟩ := hmembers _ hd
    exact haccepts
  rw [hread]
  simp only [Members.fields, List.forall_mem_cons, fitsOnce_nil, accepts_free, accepts_optional,
    accepts_int64, accepts_string]
  constructor
  · rintro ⟨_, ⟨_, hmethod⟩, _, _, ⟨_, herror⟩, _⟩
    refine ⟨hmethod, fun d hd => ?_⟩
    exact (herror d hd).imp_right (RemoteError.accepts_read (hany _ d hd)).mp
  · rintro ⟨hmethod, herror⟩
    refine ⟨⟨h.once _ (by decide), fun d hd => ?_⟩, ⟨h.once _ (by decide), hmethod⟩,
      ⟨h.once _ (by decide), fun d hd => .inr (hany _ d hd)⟩,
      ⟨h.once _ (by decide), fun d hd => .inr (hany _ d hd)⟩,
      ⟨h.once _ (by decide), fun d hd => ?_⟩, by simp⟩
    · exact .inr ⟨id, h.eq_of_id_mem hd, h.high⟩
    · exact (herror d hd).imp_right (RemoteError.accepts_read (hany _ d hd)).mpr

lemma id_of_read (h : Identified text id members) {m : Members}
    (hread : Members.read .text 127 (.object members true) = .ok m) : m.id = some id := by
  have hread : recordMembers (Members.fields 126) true [] {} members = .ok m := hread
  have hid : Decoder.Field.free "id" (optional int64) (fun id (m : Members) => { m with id }) ∈
      Members.fields 126 := List.mem_cons_self
  have hothers : ∀ g ∈ Members.fields 126, g.name ≠ "id" →
      ∀ d set, g.read d = .ok set → ∀ s : Members, (set s).id = s.id := by
    intro g hg hne d set hset s
    simp only [Members.fields, List.mem_cons, List.not_mem_nil, or_false] at hg
    rcases hg with rfl | rfl | rfl | rfl | rfl
    · exact absurd rfl hne
    all_goals
      obtain ⟨_, _, rfl⟩ := exists_of_free hset
      rfl
  obtain ⟨_, hpresent⟩ := get_of_recordMembers hid hothers Members.nodup_fields hread
  obtain ⟨set, s, hset, hm⟩ := hpresent _ h.id_mem
  obtain ⟨found, hfound, rfl⟩ := exists_of_free hset
  have hvalue : Decoder.optional int64 (.number (some (.int id))) = .ok (some id) := by
    have hbound : id < Nat.pow 2 63 := by simpa using h.high
    simp only [Decoder.optional, int64, hbound, if_true]
    rfl
  rw [hvalue] at hfound
  rw [hm]
  exact (Except.ok.inj hfound).symm

/-- Reading the text as a message is reading its members as one. -/
lemma decodeText_eq (h : Identified text id members) :
    Json.decodeText (Members.read .text) text = Members.read .text 127 (.object members true) := by
  obtain ⟨hcomplete, hobject, _⟩ := h.accepted_members
  simp only [Json.decodeText, hobject, hcomplete, if_true]
  exact bind_pure _

end Identified

lemma classify_of_hasShape (h : Identified text id members) (hshape : HasShape members) :
    ∃ method result error, classify text = .response ⟨some id, method, result, error⟩ := by
  obtain ⟨m, hread⟩ := h.accepts_read_iff.mpr hshape
  have hid := h.id_of_read hread
  refine ⟨m.method, m.result, m.error, ?_⟩
  simp only [classify, h.decodeText_eq, hread, hid, Option.isSome_some, Bool.true_or, if_true]

lemma classify_of_not_hasShape (h : Identified text id members) (hshape : ¬ HasShape members) :
    classify text = .unrecognized text := by
  have hrefused := mt h.accepts_read_iff.mp hshape
  cases hread : Members.read .text 127 (.object members true) with
  | ok m => exact absurd ⟨m, hread⟩ hrefused
  | error reason => simp only [classify, h.decodeText_eq, hread]

/-- An identified text is a response under its id if its method and error have their shape,
whatever else is in it. Else it is not recognized. -/
theorem response_iff_hasShape (text : String) (id : Int)
    (members : List (Option String × Document)) (h : Identified text id members) :
    (HasShape members → ∃ method result error,
      classify text = .response ⟨some id, method, result, error⟩) ∧
    (¬ HasShape members → classify text = .unrecognized text) := by
  exact ⟨classify_of_hasShape h, classify_of_not_hasShape h⟩

/-- An error that has no code but a member of its own, beside parameters that are no object. -/
def oddError : String :=
  "\x7b\"error\":\x7b\"message\":\"no\",\"at\":[]\x7d,\"id\":7,\"params\":0\x7d"

def oddErrorMembers : List (Option String × Document) :=
  [(some "error",
      .object [(some "message", .string (some "no")), (some "at", .array [] true)] true),
    (some "id", .number (some (.int 7))), (some "params", .number (some (.int 0)))]

theorem odd_error_is_a_response :
    Identified oddError 7 oddErrorMembers ∧ HasShape oddErrorMembers ∧
      ∃ method result error, classify oddError = .response ⟨some 7, method, result, error⟩ := by
  have hidentified : Identified oddError 7 oddErrorMembers :=
    { accepted := by decide +kernel
      object := ⟨true, by rfl⟩
      id_mem := by simp [oddErrorMembers]
      low := by decide
      high := by decide
      once := by decide }
  have hshape : HasShape oddErrorMembers := by
    refine ⟨by simp [oddErrorMembers], fun d hd => .inr ?_⟩
    obtain rfl : d = .object [(some "message", .string (some "no")), (some "at", .array [] true)]
        true := by simpa [oddErrorMembers] using hd
    exact .object (by decide) (by simp) (by simp [Document.IsString])
  exact ⟨hidentified, hshape, (response_iff_hasShape _ _ _ hidentified).1 hshape⟩

/-- A result under an id, beside a method that is no string. -/
def oddMethod : String := "\x7b\"id\":1,\"method\":5,\"result\":\x7b\x7d\x7d"

def oddMethodMembers : List (Option String × Document) :=
  [(some "id", .number (some (.int 1))), (some "method", .number (some (.int 5))),
    (some "result", .object [] true)]

theorem odd_method_is_not_recognized :
    Identified oddMethod 1 oddMethodMembers ∧ classify oddMethod = .unrecognized oddMethod := by
  have hidentified : Identified oddMethod 1 oddMethodMembers :=
    { accepted := by decide +kernel
      object := ⟨true, by rfl⟩
      id_mem := by simp [oddMethodMembers]
      low := by decide
      high := by decide
      once := by decide }
  refine ⟨hidentified, classify_of_not_hasShape hidentified fun hshape => ?_⟩
  have hmethod := hshape.method (.number (some (.int 5))) (by simp [oddMethodMembers])
  simp [Document.IsString] at hmethod

end Wire

end InspectorProtocol

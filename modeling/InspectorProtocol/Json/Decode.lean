import InspectorProtocol.Json.Document
import InspectorProtocol.Json.Printer
import InspectorProtocol.Text.Quoted

/-!
# Reading typed values

A reader goes through a document from left to right and stops at the first fault: a place where
the text is no JSON, or a value that does not fit. A record is written as an object or as the array
of its fields in order. Names a record does not know are skipped; a field may come once.

Documents are read from text or from a value in memory. Text may nest 127 arrays and objects, which
a reader counts down, and a fault of form has no description there; a value in memory has no faults
of form.
-/

namespace InspectorProtocol.Json

/-- Where a document comes from. -/
inductive Origin where
  | text
  | memory
  deriving DecidableEq

/-- A value as far as error texts describe it. -/
inductive Found where
  | null
  | bool (value : Bool)
  | number (value : Number)
  | string (value : String)
  | sequence
  | map
  deriving DecidableEq, Repr

/-- Why a value does not fit. -/
inductive Mismatch where
  | missingField (name : String)
  | duplicateField (name : String)
  | unknownVariant (name : String) (known : List String)
  | invalidLength (length : Nat) (expected : String)
  | invalidType (found : Found) (expected : String)
  | invalidValue (found : Found) (expected : String)
  | noAlternative (choice : String)
  deriving DecidableEq, Repr

inductive DecodeError where
  /-- the text is no JSON here, or goes beyond what JSON texts may hold -/
  | malformed
  | mismatch (reason : Mismatch)
  deriving DecidableEq, Repr

def Found.text : Found → String
  | .null => "null"
  | .bool value => s!"boolean `{value}`"
  | .number (.int value) => s!"integer `{value}`"
  | .number (.float value) => "floating point `" ++ floatSpelling.writeBinary64 value ++ "`"
  | .string value => "string " ++ Text.quoted value
  | .sequence => "sequence"
  | .map => "map"

/-- The names a choice is from, as error texts list them. -/
def alternatives : List String → String
  | [] => "there are no variants"
  | [one] => s!"expected `{one}`"
  | [one, two] => s!"expected `{one}` or `{two}`"
  | names => "expected one of " ++ ", ".intercalate (names.map fun name => s!"`{name}`")

def Mismatch.message : Mismatch → String
  | .missingField name => s!"missing field `{name}`"
  | .duplicateField name => s!"duplicate field `{name}`"
  | .unknownVariant name known => s!"unknown variant `{name}`, " ++ alternatives known
  | .invalidLength length expected => s!"invalid length {length}, expected {expected}"
  | .invalidType found expected => "invalid type: " ++ found.text ++ ", expected " ++ expected
  | .invalidValue found expected => "invalid value: " ++ found.text ++ ", expected " ++ expected
  | .noAlternative choice => "data did not match any variant of untagged enum " ++ choice

/-- Reads a document as a value of type `α`. -/
abbrev Decoder (α : Type) := Document → Except DecodeError α

namespace Decoder

/-- What stands in a document, if its text is well formed up to there. -/
def found : Decoder Found
  | .null => .ok .null
  | .bool value => .ok (.bool value)
  | .number (some value) => .ok (.number value)
  | .string (some value) => .ok (.string value)
  | .array _ _ => .ok .sequence
  | .object _ _ => .ok .map
  | _ => .error .malformed

/-- Refuse a document where something else has to stand. -/
def refuse {α : Type} (expected : String) : Decoder α := fun d => do
  throw (.mismatch (.invalidType (← found d) expected))

def string : Decoder String
  | .string (some value) => .ok value
  | d => refuse "a string" d

def bool : Decoder Bool
  | .bool value => .ok value
  | d => refuse "a boolean" d

/-- A whole number of 64 bits with a sign. -/
def int64 : Decoder Int
  | .number (some (.int value)) =>
    if value < Nat.pow 2 63 then .ok value
    else .error (.mismatch (.invalidValue (.number (.int value)) "i64"))
  | d => refuse "i64" d

/-- A double; a whole number counts as the double nearest to it. -/
def float64 : Decoder Decimal.Binary64
  | .number (some (.float value)) => .ok value
  | .number (some (.int value)) =>
    match Decimal.Binary64.ofInt? value with
    | some double => .ok double
    | none => .error .malformed
  | d => refuse "f64" d

/-- Null for nothing. -/
def optional {α : Type} (read : Decoder α) : Decoder (Option α)
  | .null => .ok none
  | d => some <$> read d

/-- The elements of an array that may still be nested `budget` deep, each read with the depth that
is left. -/
def list {α : Type} (budget : Nat) (read : Nat → Decoder α) : Decoder (List α)
  | .array items closed =>
    match budget with
    | 0 => .error .malformed
    | left + 1 => do
      let values ← items.mapM (read left)
      if closed then return values else throw .malformed
  | d => refuse "a sequence" d

/-- Any value; of the members of one name the last. -/
def any (budget : Nat) : Decoder Json
  | .null => .ok .null
  | .bool value => .ok (.bool value)
  | .number (some value) => .ok (.number value)
  | .string (some value) => .ok (.string value)
  | .array items closed =>
    match budget with
    | 0 => .error .malformed
    | left + 1 => do
      let values ← anyItems left items
      if closed then return .array values else throw .malformed
  | .object members closed =>
    match budget with
    | 0 => .error .malformed
    | left + 1 => do
      let values ← anyMembers left members
      if closed then return .ofMembers values else throw .malformed
  | _ => .error .malformed
where
  anyItems (budget : Nat) : List Document → Except DecodeError (List Json)
    | [] => .ok []
    | item :: rest => do
      let value ← any budget item
      return value :: (← anyItems budget rest)
  anyMembers (budget : Nat) :
      List (Option String × Document) → Except DecodeError (List (String × Json))
    | [] => .ok []
    | (none, _) :: _ => .error .malformed
    | (some name, value) :: rest => do
      let value ← any budget value
      return (name, value) :: (← anyMembers budget rest)

/-- An object of strings as its members, of one name the last. -/
def stringMap (budget : Nat) : Decoder (List (String × String))
  | .object members closed =>
    match budget with
    | 0 => .error .malformed
    | _ + 1 => do
      let values ← members.mapM fun (name, value) => do
        match name with
        | none => throw .malformed
        | some name => return (name, ← string value)
      if closed then return values else throw .malformed
  | d => refuse "a map" d

/-- Skip a value nobody looks at; only its form counts. -/
def skip : Decoder Unit := fun d => if d.intact then .ok () else .error .malformed

/-- Read one of several names: as a string, or as the only name of an object that gives it null. -/
def choice {α : Type} (origin : Origin) (budget : Nat) (read : String → Except Mismatch α) :
    Decoder α :=
  let variant (name : String) : Except DecodeError α := (read name).mapError .mismatch
  fun d => match d with
  | .string (some name) => variant name
  | .object members closed =>
    match budget, origin, members with
    | 0, _, _ => .error .malformed
    | _ + 1, .memory, [] => .error (.mismatch (.invalidValue .map "map with a single key"))
    | _ + 1, .memory, _ :: _ :: _ =>
      .error (.mismatch (.invalidValue .map "map with a single key"))
    | _ + 1, _, (some name, value) :: more => do
      let value' ← variant name
      match value with
      | .null => if closed && more.isEmpty then return value' else throw .malformed
      | d => refuse "unit" d
    | _ + 1, _, _ => .error .malformed
  | d => match origin with
    | .text => .error .malformed
    | .memory => refuse "string or map" d

/-- One field of a record of type `σ`: its name, whether it may be left out, and how its value
changes the record. -/
structure Field (σ : Type) where
  name : String
  required : Bool
  read : Decoder (σ → σ)

/-- A field that has to be there. -/
def Field.needed {σ α : Type} (name : String) (read : Decoder α) (set : α → σ → σ) : Field σ :=
  ⟨name, true, fun d => set <$> read d⟩

/-- A field that may be left out. -/
def Field.free {σ α : Type} (name : String) (read : Decoder α) (set : α → σ → σ) : Field σ :=
  ⟨name, false, fun d => set <$> read d⟩

/-- The number of fields, as error texts spell it. -/
def elementCount (n : Nat) : String :=
  if n = 1 then "1 element" else s!"{n} elements"

/-- Read the members of an object as fields of a record; `seen` are the names read so far. -/
def recordMembers {σ : Type} (fields : List (Field σ)) (closed : Bool) :
    List String → σ → List (Option String × Document) → Except DecodeError σ
  | seen, value, [] =>
    if !closed then .error .malformed
    else match fields.find? fun f => f.required && !seen.contains f.name with
      | some f => .error (.mismatch (.missingField f.name))
      | none => .ok value
  | _, _, (none, _) :: _ => .error .malformed
  | seen, value, (some name, d) :: rest =>
    match fields.find? (·.name == name) with
    | none => do
      skip d
      recordMembers fields closed seen value rest
    | some f =>
      if seen.contains name then .error (.mismatch (.duplicateField name))
      else do
        let set ← f.read d
        recordMembers fields closed (name :: seen) (set value) rest

/-- Read the items of an array as the fields of a record in order; `expected` describes the record
and `total` is the length of the array. -/
def recordItems {σ : Type} (origin : Origin) (expected : String) (closed : Bool) (total : Nat) :
    Nat → List (Field σ) → σ → List Document → Except DecodeError σ
  | _, [], value, [] => if closed then .ok value else .error .malformed
  | _, [], _, _ :: _ =>
    match origin with
    | .text => .error .malformed
    | .memory => .error (.mismatch (.invalidLength total "fewer elements in array"))
  | index, f :: fields, value, [] =>
    if !closed then .error .malformed
    else if f.required then .error (.mismatch (.invalidLength index expected))
    else recordItems origin expected closed total (index + 1) fields value []
  | index, f :: fields, value, d :: rest => do
    let set ← f.read d
    recordItems origin expected closed total (index + 1) fields (set value) rest

/-- Read a record whose fields are `fields`, starting from its defaults. -/
def record {σ : Type} (origin : Origin) (name : String) (fields : List (Field σ)) (defaults : σ) :
    Decoder σ
  | .object members closed => recordMembers fields closed [] defaults members
  | .array items closed =>
    recordItems origin (s!"struct {name} with " ++ elementCount fields.length) closed items.length 0
      fields defaults items
  | d => refuse ("struct " ++ name) d

/-- Refuse an array that is nested too deep. -/
def tooDeepList {α : Type} : Decoder α
  | .array _ _ => .error .malformed
  | d => refuse "a sequence" d

/-- Refuse a record that is nested too deep. -/
def tooDeep {α : Type} (name : String) : Decoder α
  | .object _ _ => .error .malformed
  | .array _ _ => .error .malformed
  | d => refuse ("struct " ++ name) d

end Decoder

/-- The nesting a text may have. -/
def textDepth : Nat := 127

/-- Read a whole text, with nothing behind the value; the reader is given the depth it may use. -/
def decodeText {α : Type} (read : Nat → Decoder α) (s : String) : Except DecodeError α := do
  let reading := Json.read s
  let value ← read textDepth reading.root
  if reading.complete then return value else throw .malformed

/-- Read a value in memory. -/
def decodeValue {α : Type} (read : Nat → Decoder α) (value : Json) : Except DecodeError α :=
  read value.depth value.toDocument

/-- The value of a text, if it is JSON. -/
def parse (s : String) : Except DecodeError Json := decodeText Decoder.any s

end InspectorProtocol.Json

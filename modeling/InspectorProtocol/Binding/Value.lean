import InspectorProtocol.Binding.Basic
import InspectorProtocol.Json.Decode

/-!
# Values of bindings

A value of a generated type, read from JSON in memory and written back as the codec does that is
derived for the type: what a member is called, and whether it is left out, is what the attributes
say. What a binding does not know vanishes on reading, an optional field that is null counts as
absent, and an enumeration accepts the variants it declares.
-/

namespace InspectorProtocol

/-- A value of a generated type. -/
inductive Value where
  | float (value : Decimal.Binary64)
  | integer (value : Int)
  | boolean (value : Bool)
  | string (value : String)
  | any (value : Json)
  | openMap (members : List (String × Json))
  | stringMap (members : List (String × String))
  | list (items : List Value)
  /-- the fields in the order of their declaration; an optional one may be without a value -/
  | record (fields : List (Field × Option Value))
  | choice (variant : Variant)

namespace Value

/-- A value as JSON. -/
def toJson : Value → Json
  | .float value => .number (.float value)
  | .integer value => .number (.int value)
  | .boolean value => .bool value
  | .string value => .string value
  | .any value => value
  | .openMap members => .ofMembers members
  | .stringMap members => .ofMembers (members.map fun (name, value) => (name, .string value))
  | .list items => .array (itemsToJson items)
  | .record fields => .ofMembers (fieldsToJson fields)
  | .choice variant => .string variant.memberName
where
  itemsToJson : List Value → List Json
    | [] => []
    | item :: rest => item.toJson :: itemsToJson rest
  fieldsToJson : List (Field × Option Value) → List (String × Json)
    | [] => []
    | (f, none) :: rest =>
      if f.skipsNone then fieldsToJson rest else (f.memberName, .null) :: fieldsToJson rest
    | (f, some value) :: rest => (f.memberName, value.toJson) :: fieldsToJson rest

end Value

namespace Bindings

/-- What a type reference stands for once aliases are expanded. -/
inductive Shape where
  | plain (type : TypeRef)
  | list (element : TypeRef)
  | record (binding : Binding)
  | enumeration (binding : Binding)

/-- The binding of a named type. -/
def bindingOf? (b : Bindings) (domain name : String) : Option Binding :=
  (b.domains.find? (·.name == domain)).bind (·.binding? (Identifier.typeName name))

/-- Expand aliases, `limit` of them at most. -/
def shape? (b : Bindings) : Nat → TypeRef → Option Shape
  | limit, .named domain name =>
    match b.bindingOf? domain name, limit with
    | none, _ => none
    | some binding, limit =>
      match binding.target, limit with
      | some _, 0 => none
      | some target, limit + 1 => b.shape? limit target
      | none, _ =>
        if binding.kind = .enumeration then some (.enumeration binding) else some (.record binding)
  | _, .list element => some (.list element)
  | _, type => some (.plain type)

/-- The number of bindings, which bounds every chain of aliases that ends. -/
def size (b : Bindings) : Nat := total (·.bindings.length) b.domains

open Json.Decoder in
/-- Read an object whose members may be anything. -/
def readOpenMap (budget : Nat) : Json.Decoder (List (String × Json))
  | d@(.object _ _) => do
    match ← any budget d with
    | .object members => return members
    | _ => throw .malformed
  | d => refuse "a map" d

/-- Read one of the variants of an enumeration. -/
def readChoice (binding : Binding) (budget : Nat) : Json.Decoder Value :=
  Json.Decoder.choice .memory budget fun name =>
    match binding.variants.find? (·.memberName == name) with
    | some variant => .ok (.choice variant)
    | none => .error (.unknownVariant name (binding.variants.map (·.memberName)))

/-- The fields of a record, read with `read`; what is there is collected by the names of members.
An option whose member is missing has no value, with the attribute for a default or without it. -/
def fieldReaders (read : TypeRef → Json.Decoder Value) (fields : List Field) :
    List (Json.Decoder.Field (List (String × Value))) :=
  fields.map fun f =>
    if f.optional then
      .free f.memberName (Json.Decoder.optional (read f.type)) fun value found =>
        match value with
        | some value => (f.memberName, value) :: found
        | none => found
    else
      .needed f.memberName (read f.type) fun value found => (f.memberName, value) :: found

/-- The fields of a binding with what was found for them. -/
def arrange (fields : List Field) (found : List (String × Value)) : List (Field × Option Value) :=
  fields.map fun f => (f, found.lookup f.memberName)

/-- Read a record. -/
def readRecord (read : TypeRef → Json.Decoder Value) (binding : Binding) : Json.Decoder Value :=
  fun d => do
    let found ← Json.Decoder.record .memory binding.name (fieldReaders read binding.fields) [] d
    return .record (arrange binding.fields found)

open Json.Decoder in
/-- Read a value of a type from a document nested `budget` deep at most. -/
def readType (b : Bindings) : Nat → TypeRef → Json.Decoder Value
  | budget, type => fun d =>
    match b.shape? b.size type with
    | none => throw .malformed
    | some (.plain .float) => .float <$> float64 d
    | some (.plain .integer) => .integer <$> int64 d
    | some (.plain .boolean) => .boolean <$> bool d
    | some (.plain .string) => .string <$> string d
    | some (.plain .any) => .any <$> any budget d
    | some (.plain .openMap) => .openMap <$> readOpenMap budget d
    | some (.plain .stringMap) => .stringMap <$> stringMap budget d
    | some (.plain _) => throw .malformed
    | some (.enumeration binding) => readChoice binding budget d
    | some (.list element) =>
      match budget with
      | 0 => tooDeepList d
      | left + 1 => .list <$> Json.Decoder.list (left + 1) (fun _ => b.readType left element) d
    | some (.record binding) =>
      match budget with
      | 0 => tooDeep binding.name d
      | left + 1 => readRecord (b.readType left) binding d

/-- Read a value of a record binding. -/
def decodeRecord (b : Bindings) (binding : Binding) (value : Json) :
    Except Json.DecodeError Value :=
  Json.decodeValue (fun budget d =>
    match budget with
    | 0 => Json.Decoder.tooDeep binding.name d
    | left + 1 => readRecord (b.readType left) binding d) value

end Bindings

end InspectorProtocol

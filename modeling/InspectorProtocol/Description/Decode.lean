import InspectorProtocol.Description.Basic
import InspectorProtocol.Failure

/-!
# Reading descriptions

A description is a JSON text. Each record below names its fields in order; the record and field
names appear in error texts. The parts of a version may be numbers, which count as their text.
Descriptors nest without bound in principle, so their readers count down the depth a text may have.
-/

namespace InspectorProtocol.Description

open Json Json.Decoder

def Kind.ofName (name : String) : Kind :=
  if name == "number" then .number
  else if name == "integer" then .integer
  else if name == "boolean" then .boolean
  else if name == "string" then .string
  else if name == "any" then .any
  else if name == "object" then .object
  else if name == "array" then .array
  else .unknown

def readKind (origin : Origin) (budget : Nat) : Decoder Kind :=
  choice origin budget fun name => .ok (Kind.ofName name)

/-- A string, or the text of a number. -/
def readVersionPart (budget : Nat) : Decoder String := fun d => do
  match ← any budget d with
  | .string value => return value
  | .number value => return value.text
  | _ => throw (.mismatch (.noAlternative "StringOrNumber"))

def readVersion (origin : Origin) : Nat → Decoder Version
  | 0 => tooDeep "ProtocolVersion"
  | n + 1 =>
    record origin "ProtocolVersion"
      [.needed "major" (readVersionPart n) (fun x v => { v with major := x }),
       .needed "minor" (readVersionPart n) (fun x v => { v with minor := x })]
      {}

def readStrings (budget : Nat) : Decoder (List String) := list budget fun _ => Decoder.string

/-- The elements of an array of records; `read` is for the depth below the array. -/
def readEach {α : Type} (read : Decoder α) : Decoder (List α)
  | .array items closed => do
    let values ← items.mapM read
    if closed then return values else throw .malformed
  | d => refuse "a sequence" d

mutual

def readItems (origin : Origin) : Nat → Decoder Items
  | 0 => tooDeep "ItemDescriptor"
  | n + 1 =>
    record origin "ItemDescriptor"
      [.free "type" (optional (readKind origin n)) (fun x i => { i with kind := x }),
       .free "$ref" (optional Decoder.string) (fun x i => { i with reference := x }),
       .free "properties"
         (match n with
          | 0 => tooDeepList
          | m + 1 => readEach (fun d => readProperty origin m d))
         (fun x i => { i with properties := x }),
       .free "items" (optional (fun d => readItems origin n d)) (fun x i => { i with items := x })]
      {}

def readProperty (origin : Origin) : Nat → Decoder Property
  | 0 => tooDeep "PropertyDef"
  | n + 1 =>
    record origin "PropertyDef"
      [.needed "name" Decoder.string (fun x p => { p with name := x }),
       .free "type" (optional (readKind origin n)) (fun x p => { p with kind := x }),
       .free "$ref" (optional Decoder.string) (fun x p => { p with reference := x }),
       .free "items" (optional (fun d => readItems origin n d)) (fun x p => { p with items := x }),
       .free "enum" (readStrings n) (fun x p => { p with values := x }),
       .free "optional" Decoder.bool (fun x p => { p with optional := x }),
       .free "deprecated" Decoder.bool (fun x p => { p with deprecated := x }),
       .free "experimental" Decoder.bool (fun x p => { p with experimental := x }),
       .free "description" (optional Decoder.string) (fun x p => { p with description := x })]
      {}

end

def readProperties (origin : Origin) (budget : Nat) : Decoder (List Property) :=
  list budget (readProperty origin)

def readType (origin : Origin) : Nat → Decoder TypeDecl
  | 0 => tooDeep "TypeDef"
  | n + 1 =>
    record origin "TypeDef"
      [.needed "id" Decoder.string (fun x t => { t with name := x }),
       .needed "type" (readKind origin n) (fun x t => { t with kind := x }),
       .free "description" (optional Decoder.string) (fun x t => { t with description := x }),
       .free "properties" (readProperties origin n) (fun x t => { t with properties := x }),
       .free "enum" (readStrings n) (fun x t => { t with values := x }),
       .free "items" (optional (readItems origin n)) (fun x t => { t with items := x }),
       .free "deprecated" Decoder.bool (fun x t => { t with deprecated := x }),
       .free "experimental" Decoder.bool (fun x t => { t with experimental := x })]
      {}

def readCommand (origin : Origin) : Nat → Decoder CommandDecl
  | 0 => tooDeep "CommandDef"
  | n + 1 =>
    record origin "CommandDef"
      [.needed "name" Decoder.string (fun x c => { c with name := x }),
       .free "description" (optional Decoder.string) (fun x c => { c with description := x }),
       .free "parameters" (readProperties origin n) (fun x c => { c with parameters := x }),
       .free "returns" (readProperties origin n) (fun x c => { c with returns := x }),
       .free "deprecated" Decoder.bool (fun x c => { c with deprecated := x }),
       .free "experimental" Decoder.bool (fun x c => { c with experimental := x })]
      {}

def readEvent (origin : Origin) : Nat → Decoder EventDecl
  | 0 => tooDeep "EventDef"
  | n + 1 =>
    record origin "EventDef"
      [.needed "name" Decoder.string (fun x e => { e with name := x }),
       .free "description" (optional Decoder.string) (fun x e => { e with description := x }),
       .free "parameters" (readProperties origin n) (fun x e => { e with parameters := x }),
       .free "deprecated" Decoder.bool (fun x e => { e with deprecated := x }),
       .free "experimental" Decoder.bool (fun x e => { e with experimental := x })]
      {}

def readDomain (origin : Origin) : Nat → Decoder Domain
  | 0 => tooDeep "Domain"
  | n + 1 =>
    record origin "Domain"
      [.needed "domain" Decoder.string (fun x d => { d with name := x }),
       .free "description" (optional Decoder.string) (fun x d => { d with description := x }),
       .free "types" (list n (readType origin)) (fun x d => { d with types := x }),
       .free "commands" (list n (readCommand origin)) (fun x d => { d with commands := x }),
       .free "events" (list n (readEvent origin)) (fun x d => { d with events := x }),
       .free "dependencies" (readStrings n) (fun x d => { d with dependencies := x }),
       .free "experimental" Decoder.bool (fun x d => { d with experimental := x }),
       .free "deprecated" Decoder.bool (fun x d => { d with deprecated := x })]
      {}

def read (origin : Origin) : Nat → Decoder Description
  | 0 => tooDeep "ProtocolDescription"
  | n + 1 =>
    record origin "ProtocolDescription"
      [.needed "version" (readVersion origin n) (fun x d => { d with version := x }),
       .free "domains" (list n (readDomain origin)) (fun x d => { d with domains := x })]
      {}

/-- The description of a JSON text. -/
def ofText (s : String) : Except DecodeError Description := decodeText (read .text) s

/-- The description of a JSON text, or the failure to read it. -/
def parse (s : String) : Except Failure Description :=
  (ofText s).mapError (Failure.ofDescriptionError none)

end InspectorProtocol.Description

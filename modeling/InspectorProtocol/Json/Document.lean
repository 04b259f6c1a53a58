import InspectorProtocol.Json.Token

/-!
# Documents

A `Document` is JSON text as far as it is well formed: an array or object that the text does not
finish properly is marked as not closed and holds what came before the fault. Readers go through a
document from left to right, so they meet the same first fault as a reader of the text.
-/

namespace InspectorProtocol.Json

inductive Document where
  | null
  | bool (value : Bool)
  /-- nothing stands for a number beyond the doubles -/
  | number (value : Option Number)
  /-- nothing stands for a string with half of a surrogate pair -/
  | string (value : Option String)
  | array (items : List Document) (closed : Bool)
  | object (members : List (Option String × Document)) (closed : Bool)
  /-- no value where one has to be -/
  | broken

/-- An array or object that is being read; its parts stand last first. -/
inductive OpenPart where
  | array (items : List Document)
  | object (members : List (Option String × Document)) (name : Option String)

/-- What the text may go on with. -/
inductive Await where
  | value
  /-- a value or the end of the array just begun -/
  | firstItem
  /-- a name or the end of the object just begun -/
  | firstName
  | name
  | colon
  /-- a comma or the end of the innermost part -/
  | separator
  /-- nothing: the root is complete -/
  | nothing
  | stopped

/-- The reader between two tokens. -/
structure Assembly where
  parts : List OpenPart := []
  await : Await := .value
  root : Document := .broken
  /-- whether something follows the root -/
  trailing : Bool := false

namespace Assembly

/-- Put a complete value into the innermost part. -/
def put (a : Assembly) (value : Document) : Assembly :=
  match a.parts with
  | [] => { a with root := value, await := .nothing }
  | .array items :: outer =>
    { a with parts := .array (value :: items) :: outer, await := .separator }
  | .object members name :: outer =>
    { a with parts := .object ((name, value) :: members) none :: outer, await := .separator }

/-- End the innermost part. -/
def close (a : Assembly) (part : OpenPart) (outer : List OpenPart) : Assembly :=
  let value := match part with
    | .array items => Document.array items.reverse true
    | .object members _ => Document.object members.reverse true
  { a with parts := outer }.put value

/-- The document of the open parts around a value that broke off. -/
def collapse (value : Document) : List OpenPart → Document
  | [] => value
  | .array items :: outer => collapse (.array (value :: items).reverse false) outer
  | .object members name :: outer =>
    collapse (.object ((name, value) :: members).reverse false) outer

/-- Stop at a fault. -/
def stop (a : Assembly) : Assembly :=
  match a.await with
  | .nothing => { a with trailing := true, await := .stopped }
  | .stopped => a
  | .value | .colon => { a with root := collapse .broken a.parts, await := .stopped }
  | .firstItem | .firstName | .name | .separator =>
    let root := match a.parts with
      | [] => .broken
      | .array items :: outer => collapse (.array items.reverse false) outer
      | .object members _ :: outer => collapse (.object members.reverse false) outer
    { a with root := root, await := .stopped }

def beginPart (a : Assembly) (part : OpenPart) (await : Await) : Assembly :=
  { a with parts := part :: a.parts, await := await }

/-- Take a token where a value may stand. -/
def takeValue (a : Assembly) (token : Token) : Assembly :=
  match token with
  | .null => a.put .null
  | .bool value => a.put (.bool value)
  | .number value => a.put (.number value)
  | .string value => a.put (.string value)
  | .beginArray => a.beginPart (.array []) .firstItem
  | .beginObject => a.beginPart (.object [] none) .firstName
  | _ => a.stop

/-- Take a token where a name has to stand. -/
def takeName (a : Assembly) (token : Token) : Assembly :=
  match token, a.parts with
  | .string name, .object members _ :: outer =>
    { a with parts := .object members name :: outer, await := .colon }
  | _, _ => a.stop

def step (a : Assembly) (token : Token) : Assembly :=
  match a.await with
  | .value => a.takeValue token
  | .firstItem =>
    match token, a.parts with
    | .endArray, part :: outer => a.close part outer
    | _, _ => a.takeValue token
  | .firstName =>
    match token, a.parts with
    | .endObject, part :: outer => a.close part outer
    | _, _ => a.takeName token
  | .name => a.takeName token
  | .colon =>
    match token with
    | .colon => { a with await := .value }
    | _ => a.stop
  | .separator =>
    match token, a.parts with
    | .comma, .array _ :: _ => { a with await := .value }
    | .comma, .object _ _ :: _ => { a with await := .name }
    | .endArray, .array items :: outer => a.close (.array items) outer
    | .endObject, .object members name :: outer => a.close (.object members name) outer
    | _, _ => a.stop
  | .nothing | .stopped => a.stop

end Assembly

/-- A text read as a document, and whether nothing but blanks follows it. -/
structure Reading where
  root : Document
  complete : Bool

/-- Read a text. -/
def read (s : String) : Reading :=
  let a := ((tokens s).foldl Assembly.step {})
  match a.await with
  | .nothing => ⟨a.root, true⟩
  | .stopped => ⟨a.root, false⟩
  | _ => ⟨a.stop.root, false⟩

namespace Document

/-- Whether the text of the value is well formed throughout. -/
def intact : Document → Bool
  | .array items closed => intactItems items && closed
  | .object members closed => intactMembers members && closed
  | .broken => false
  | _ => true
where
  intactItems : List Document → Bool
    | [] => true
    | item :: rest => item.intact && intactItems rest
  intactMembers : List (Option String × Document) → Bool
    | [] => true
    | (_, value) :: rest => value.intact && intactMembers rest

end Document

/-- A value as the document it would be read from, its members in order. -/
def toDocument : Json → Document
  | .null => .null
  | .bool value => .bool value
  | .number value => .number (some value)
  | .string value => .string (some value)
  | .array items => .array (ofItems items) true
  | .object members => .object (ofMembers members) true
where
  ofItems : List Json → List Document
    | [] => []
    | item :: rest => item.toDocument :: ofItems rest
  ofMembers : List (String × Json) → List (Option String × Document)
    | [] => []
    | (name, value) :: rest => (some name, value.toDocument) :: ofMembers rest

end InspectorProtocol.Json

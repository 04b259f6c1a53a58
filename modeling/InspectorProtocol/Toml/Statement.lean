import InspectorProtocol.Toml.Quoted
import InspectorProtocol.Toml.Scalar
import InspectorProtocol.Toml.Table

/-!
# Statements

A TOML text is a list of statements, each on lines of its own: headers, and keys with values. Values
may hold values; how deep, and how many names a key may have, is limited.
-/

namespace InspectorProtocol.Toml

/-- One level more than values may be nested, and one name more than a key may have. -/
def depthLimit : Nat := 80

inductive Statement where
  /-- `[path]` -/
  | header (path : List String)
  /-- `[[path]]` -/
  | arrayHeader (path : List String)
  /-- `path = value` -/
  | pair (path : List String) (value : Value)

namespace Reader

def isBare (c : Char) : Bool := c.isAlphanum || c == '_' || c == '-'

/-- A name, bare or in quotes. -/
def name : Reader String := do
  match ← peek? with
  | some c =>
    if c == '"' || c == '\'' then Quoted.line
    else
      let bare ← span isBare
      if bare.isEmpty then failure else return String.ofList bare
  | none => failure

/-- Names with dots between them. `count` bounds how many. -/
def key : Nat → Reader (List String)
  | 0 => failure
  | count + 1 => do
    blanks
    let first ← name
    blanks
    if (← peek?) == some '.' then
      expect ['.']
      return first :: (← key count)
    else return [first]

/-- The characters of a value without quotes. -/
def isScalar (c : Char) : Bool :=
  c.isAlphanum || c == '_' || c == '-' || c == '+' || c == '.' || c == ':'

/-- A value without quotes. After a date a space and a digit go on with a time. -/
def scalar : Reader Value := do
  let text ← span isScalar
  let text ← match ← get with
    | ' ' :: c :: _ =>
      if c.isDigit && Scalar.isDate text then do
        expect [' ']
        pure (text ++ ' ' :: (← span isScalar))
      else pure text
    | _ => pure text
  match Scalar.ofText? text with
  | some value => return value
  | none => failure

/-- The elements of an array up to the closing bracket, after the opening one or a comma. `count`
bounds how many. -/
def elements (value : Reader Value) : Nat → Reader (List Value)
  | 0 => failure
  | count + 1 => do
    gap
    if (← peek?) == some ']' then
      expect [']']
      return []
    let first ← value
    gap
    if (← peek?) == some ',' then
      expect [',']
      return first :: (← elements value count)
    else
      expect [']']
      return [first]

/-- A key and its value. -/
def pair (value : Reader Value) : Reader (List String × Value) := do
  let path ← key (depthLimit - 1)
  expect ['=']
  blanks
  return (path, ← value)

/-- The members of a table up to the closing brace. `count` bounds how many. -/
def braced (value : Reader Value) (soFar : Members) : Nat → Reader Members
  | 0 => failure
  | count + 1 => do
    let (path, first) ← pair value
    blanks
    match soFar.assign path first with
    | none => failure
    | some members =>
      if (← peek?) == some ',' then
        expect [',']
        braced value members count
      else
        expect ['\x7d']
        return members

/-- A value with at most `depth` levels of arrays and tables. -/
def value : Nat → Reader Value
  | 0 => do
    match ← peek? with
    | some '[' | some '\x7b' => failure
    | some '"' | some '\'' => return .string (← Quoted.any)
    | _ => scalar
  | depth + 1 => do
    let size := (← get).length
    match ← peek? with
    | some '[' =>
      expect ['[']
      return .array (← elements (value depth) size)
    | some '\x7b' =>
      expect ['\x7b']
      blanks
      if (← peek?) == some '\x7d' then
        expect ['\x7d']
        return .table .braced []
      else return .table .braced (← braced (value depth) [] size)
    | some '"' | some '\'' => return .string (← Quoted.any)
    | _ => scalar

/-- A statement with the rest of its line. -/
def statement : Reader Statement := do
  let found ← match ← get with
    | '[' :: '[' :: rest => do
      set rest
      let path ← key (depthLimit - 1)
      expect [']', ']']
      pure (Statement.arrayHeader path)
    | '[' :: rest => do
      set rest
      let path ← key (depthLimit - 1)
      expect [']']
      pure (Statement.header path)
    | _ => do
      let (path, value) ← pair (value (depthLimit - 1))
      pure (Statement.pair path value)
  lineTail
  return found

/-- The statements of a text. `count` bounds how many. -/
def statements : Nat → Reader (List Statement)
  | 0 => failure
  | count + 1 => do
    gap
    if (← get).isEmpty then return []
    else return (← statement) :: (← statements count)

end Reader

/-- The statements of a text, which a byte order mark may precede. -/
def Statement.ofText? (text : String) : Option (List Statement) :=
  let cs := match text.toList with
    | '\uFEFF' :: rest => rest
    | cs => cs
  (Reader.statements (cs.length + 1)).run' cs

end InspectorProtocol.Toml

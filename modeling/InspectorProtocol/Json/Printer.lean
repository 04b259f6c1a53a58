import InspectorProtocol.Json.Basic
import InspectorProtocol.Decimal.Shortest

/-!
# Writing JSON

The text has no blanks. In a string only the quote, the backslash and the control characters below
the blank are escaped, five of them by a letter. A double has a point or an exponent, so that it is
read back as a double.
-/

namespace InspectorProtocol.Json

/-- Doubles are plain from `0.00001` up to sixteen digits before the point, and have a signed
exponent outside. -/
def floatSpelling : Decimal.Spelling := ⟨-5, 15, "e", "+"⟩

def Number.text : Number → String
  | .int value => toString value
  | .float value => floatSpelling.writeBinary64 value

def hexDigit (n : Nat) : Char :=
  if n < 10 then Char.ofNat ('0'.toNat + n) else Char.ofNat ('a'.toNat + (n - 10))

/-- How a character stands in a string. -/
def escapeChar (c : Char) : List Char :=
  if c = '"' then ['\\', '"']
  else if c = '\\' then ['\\', '\\']
  else if c.toNat < 32 then
    if c.toNat = 8 then ['\\', 'b']
    else if c.toNat = 9 then ['\\', 't']
    else if c.toNat = 10 then ['\\', 'n']
    else if c.toNat = 12 then ['\\', 'f']
    else if c.toNat = 13 then ['\\', 'r']
    else ['\\', 'u', '0', '0', hexDigit (c.toNat / 16), hexDigit (c.toNat % 16)]
  else [c]

/-- The characters of a string between its quotes. -/
def escapeChars (cs : List Char) : List Char := (cs.map escapeChar).flatten

def quoteChars (s : String) : List Char := '"' :: escapeChars s.toList ++ ['"']

/-- The characters of the text of a value. -/
def render : Json → List Char
  | .null => "null".toList
  | .bool true => "true".toList
  | .bool false => "false".toList
  | .number value => value.text.toList
  | .string value => quoteChars value
  | .array items => '[' :: renderItems items ++ [']']
  | .object members => '{' :: renderMembers members ++ ['}']
where
  renderItems : List Json → List Char
    | [] => []
    | [item] => item.render
    | item :: rest => item.render ++ ',' :: renderItems rest
  renderMembers : List (String × Json) → List Char
    | [] => []
    | [(name, value)] => quoteChars name ++ ':' :: value.render
    | (name, value) :: rest => quoteChars name ++ ':' :: value.render ++ ',' :: renderMembers rest

/-- The text of a value. -/
def text (value : Json) : String := String.ofList value.render

/-- A text as a JSON string. -/
def quote (s : String) : String := String.ofList (quoteChars s)

end InspectorProtocol.Json

import InspectorProtocol.Text.Unprintable

/-!
# Quoted text

Texts are shown in double quotes in error messages and in generated source. The quote, the
backslash and the usual blanks are escaped by a letter, unprintable characters by their number in
braces.
-/

namespace InspectorProtocol.Text

/-- The hexadecimal digits of a code point, in small letters. -/
def hexDigits (n : Nat) : List Char := Nat.toDigits 16 n

/-- How a character stands in quoted text. -/
def quoteChar (c : Char) : List Char :=
  if c = '"' || c = '\\' then ['\\', c]
  else if c = '\n' then ['\\', 'n']
  else if c = '\r' then ['\\', 'r']
  else if c = '\t' then ['\\', 't']
  else if c.toNat = 0 then ['\\', '0']
  else if c.toNat < 127 then if c.toNat < 32 then numbered c else [c]
  else if isUnprintable c then numbered c
  else [c]
where
  numbered (c : Char) : List Char := ['\\', 'u', '{'] ++ hexDigits c.toNat ++ ['}']

/-- A text in double quotes. -/
def quoted (s : String) : String :=
  String.ofList ('"' :: (s.toList.map quoteChar).flatten ++ ['"'])

end InspectorProtocol.Text

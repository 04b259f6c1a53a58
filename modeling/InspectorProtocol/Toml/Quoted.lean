import InspectorProtocol.Text.Digits
import InspectorProtocol.Toml.Reader

/-!
# Quoted texts

Texts in double quotes have escapes, texts in single quotes have none. Either may be tripled, and
then the text has lines; its first line end does not count, nor does what comes between a backslash
at the end of a line and the next character.
-/

namespace InspectorProtocol.Toml.Quoted

open Reader

/-- The characters before the closing quote, and what comes after it. -/
abbrev Cut := Option (List Char × List Char)

private def cons (c : Char) (cut : Cut) : Cut := cut.map fun (text, rest) => (c :: text, rest)

def escaped? : Char → Option Char
  | 'b' => some '\x08'
  | 't' => some '\t'
  | 'n' => some '\n'
  | 'f' => some '\x0c'
  | 'r' => some '\r'
  | '"' => some '"'
  | '\\' => some '\\'
  | _ => none

/-- The character with this number in hexadecimal digits. -/
def coded? (digits : List Char) : Option Char := do
  let number ← Text.number? 16 digits
  if number.isValidChar then some (Char.ofNat number) else none

/-- A text in double quotes, after the opening one. -/
def basic : List Char → Cut
  | [] => none
  | '"' :: rest => some ([], rest)
  | '\\' :: 'u' :: a :: b :: c :: d :: rest => do cons (← coded? [a, b, c, d]) (basic rest)
  | '\\' :: 'U' :: a :: b :: c :: d :: e :: f :: g :: h :: rest => do
    cons (← coded? [a, b, c, d, e, f, g, h]) (basic rest)
  | '\\' :: c :: rest => do cons (← escaped? c) (basic rest)
  | c :: rest => if isPlain c then cons c (basic rest) else none

/-- A text in single quotes, after the opening one. -/
def literal : List Char → Cut
  | [] => none
  | '\'' :: rest => some ([], rest)
  | c :: rest => if isPlain c then cons c (literal rest) else none

/-- The end of a tripled text: up to two more quotes before the closing ones belong to it. -/
def closing? (quote : Char) (cs : List Char) : Cut :=
  match (cs.takeWhile (· == quote)).length with
  | 0 | 1 | 2 => none
  | count + 3 => some (List.replicate (min count 2) quote, cs.drop (min count 2 + 3))

/-- A text in tripled single quotes, after the opening ones. -/
def literalLines : List Char → Cut
  | [] => none
  | c :: rest =>
    match closing? '\'' (c :: rest) with
    | some cut => some cut
    | none =>
      if c == '\r' && atLineEnd (c :: rest) then literalLines rest
      else if isPlain c || c == '\n' then cons c (literalLines rest)
      else none

/-- A text in tripled double quotes, after the opening ones. After a backslash at the end of a line
blanks and line ends are skipped. -/
def basicLines (skipping : Bool) : List Char → Cut
  | [] => none
  | c :: rest =>
    if skipping && (isBlank c || atLineEnd (c :: rest)) then basicLines true rest
    else
      match closing? '"' (c :: rest) with
      | some cut => some cut
      | none =>
        if c == '\\' then
          if atLineEnd (rest.dropWhile isBlank) then basicLines true rest
          else
            match rest with
            | 'u' :: a :: b :: c :: d :: rest => do
              cons (← coded? [a, b, c, d]) (basicLines false rest)
            | 'U' :: a :: b :: c :: d :: e :: f :: g :: h :: rest => do
              cons (← coded? [a, b, c, d, e, f, g, h]) (basicLines false rest)
            | c :: rest => do cons (← escaped? c) (basicLines false rest)
            | [] => none
        else if c == '\r' && atLineEnd (c :: rest) then basicLines false rest
        else if isPlain c || c == '\n' then cons c (basicLines false rest)
        else none

/-- A text without the line end in front. -/
def dropLineEnd : List Char → List Char
  | '\n' :: rest => rest
  | '\r' :: '\n' :: rest => rest
  | cs => cs

private def finish (cut : Cut) : Reader String :=
  match cut with
  | some (text, rest) => do
    set rest
    return String.ofList text
  | none => failure

/-- A text in quotes on one line. -/
def line : Reader String := do
  match ← get with
  | '"' :: rest => finish (basic rest)
  | '\'' :: rest => finish (literal rest)
  | _ => failure

/-- A text in quotes. -/
def any : Reader String := do
  match ← get with
  | '"' :: '"' :: '"' :: rest => finish (basicLines false (dropLineEnd rest))
  | '\'' :: '\'' :: '\'' :: rest => finish (literalLines (dropLineEnd rest))
  | _ => line

end InspectorProtocol.Toml.Quoted

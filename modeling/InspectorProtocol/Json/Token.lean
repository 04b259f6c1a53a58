import InspectorProtocol.Json.Basic
import InspectorProtocol.Decimal.Reading
import InspectorProtocol.Text.Digits

/-!
# Tokens of JSON text

The lexer takes one character at a time, so that reading a text in two parts is running it twice.
A token that is no JSON ends the list with `malformed`. Two faults are left to whoever uses a
token's value, because a value that nobody looks at may have them: a number too large for a
double, and a string with half of a surrogate pair.
-/

namespace InspectorProtocol.Json

inductive Token where
  | beginArray
  | endArray
  | beginObject
  | endObject
  | colon
  | comma
  | null
  | bool (value : Bool)
  | number (value : Option Number)
  | string (value : Option String)
  | malformed

/-- A number token as read so far. Digits stand last first. -/
structure NumberText where
  negative : Bool
  whole : List Nat := []
  fraction : Option (List Nat) := none
  exponentNegative : Bool := false
  exponent : Option (List Nat) := none

/-- What a number token may go on with. -/
inductive NumberPhase where
  /-- after the sign: a digit has to follow -/
  | sign
  /-- after a leading zero -/
  | zero
  | whole
  /-- after the point: a digit has to follow -/
  | point
  | fraction
  /-- after the exponent mark: a sign or a digit has to follow -/
  | mark
  /-- after the sign of the exponent: a digit has to follow -/
  | exponentSign
  | exponent
  deriving DecidableEq

/-- A string token as read so far, last character first. -/
structure StringText where
  chars : List Char := []
  /-- the first half of a surrogate pair that waits for the second -/
  high : Option Nat := none
  /-- whether all surrogates so far are paired -/
  paired : Bool := true

inductive Mode where
  | between
  /-- inside a literal of which these characters are still missing -/
  | word (missing : List Char) (token : Token)
  | number (phase : NumberPhase) (text : NumberText)
  | string (text : StringText)
  /-- after a backslash -/
  | escape (text : StringText)
  /-- inside a `\u` escape that still lacks some digits -/
  | unit (missing : Nat) (value : Nat) (text : StringText)
  | stopped

/-- The lexer between two characters; tokens stand last first. -/
structure Lexer where
  tokens : List Token := []
  mode : Mode := .between

def digitsValue (digits : List Nat) : Nat := digits.foldr (fun d n => n * 10 + d) 0

/-- The value of a number token. Whole numbers of 64 bits stay whole; all others, and a negative
zero, are doubles. -/
def NumberText.value? (t : NumberText) : Option Number :=
  let written : Decimal.Written :=
    ⟨t.negative, t.whole.reverse, t.fraction.map List.reverse, t.exponent.map fun digits =>
      if t.exponentNegative then -(digitsValue digits : Int) else digitsValue digits⟩
  let n := digitsValue t.whole
  match t.fraction, t.exponent with
  | none, none =>
    if !t.negative && n < Nat.pow 2 64 then some (.int n)
    else if t.negative && 0 < n && n ≤ Nat.pow 2 63 then some (.int (-(n : Int)))
    else written.toBinary64?.map .float
  | _, _ => written.toBinary64?.map .float

namespace StringText

def push (t : StringText) (c : Char) : StringText :=
  { chars := c :: t.chars, high := none, paired := t.paired && t.high.isNone }

/-- Add a UTF-16 unit written as an escape. -/
def pushUnit (t : StringText) (unit : Nat) : StringText :=
  if 0xD800 ≤ unit && unit < 0xDC00 then
    { t with high := some unit, paired := t.paired && t.high.isNone }
  else if 0xDC00 ≤ unit && unit < 0xE000 then
    match t.high with
    | some high =>
      { t with
        chars := Char.ofNat (0x10000 + (high - 0xD800) * 0x400 + (unit - 0xDC00)) :: t.chars
        high := none }
    | none => { t with paired := false }
  else t.push (Char.ofNat unit)

def value? (t : StringText) : Option String :=
  if t.paired && t.high.isNone then some (String.ofList t.chars.reverse) else none

end StringText

def isBlank (c : Char) : Bool := c = ' ' || c = '\n' || c = '\t' || c = '\r'

namespace Lexer

def emit (l : Lexer) (token : Token) : Lexer := ⟨token :: l.tokens, .between⟩

def fail (l : Lexer) : Lexer := ⟨.malformed :: l.tokens, .stopped⟩

def enter (l : Lexer) (mode : Mode) : Lexer := { l with mode := mode }

/-- Take the first character of a token, or a blank. -/
def start (l : Lexer) (c : Char) : Lexer :=
  if isBlank c then l
  else if c = '[' then l.emit .beginArray
  else if c = ']' then l.emit .endArray
  else if c = '{' then l.emit .beginObject
  else if c = '}' then l.emit .endObject
  else if c = ':' then l.emit .colon
  else if c = ',' then l.emit .comma
  else if c = '"' then l.enter (.string {})
  else if c = 'n' then l.enter (.word ['u', 'l', 'l'] .null)
  else if c = 't' then l.enter (.word ['r', 'u', 'e'] (.bool true))
  else if c = 'f' then l.enter (.word ['a', 'l', 's', 'e'] (.bool false))
  else if c = '-' then l.enter (.number .sign { negative := true })
  else if c = '0' then l.enter (.number .zero { negative := false, whole := [0] })
  else if c.isDigit then
    l.enter (.number .whole { negative := false, whole := [c.toNat - '0'.toNat] })
  else l.fail

/-- Take a character that may go on with a number; nothing if it ends or breaks the number. -/
def NumberPhase.take? (phase : NumberPhase) (t : NumberText) (c : Char) :
    Option (NumberPhase × NumberText) :=
  let d := c.toNat - '0'.toNat
  let isMark := c = 'e' || c = 'E'
  match phase with
  | .sign =>
    if c = '0' then some (.zero, { t with whole := [0] })
    else if c.isDigit then some (.whole, { t with whole := [d] })
    else none
  | .zero =>
    if c = '.' then some (.point, { t with fraction := some [] })
    else if isMark then some (.mark, { t with exponent := some [] })
    else none
  | .whole =>
    if c.isDigit then some (.whole, { t with whole := d :: t.whole })
    else if c = '.' then some (.point, { t with fraction := some [] })
    else if isMark then some (.mark, { t with exponent := some [] })
    else none
  | .point | .fraction =>
    if c.isDigit then some (.fraction, { t with fraction := t.fraction.map (d :: ·) })
    else if isMark && phase = .fraction then some (.mark, { t with exponent := some [] })
    else none
  | .mark =>
    if c = '+' then some (.exponentSign, t)
    else if c = '-' then some (.exponentSign, { t with exponentNegative := true })
    else if c.isDigit then some (.exponent, { t with exponent := t.exponent.map (d :: ·) })
    else none
  | .exponentSign | .exponent =>
    if c.isDigit then some (.exponent, { t with exponent := t.exponent.map (d :: ·) })
    else none

/-- Whether a number may end in this phase, before the character `next`. -/
def NumberPhase.mayEnd (phase : NumberPhase) (next : Option Char) : Bool :=
  match phase with
  | .zero => !next.any Char.isDigit
  | .whole | .fraction | .exponent => true
  | _ => false

/-- The escapes of one letter. -/
def escaped? (c : Char) : Option Char :=
  if c = '"' || c = '\\' || c = '/' then some c
  else if c = 'b' then some '\x08'
  else if c = 'f' then some '\x0c'
  else if c = 'n' then some '\n'
  else if c = 'r' then some '\r'
  else if c = 't' then some '\t'
  else none

def step (l : Lexer) (c : Char) : Lexer :=
  match l.mode with
  | .between => l.start c
  | .word missing token =>
    match missing with
    | [] => l.fail
    | [last] => if c = last then l.emit token else l.fail
    | next :: rest => if c = next then l.enter (.word rest token) else l.fail
  | .number phase t =>
    match NumberPhase.take? phase t c with
    | some (phase, t) => l.enter (.number phase t)
    | none =>
      if NumberPhase.mayEnd phase (some c) then (l.emit (.number t.value?)).start c else l.fail
  | .string t =>
    if c = '"' then l.emit (.string t.value?)
    else if c = '\\' then l.enter (.escape t)
    else if c.toNat < 32 then l.fail
    else l.enter (.string (t.push c))
  | .escape t =>
    if c = 'u' then l.enter (.unit 4 0 t)
    else match escaped? c with
      | some plain => l.enter (.string (t.push plain))
      | none => l.fail
  | .unit missing value t =>
    match Text.digitValue? 16 c with
    | none => l.fail
    | some digit =>
      let value := value * 16 + digit
      if missing ≤ 1 then l.enter (.string (t.pushUnit value))
      else l.enter (.unit (missing - 1) value t)
  | .stopped => l

/-- The tokens at the end of the text. -/
def finish (l : Lexer) : List Token :=
  let last : List Token :=
    match l.mode with
    | .between | .stopped => []
    | .number phase t =>
      if NumberPhase.mayEnd phase none then [.number t.value?] else [.malformed]
    | _ => [.malformed]
  (last ++ l.tokens).reverse

end Lexer

/-- The tokens of a text. -/
def tokens (s : String) : List Token := (s.toList.foldl Lexer.step {}).finish

end InspectorProtocol.Json

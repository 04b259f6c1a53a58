import InspectorProtocol.Decimal.Reading
import InspectorProtocol.Text.Ascii
import InspectorProtocol.Text.Digits
import InspectorProtocol.Toml.Basic

/-!
# Plain scalars

Values that stand without quotes: truth values, integers of 64 bits, floats, dates and times. A
single underscore may stand between two digits of a number.
-/

namespace InspectorProtocol.Toml.Scalar

open Text

/-- At least one digit, with single underscores between digits. -/
def digits? (base : Nat) : List Char → Option (List Nat)
  | [] => none
  | [c] => (digitValue? base c).map ([·])
  | c :: '_' :: rest => do return (← digitValue? base c) :: (← digits? base rest)
  | c :: rest => do return (← digitValue? base c) :: (← digits? base rest)

/-- Decimal digits; only a zero that stands alone comes first. -/
def whole? (cs : List Char) : Option (List Nat) :=
  if 1 < cs.length && cs.head? == some '0' then none else digits? 10 cs

/-- The sign in front, and what follows. -/
def cutSign : List Char → Bool × List Char
  | '-' :: rest => (true, rest)
  | '+' :: rest => (false, rest)
  | cs => (false, cs)

def integer? (cs : List Char) : Option Int := do
  let magnitude : Int ← match cs with
    | '0' :: 'x' :: rest => (digits? 16 rest).map fun ds => (ofDigits 16 ds : Int)
    | '0' :: 'o' :: rest => (digits? 8 rest).map fun ds => (ofDigits 8 ds : Int)
    | '0' :: 'b' :: rest => (digits? 2 rest).map fun ds => (ofDigits 2 ds : Int)
    | _ =>
      let (negative, rest) := cutSign cs
      (whole? rest).map fun ds => if negative then -(ofDigits 10 ds : Int) else ofDigits 10 ds
  if -Nat.pow 2 63 ≤ magnitude ∧ magnitude < Nat.pow 2 63 then some magnitude else none

/-- What stands before the first character with `p`, and what stands after it. -/
def cutAtFirst (p : Char → Bool) (cs : List Char) : List Char × Option (List Char) :=
  match cs.dropWhile (!p ·) with
  | [] => (cs, none)
  | _ :: after => (cs.takeWhile (!p ·), some after)

private def exponent? (cs : List Char) : Option Int :=
  let (negative, rest) := cutSign cs
  (digits? 10 rest).map fun ds => if negative then -(ofDigits 10 ds : Int) else ofDigits 10 ds

/-- The decimal that a float writes. -/
def written? (cs : List Char) : Option Decimal.Written := do
  let (negative, rest) := cutSign cs
  let (mantissa, exponent) := cutAtFirst (fun c => c == 'e' || c == 'E') rest
  let (whole, fraction) := cutAtFirst (· == '.') mantissa
  if exponent.isNone && fraction.isNone then none
  else
    let fraction ← match fraction with
      | none => some none
      | some cs => (digits? 10 cs).map some
    let exponent ← match exponent with
      | none => some none
      | some cs => (exponent? cs).map some
    return { negative, whole := ← whole? whole, fraction, exponent }

/-- Whether a text is a float; a positive one may not be too large for a double. -/
def isFloat (cs : List Char) : Bool :=
  let (_, unsigned) := cutSign cs
  unsigned == ['i', 'n', 'f'] || unsigned == ['n', 'a', 'n'] ||
    match written? cs with
    | some w => w.negative || w.toBinary64?.isSome
    | none => false

/-- A number of exactly `count` digits between two bounds. -/
def fixed? (count low high : Nat) (cs : List Char) : Option Nat :=
  if cs.length = count && cs.all Char.isDigit then
    (number? 10 cs).filter fun value => low ≤ value && value ≤ high
  else none

def daysIn (year month : Nat) : Nat :=
  if month = 2 then if year % 4 = 0 && (year % 100 ≠ 0 || year % 400 = 0) then 29 else 28
  else if [4, 6, 9, 11].contains month then 30 else 31

def isDate (cs : List Char) : Bool :=
  match splitChars (· == '-') cs with
  | [year, month, day] =>
    match fixed? 4 0 9999 year, fixed? 2 1 12 month with
    | some y, some m => (fixed? 2 1 (daysIn y m) day).isSome
    | _, _ => false
  | _ => false

/-- A time of day in canonical form: nine digits after the point count, and no zeros end them. -/
def time? (cs : List Char) : Option (List Char) := do
  let (clock, fraction) := cutAtFirst (· == '.') cs
  match splitChars (· == ':') clock with
  | [hour, minute, second] =>
    let _ ← fixed? 2 0 23 hour
    let _ ← fixed? 2 0 59 minute
    let _ ← fixed? 2 0 60 second
    match fraction with
    | none => some clock
    | some digits =>
      if digits.isEmpty || !digits.all Char.isDigit then none
      else
        let kept := ((digits.take 9).reverse.dropWhile (· == '0')).reverse
        some (if kept.isEmpty then clock else clock ++ '.' :: kept)
  | _ => none

/-- The distance of a local time from universal time. -/
def offset? : List Char → Option (List Char)
  | ['Z'] | ['z'] => some ['Z']
  | sign :: rest =>
    if sign == '+' || sign == '-' then
      match splitChars (· == ':') rest with
      | [hour, minute] => do
        let _ ← fixed? 2 0 23 hour
        let _ ← fixed? 2 0 59 minute
        some (sign :: rest)
      | _ => none
    else none
  | [] => none

/-- A time of day with or without an offset. -/
def timeOffset? (cs : List Char) : Option (List Char) :=
  let isMark (c : Char) : Bool := c == 'Z' || c == 'z' || c == '+' || c == '-'
  let time := cs.takeWhile (!isMark ·)
  match cs.dropWhile (!isMark ·) with
  | [] => time? time
  | offset => do return (← time? time) ++ (← offset? offset)

/-- The canonical form of a date, a time or both. -/
def moment? (cs : List Char) : Option String :=
  let (date, time) := cutAtFirst (fun c => c == 'T' || c == 't' || c == ' ') cs
  match time with
  | none =>
    if isDate cs then some (String.ofList cs)
    else (time? cs).map String.ofList
  | some time =>
    if isDate date then (timeOffset? time).map fun time => String.ofList (date ++ 'T' :: time)
    else none

/-- The value that a text without quotes stands for. -/
def ofText? (cs : List Char) : Option Value :=
  if cs == "true".toList then some (.boolean true)
  else if cs == "false".toList then some (.boolean false)
  else
    match moment? cs, integer? cs with
    | some text, _ => some (.moment text)
    | none, some number => some (.integer number)
    | none, none => if isFloat cs then some (.float (String.ofList cs)) else none

end InspectorProtocol.Toml.Scalar

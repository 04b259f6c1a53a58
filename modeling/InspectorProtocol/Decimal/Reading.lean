import InspectorProtocol.Decimal.Binary64

/-!
# Reading decimal numbers as doubles

A decimal is read in two steps. Its leading digits that fit 64 bits become a double; then one
multiplication or division by a power of ten, itself rounded to a double, moves the point. Powers
beyond `10^308` are taken in pieces. The result may differ from the nearest double in the last
place, which readers of the format have to reproduce.
-/

namespace InspectorProtocol.Decimal

/-- A decimal as written: digits before and after the point, and a power of ten. A missing
fraction and a missing exponent are told apart from empty ones. -/
structure Written where
  negative : Bool
  whole : List Nat
  fraction : Option (List Nat)
  exponent : Option Int
  deriving Repr

/-- The bound of the significand kept while reading. -/
def significandLimit : Nat := Nat.pow 2 64

/-- Take digits into the significand as long as it stays below the limit; the result is the
significand and the digits that did not fit. -/
def takeDigits (significand : Nat) : List Nat → Nat × List Nat
  | [] => (significand, [])
  | d :: rest =>
    if significand * 10 + d < significandLimit then takeDigits (significand * 10 + d) rest
    else (significand, d :: rest)

/-- Scale a magnitude by `10 ^ exponent`, at most `10 ^ 308` at a time. A zero stays zero; a
positive exponent out of range is refused. -/
def scale (pieces : Nat) (value : Nat × Int) (exponent : Int) : Option (Nat × Int) :=
  if exponent.natAbs ≤ 308 then do
    let power ← Binary64.roundRatio (Nat.pow 10 exponent.natAbs) 1
    if exponent ≥ 0 then Binary64.mulMagnitude value power
    else Binary64.divMagnitude value power
  else if value.1 == 0 then some value
  else if exponent ≥ 0 then none
  else match pieces with
    | 0 => some (0, -1074)
    | pieces + 1 => do
      let power ← Binary64.roundRatio (Nat.pow 10 308) 1
      scale pieces (← Binary64.divMagnitude value power) (exponent + 308)

/-- The double that a decimal with a fraction, an exponent or too many digits is read as; nothing
if it is too large. A magnitude below `2^64` vanishes after two pieces. -/
def Written.toBinary64? (w : Written) : Option Binary64 := do
  let (significand, dropped) := takeDigits 0 w.whole
  let (significand, shift) : Nat × Int :=
    match dropped, w.fraction with
    | _, none => (significand, dropped.length)
    | _, some fraction =>
      let (all, left) := takeDigits significand fraction
      (all, (dropped.length : Int) - ((fraction.length - left.length : Nat) : Int))
  let start ← Binary64.roundRatio significand 1
  let (mantissa, exponent) ← scale 2 start (shift + w.exponent.getD 0)
  return ⟨w.negative, mantissa, exponent⟩

end InspectorProtocol.Decimal

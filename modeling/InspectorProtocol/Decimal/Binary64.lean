/-!
# Double-precision numbers

A finite double is a sign, a whole mantissa below `2^53` and a power of two from `-1074` up to
`971`. Arithmetic is exact arithmetic of ratios followed by one rounding to the nearest double, a
tie going to the even mantissa.
-/

namespace InspectorProtocol.Decimal

/-- The number `mantissa * 2 ^ exponent`, with a sign that zero has too. -/
structure Binary64 where
  negative : Bool
  mantissa : Nat
  exponent : Int
  deriving DecidableEq, Repr

namespace Binary64

def zero (negative : Bool) : Binary64 := ⟨negative, 0, -1074⟩

/-- The ratio of a magnitude, as numerator and denominator. -/
def ratio (mantissa : Nat) (exponent : Int) : Nat × Nat :=
  match exponent with
  | .ofNat n => (mantissa * Nat.pow 2 n, 1)
  | .negSucc n => (mantissa, Nat.pow 2 (n + 1))

/-- A quotient rounded to the nearest whole number, a half going to the even one. -/
def roundQuotient (num den : Nat) : Nat :=
  let q := num / den
  let r := num % den
  if 2 * r > den || (2 * r == den && q % 2 == 1) then q + 1 else q

/-- The quotient `num / (den * 2 ^ exponent)` as a ratio. -/
def scaledRatio (num den : Nat) (exponent : Int) : Nat × Nat :=
  match exponent with
  | .ofNat n => (num, den * Nat.pow 2 n)
  | .negSucc n => (num * Nat.pow 2 (n + 1), den)

/-- The exponent that gives the quotient `num / den` a mantissa of 53 bits, or the least one. -/
def exponentOf (num den : Nat) : Int :=
  let guess : Int := (num.log2 : Int) - (den.log2 : Int) - 52
  let (n, d) := scaledRatio num den guess
  let exact := if n / d < Nat.pow 2 52 then guess - 1 else guess
  max exact (-1074)

/-- The magnitude nearest to `num / den`; nothing if that is beyond the largest double. -/
def roundRatio (num den : Nat) : Option (Nat × Int) :=
  if num == 0 then some (0, -1074)
  else
    let exponent := exponentOf num den
    let (n, d) := scaledRatio num den exponent
    let mantissa := roundQuotient n d
    let (mantissa, exponent) :=
      if mantissa == Nat.pow 2 53 then (Nat.pow 2 52, exponent + 1) else (mantissa, exponent)
    if exponent > 971 then none else some (mantissa, exponent)

/-- The product of two magnitudes, rounded once. -/
def mulMagnitude (a b : Nat × Int) : Option (Nat × Int) :=
  let (n, d) := ratio (a.1 * b.1) (a.2 + b.2)
  roundRatio n d

/-- The quotient of two magnitudes, rounded once. -/
def divMagnitude (a b : Nat × Int) : Option (Nat × Int) :=
  let (n, d) := ratio a.1 (a.2 - b.2)
  roundRatio n (d * b.1)

/-- The double nearest to a whole number. -/
def ofInt? (value : Int) : Option Binary64 :=
  (roundRatio value.natAbs 1).map fun (mantissa, exponent) => ⟨value < 0, mantissa, exponent⟩

end Binary64

end InspectorProtocol.Decimal

/-!
# Punycode

Labels of domain names in ASCII: the ASCII characters of a label, then, as numbers to the base 36
whose digits have thresholds, where each other character goes. The thresholds adapt to the numbers
so far.
-/

namespace InspectorProtocol.Address.Punycode

/-- The value of a digit: letters come before the ten digits. -/
def digitValue? (c : Char) : Option Nat :=
  let lower := c.toLower
  if 'a' ≤ lower && lower ≤ 'z' then some (lower.toNat - 'a'.toNat)
  else if c.isDigit then some (c.toNat - '0'.toNat + 26)
  else none

/-- The threshold of the digit with this place and bias. -/
def threshold (place bias : Nat) : Nat := min 26 (max 1 (place - bias))

/-- Divide by 35 until at most 455 is left; `rounds` bounds how often. -/
def spread (rounds delta bias : Nat) : Nat :=
  match rounds with
  | 0 => bias + 36 * delta / (delta + 38)
  | rounds + 1 =>
    if 455 < delta then spread rounds (delta / 35) (bias + 36) else bias + 36 * delta / (delta + 38)

/-- The bias after a number, with which the label has `count` characters. -/
def adapt (number count : Nat) (isFirst : Bool) : Nat :=
  let delta := if isFirst then number / 700 else number / 2
  let delta := delta + delta / count
  spread delta delta 0

/-- A label as far as it has been decoded. -/
structure Decoding where
  label : List Nat
  code : Nat := 128
  index : Nat := 0
  bias : Nat := 72
  /-- where the number that is being read started from -/
  start : Nat := 0
  weight : Nat := 1
  place : Nat := 36

/-- Take a digit. -/
def Decoding.step (d : Decoding) (c : Char) : Option Decoding := do
  let digit ← digitValue? c
  let index := d.index + digit * d.weight
  let limit := threshold d.place d.bias
  if limit ≤ digit then
    return { d with index, weight := d.weight * (36 - limit), place := d.place + 36 }
  else
    let count := d.label.length + 1
    let code := d.code + index / count
    if !code.isValidChar then none
    else
      let position := index % count
      return {
        label := d.label.take position ++ code :: d.label.drop position
        code
        index := position + 1
        bias := adapt (index - d.start) count (d.start == 0)
        start := position + 1 }

/-- The characters of a label without its `xn--`; a number that does not end is refused. -/
def decode? (cs : List Char) : Option (List Char) := do
  let digits := (cs.reverse.takeWhile (· != '-')).reverse
  let basic := (cs.take (cs.length - digits.length)).dropLast
  let d ← digits.foldlM Decoding.step { label := basic.map Char.toNat }
  if d.place = 36 then some (d.label.map Char.ofNat) else none

end InspectorProtocol.Address.Punycode

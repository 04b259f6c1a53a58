/-!
# Digits

Numbers written to some base up to sixteen, in digits and letters of either case.
-/

namespace InspectorProtocol.Text

/-- The value of a digit. -/
def digitValue? (base : Nat) (c : Char) : Option Nat :=
  let value? :=
    if c.isDigit then some (c.toNat - '0'.toNat)
    else if 'a' ≤ c.toLower && c.toLower ≤ 'f' then some (c.toLower.toNat - 'a'.toNat + 10)
    else none
  value?.filter (· < base)

/-- The number of some digit values, the highest first. -/
def ofDigits (base : Nat) (digits : List Nat) : Nat :=
  digits.foldl (fun value digit => value * base + digit) 0

/-- The number that characters write; none at all write zero. -/
def number? (base : Nat) (cs : List Char) : Option Nat :=
  (cs.mapM (digitValue? base)).map (ofDigits base)

end InspectorProtocol.Text

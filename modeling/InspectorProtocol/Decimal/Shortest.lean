import InspectorProtocol.Decimal.Binary64

/-!
# The shortest decimal of a double

Every double is the nearest double to an interval of reals, whose ends belong to it exactly when
the mantissa is even. Among the decimals inside that interval the ones with fewest digits are
taken, and of these the nearest. On the grid of `n`-digit decimals only the two neighbours of the
value need a look: if any point of the grid lies in the interval, one of them does.
-/

namespace InspectorProtocol.Decimal

/-- The reals that round to a magnitude, times a common factor: the ratio `value / den` lies
between `low / den` and `high / den`. -/
structure Interval where
  low : Nat
  value : Nat
  high : Nat
  den : Nat
  closed : Bool

/-- The interval of a magnitude; the gap below a power of two is half as wide. -/
def intervalOf (mantissa : Nat) (exponent : Int) : Interval :=
  let narrow := mantissa == Nat.pow 2 52 && exponent > -1074
  let low := 4 * mantissa - (if narrow then 1 else 2)
  let closed := mantissa % 2 == 0
  match exponent with
  | .ofNat n =>
    let unit := Nat.pow 2 n
    ⟨low * unit, 4 * mantissa * unit, (4 * mantissa + 2) * unit, 4, closed⟩
  | .negSucc n => ⟨low, 4 * mantissa, 4 * mantissa + 2, 4 * Nat.pow 2 (n + 1), closed⟩

def digitCount (n : Nat) : Nat := (Nat.toDigits 10 n).length

/-- The power of ten of the first digit of a positive ratio. -/
def leadingPower (num den : Nat) : Int :=
  if num ≥ den then (digitCount (num / den) : Int) - 1
  else
    let gap := digitCount den - digitCount num
    if num * Nat.pow 10 gap ≥ den then -(gap : Int) else -((gap : Int) + 1)

/-- Whether the decimal `digits * 10 ^ power` lies in the interval. -/
def Interval.contains (i : Interval) (digits : Nat) (power : Int) : Bool :=
  let (x, unit) := match power with
    | .ofNat n => (digits * Nat.pow 10 n * i.den, 1)
    | .negSucc n => (digits * i.den, Nat.pow 10 (n + 1))
  let low := i.low * unit
  let high := i.high * unit
  if i.closed then low ≤ x && x ≤ high else low < x && x < high

/-- The nearest decimal of the interval on the grid of multiples of `10 ^ power`, if there is one.
Of two neighbours equally near the even one is taken. -/
def Interval.nearestOn (i : Interval) (power : Int) : Option Nat :=
  let (num, den) := match power with
    | .ofNat n => (i.value, i.den * Nat.pow 10 n)
    | .negSucc n => (i.value * Nat.pow 10 (n + 1), i.den)
  let below := num / den
  let r := num % den
  let upNearer := 2 * r > den || (2 * r == den && below % 2 == 1)
  let (first, second) := if upNearer then (below + 1, below) else (below, below + 1)
  if i.contains first power then some first
  else if i.contains second power then some second
  else none

/-- Drop the zeros at the end of a number of digits; `fuel` bounds their number. -/
def dropZeros (fuel : Nat) (digits : Nat) (power : Int) : Nat × Int :=
  match fuel with
  | 0 => (digits, power)
  | fuel + 1 =>
    if digits % 10 == 0 && digits != 0 then dropZeros fuel (digits / 10) (power + 1)
    else (digits, power)

/-- The shortest decimal `digits * 10 ^ power` that reads back as a positive magnitude. Seventeen
digits always suffice. -/
def shortest (mantissa : Nat) (exponent : Int) : Nat × Int :=
  let i := intervalOf mantissa exponent
  let leading := leadingPower i.value i.den
  let tries := (List.range 17).findSome? fun (n : Nat) =>
    (i.nearestOn (leading - n)).map fun digits => (digits, leading - (n : Int))
  let (digits, power) := tries.getD (0, 0)
  dropZeros 18 digits power

/-- How a decimal is spelled. -/
structure Spelling where
  /-- the powers of the first digit written without an exponent -/
  plainFrom : Int
  plainTo : Int
  /-- the mark between digits and exponent -/
  mark : String
  /-- the sign of an exponent that is not negative -/
  plus : String

/-- Write `digits * 10 ^ power` in a spelling; a plain number always has a point. -/
def Spelling.write (style : Spelling) (digits : Nat) (power : Int) : String :=
  let ds := Nat.toDigits 10 digits
  let leading := power + ds.length - 1
  let zeros (n : Nat) := List.replicate n '0'
  let body : List Char :=
    if style.plainFrom ≤ leading && leading ≤ style.plainTo then
      if power ≥ 0 then ds ++ zeros power.toNat ++ ['.', '0']
      else if leading ≥ 0 then ds.take (leading.toNat + 1) ++ '.' :: ds.drop (leading.toNat + 1)
      else '0' :: '.' :: zeros (-leading - 1).toNat ++ ds
    else
      let point := match ds with
        | [d] => [d]
        | d :: rest => d :: '.' :: rest
        | [] => []
      let sign := if leading < 0 then "-" else style.plus
      point ++ (style.mark ++ sign ++ toString leading.natAbs).toList
  String.ofList body

/-- Write a double: its sign, and `0.0` or the shortest decimal. -/
def Spelling.writeBinary64 (style : Spelling) (value : Binary64) : String :=
  let magnitude :=
    if value.mantissa == 0 then "0.0"
    else
      let (digits, power) := shortest value.mantissa value.exponent
      style.write digits power
  if value.negative then "-" ++ magnitude else magnitude

end InspectorProtocol.Decimal

import InspectorProtocol.Text.Ascii
import InspectorProtocol.Text.Digits

/-!
# IPv6 addresses

Eight pieces of sixteen bits. In writing, one run of zero pieces may be left out as `::`, and the
last two pieces may be given as four decimal numbers. The canonical form leaves out the first of the
longest runs of at least two zeros.
-/

namespace InspectorProtocol.Address.Ipv6

open Text

/-- A piece: one to four hexadecimal digits. -/
def piece? (cs : List Char) : Option Nat :=
  if cs.isEmpty || 4 < cs.length then none else number? 16 cs

/-- A decimal number below 256 without leading zeros. -/
def octet? (cs : List Char) : Option Nat :=
  if cs.isEmpty || 3 < cs.length || (1 < cs.length && cs.head? == some '0') then none
  else (number? 10 cs).filter (· < 256)

/-- Two pieces written as four decimal numbers. -/
def dotted? (cs : List Char) : Option (List Nat) := do
  match ← (splitChars (· == '.') cs).mapM octet? with
  | [a, b, c, d] => return [a * 256 + b, c * 256 + d]
  | _ => none

/-- The pieces of a list of texts, of which the last may be dotted. -/
def pieces? : List (List Char) → Option (List Nat)
  | [] => some []
  | [final] => if final.contains '.' then dotted? final else (piece? final).map ([·])
  | first :: rest => do return (← piece? first) :: (← pieces? rest)

/-- The pieces of a text between two ends, none for the empty text. -/
def run? (cs : List Char) : Option (List Nat) :=
  if cs.isEmpty then some [] else pieces? (splitChars (· == ':') cs)

/-- What stands before and after the first `::`. -/
def cutGap? : List Char → Option (List Char × List Char)
  | [] => none
  | ':' :: ':' :: rest => some ([], rest)
  | c :: rest => (cutGap? rest).map fun (before, after) => (c :: before, after)

/-- The eight pieces of an address. The `::` stands for one zero piece at least, and a dotted part
only ends an address. -/
def parse? (cs : List Char) : Option (List Nat) := do
  match cutGap? cs with
  | none =>
    let pieces ← run? cs
    if pieces.length = 8 then some pieces else none
  | some (before, after) =>
    if before.contains '.' then none
    else
      let head ← run? before
      let tail ← run? after
      let known := head.length + tail.length
      if known ≤ 7 then some (head ++ List.replicate (8 - known) 0 ++ tail) else none

/-- How many zeros a list of pieces starts with. -/
def leadingZeros (pieces : List Nat) : Nat := (pieces.takeWhile (· == 0)).length

/-- Length of the longest run of zeros. -/
def longestRun : List Nat → Nat
  | [] => 0
  | piece :: rest => max (leadingZeros (piece :: rest)) (longestRun rest)

/-- What stands before and after the first run of `length` zeros. -/
def cutRun (length : Nat) : List Nat → List Nat × List Nat
  | [] => ([], [])
  | piece :: rest =>
    if length ≤ leadingZeros (piece :: rest) then ([], (piece :: rest).drop length)
    else
      let (before, after) := cutRun length rest
      (piece :: before, after)

private def written (pieces : List Nat) : String :=
  ":".intercalate (pieces.map fun piece => String.ofList (Nat.toDigits 16 piece))

/-- The canonical text of an address. -/
def render (pieces : List Nat) : String :=
  let longest := longestRun pieces
  if longest < 2 then written pieces
  else
    let (before, after) := cutRun longest pieces
    written before ++ "::" ++ written after

end InspectorProtocol.Address.Ipv6

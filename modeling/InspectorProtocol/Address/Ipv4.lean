import InspectorProtocol.Text.Ascii
import InspectorProtocol.Text.Digits

/-!
# IPv4 addresses in host names

A host whose last label is a number is an IPv4 address and nothing else. Its numbers may be decimal,
octal with a leading `0` or hexadecimal with a leading `0x`, and the last of them fills all bytes
that are left.
-/

namespace InspectorProtocol.Address.Ipv4

open Text

/-- A number of a host; the digits may be missing after `0x`. -/
def part? : List Char → Option Nat
  | [] => none
  | '0' :: 'x' :: digits => number? 16 digits
  | '0' :: 'X' :: digits => number? 16 digits
  | '0' :: digits => number? 8 digits
  | digits => number? 10 digits

/-- The labels of a host, without the empty one after a dot at its end. -/
def labels (host : List Char) : List (List Char) :=
  let all := splitChars (· == '.') host
  if 1 < all.length && all.getLast? == some [] then all.dropLast else all

/-- Whether a host is to be read as an address. -/
def endsInNumber (host : List Char) : Bool :=
  match (labels host).getLast? with
  | some label => !label.isEmpty && (label.all Char.isDigit || (part? label).isSome)
  | none => false

/-- The bytes of an address: all numbers but the last are one byte each. -/
def parse? (host : List Char) : Option Nat := do
  let numbers ← (labels host).mapM part?
  let final ← numbers.getLast?
  let leading := numbers.dropLast
  let room := Nat.pow 256 (4 - leading.length)
  if 3 < leading.length || leading.any (255 < ·) then none
  else if final < room then some (ofDigits 256 leading * room + final)
  else none

end InspectorProtocol.Address.Ipv4

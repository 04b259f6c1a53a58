import InspectorProtocol.Text.Digits
import InspectorProtocol.Text.Utf8

/-!
# Percent codes

Bytes that a part of an address may not hold as they are stand there as `%` and two hexadecimal
digits.
-/

namespace InspectorProtocol.Address.PercentCode

open Text

/-- Control characters, the delete character and everything outside ASCII. -/
def isControl (byte : UInt8) : Bool := byte.toNat < 0x20 || 0x7F ≤ byte.toNat

/-- The bytes that a path has to encode. A percent sign is left as it is, for it may start a code
already. -/
def inPath (byte : UInt8) : Bool :=
  isControl byte || [' ', '"', '#', '<', '>', '?', '`', '{', '}'].any (·.toNat == byte.toNat)

private def hexDigit (n : Nat) : Char := (Nat.digitChar n).toUpper

/-- A text with the bytes encoded for which `p` holds. -/
def encode (p : UInt8 → Bool) (cs : List Char) : List Char :=
  (cs.flatMap Utf8.encodeChar).flatMap fun byte =>
    if p byte then ['%', hexDigit (byte.toNat / 16), hexDigit (byte.toNat % 16)]
    else [Char.ofNat byte.toNat]

private def hexValue? (byte : UInt8) : Option Nat := digitValue? 16 (Char.ofNat byte.toNat)

/-- The bytes that stand behind a text; a percent sign without two digits stands for itself. -/
def decode : Utf8.Bytes → Utf8.Bytes
  | [] => []
  | [a] => [a]
  | [a, b] => [a, b]
  | a :: b :: c :: rest =>
    match a == 0x25, hexValue? b, hexValue? c with
    | true, some high, some low => .ofNat (high * 16 + low) :: decode rest
    | _, _, _ => a :: decode (b :: c :: rest)

end InspectorProtocol.Address.PercentCode

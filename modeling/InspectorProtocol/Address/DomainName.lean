import InspectorProtocol.Address.Punycode
import InspectorProtocol.Text.Ascii
import InspectorProtocol.Text.Utf8

/-!
# Domain names

Labels with dots between them, in any script. Capitals, wide forms and raised digits stand for plain
characters, some characters count for nothing, and control characters, private ones, and those that
delimit the parts of an address are refused. A label may be given in Punycode behind `xn--`.
-/

namespace InspectorProtocol.Address.DomainName

open Text

private def within (ranges : List (Nat × Nat)) (c : Char) : Bool :=
  ranges.any fun (first, last) => first ≤ c.toNat && c.toNat ≤ last

/-- ASCII characters that no domain name has. -/
def isForbidden (c : Char) : Bool :=
  c.toNat ≤ 0x20 || c.toNat == 0x7F ||
    ['%', '#', '/', ':', '<', '>', '?', '@', '[', '\\', ']', '^', '|'].contains c

/-- Characters outside ASCII that no domain name has: controls, blanks, accents that stand alone,
compounds with delimiters, private and unassigned ones. -/
def refusedRanges : List (Nat × Nat) :=
  [(0x80, 0xA0), (0xA8, 0xA8), (0xAF, 0xAF), (0xB4, 0xB4), (0xB8, 0xB8), (0x2D8, 0x2DD),
   (0x37A, 0x37A), (0x384, 0x385), (0x61C, 0x61C), (0x1680, 0x1680), (0x180E, 0x180E),
   (0x2000, 0x200A), (0x200E, 0x200F), (0x2017, 0x2017), (0x2028, 0x202F), (0x203E, 0x203E),
   (0x2047, 0x2049), (0x205F, 0x205F), (0x2065, 0x2069), (0x2100, 0x2101), (0x2105, 0x2106),
   (0x2A74, 0x2A74), (0x2FF0, 0x3000), (0x309B, 0x309C), (0xE000, 0xF8FF), (0xFDD0, 0xFDEF),
   (0xFE13, 0xFE13), (0xFE16, 0xFE16), (0xFE47, 0xFE49), (0xFE55, 0xFE56), (0xFE5F, 0xFE5F),
   (0xFE64, 0xFE65), (0xFE68, 0xFE68), (0xFE6A, 0xFE6B), (0xFFE3, 0xFFE3), (0xFFF0, 0xFFFF),
   (0x1FFFE, 0x1FFFF), (0x2FFFE, 0x2FFFF), (0x323B0, 0xE00FF), (0xE01F0, 0x10FFFF)]

/-- Characters that count for nothing. -/
def ignoredRanges : List (Nat × Nat) :=
  [(0xAD, 0xAD), (0x34F, 0x34F), (0x115F, 0x1160), (0x17B4, 0x17B5), (0x180B, 0x180D),
   (0x180F, 0x180F), (0x200B, 0x200B), (0x2060, 0x2064), (0x206A, 0x206F), (0x3164, 0x3164),
   (0xFE00, 0xFE0F), (0xFEFF, 0xFEFF), (0xFFA0, 0xFFA0), (0xE0100, 0xE01EF)]

/-- The plain character that a character stands for. -/
def plain (c : Char) : Char :=
  let n := c.toNat
  if n = 0x3002 || n = 0xFF61 then '.'
  else if 0xFF01 ≤ n && n ≤ 0xFF5E then (Char.ofNat (n - 0xFEE0)).toLower
  else if n = 0xB2 || n = 0xB3 then Char.ofNat (n - 0x80)
  else if n = 0xB9 then '1'
  else if n = 0x2070 || (0x2074 ≤ n && n ≤ 0x2079) then Char.ofNat (n - 0x2040)
  else if 0x2080 ≤ n && n ≤ 0x2089 then Char.ofNat (n - 0x2050)
  else c.toLower

/-- Whether a character may stand in a finished label. -/
def isProper (c : Char) : Bool := plain c == c && !isForbidden c && !within refusedRanges c

/-- A label that is given in Punycode has characters outside ASCII, all in their plain form. -/
def isLabel (cs : List Char) : Bool :=
  if "xn--".toList.isPrefixOf cs then
    match Punycode.decode? (cs.drop 4) with
    | some label =>
      label.any (0x80 ≤ ·.toNat) && label.all fun c => isProper c && !within ignoredRanges c
    | none => false
  else true

/-- The domain name of some bytes, in plain characters. -/
def ofBytes? (bytes : Utf8.Bytes) : Option (List Char) :=
  match Utf8.decode bytes with
  | .error _ => none
  | .ok text =>
    let cs := (text.toList.filter (!within ignoredRanges ·)).map plain
    if cs.all isProper && (splitChars (· == '.') cs).all isLabel then some cs else none

end InspectorProtocol.Address.DomainName

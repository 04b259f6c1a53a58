import InspectorProtocol.Address.PercentCode
import InspectorProtocol.Text.Ascii

/-!
# Paths of addresses

The path of an address is a list of segments. A segment `.` names the place it stands in and `..`
the one above; both are gone from the finished path. A dot may be written as its percent code, and a
drive letter such as `C:` is never left by `..`.
-/

namespace InspectorProtocol.Address.Segments

open Text

/-- A segment with its encoded dots written as dots. -/
def plainDots : List Char → List Char
  | '%' :: '2' :: 'e' :: rest => '.' :: plainDots rest
  | '%' :: '2' :: 'E' :: rest => '.' :: plainDots rest
  | c :: rest => c :: plainDots rest
  | [] => []

/-- Whether a segment is a drive letter, alone or before a backslash. -/
def isDrive : List Char → Bool
  | letter :: mark :: rest =>
    letter.isAlpha && (mark == ':' || mark == '|') && (rest.isEmpty || rest.head? == some '\\')
  | _ => false

/-- The segments above the innermost one, which comes first in the list. -/
def above : List (List Char) → List (List Char)
  | [] => []
  | innermost :: rest => if isDrive innermost then innermost :: rest else rest

/-- Follow segments from a place, innermost first. A path that ends with a dot segment ends with a
slash. -/
def follow : List (List Char) → List (List Char) → List (List Char)
  | place, [] => place
  | place, segment :: rest =>
    let close (place : List (List Char)) := if rest.isEmpty then [] :: place else place
    if plainDots segment = ['.'] then follow (close place) rest
    else if plainDots segment = ['.', '.'] then follow (close (above place)) rest
    else follow (segment :: place) rest

/-- The finished path of a text that starts with a slash, which is left out here. -/
def normalize (path : List Char) : List Char :=
  let encoded := PercentCode.encode PercentCode.inPath path
  (follow [] (splitChars (· == '/') encoded)).reverse.flatMap ('/' :: ·)

end InspectorProtocol.Address.Segments

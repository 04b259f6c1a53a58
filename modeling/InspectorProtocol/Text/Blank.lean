/-!
# Blanks and lines

Blanks are the characters with the Unicode property White_Space. A text is cut into lines at line
feeds; a carriage return before a line feed belongs to it, and a line feed at the end starts no
further line.
-/

namespace InspectorProtocol.Text

def isBlank (c : Char) : Bool :=
  let n := c.toNat
  (9 ≤ n && n ≤ 13) || n = 0x20 || n = 0x85 || n = 0xA0 || n = 0x1680 ||
    (0x2000 ≤ n && n ≤ 0x200A) || n = 0x2028 || n = 0x2029 || n = 0x202F || n = 0x205F || n = 0x3000

/-- The characters without the blanks at their end. -/
def trimEnd (cs : List Char) : List Char := (cs.reverse.dropWhile isBlank).reverse

/-- Drop one carriage return at the end. -/
def dropReturn (cs : List Char) : List Char :=
  match cs.getLast? with
  | some '\r' => cs.dropLast
  | _ => cs

/-- The lines of a text, from the characters of the current line, last first. -/
def linesFrom : List Char → List Char → List (List Char)
  | [], [] => []
  | current, [] => [current.reverse]
  | current, '\n' :: rest => dropReturn current.reverse :: linesFrom [] rest
  | current, c :: rest => linesFrom (c :: current) rest

def lines (s : String) : List (List Char) := linesFrom [] s.toList

end InspectorProtocol.Text

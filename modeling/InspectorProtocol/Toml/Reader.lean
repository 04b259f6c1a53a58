/-!
# Reading off a text

A reader takes characters off the front of a text or fails. Blanks are spaces and tabs; a line ends
with a line feed, which a carriage return may precede.
-/

namespace InspectorProtocol.Toml

abbrev Reader := StateT (List Char) Option

namespace Reader

/-- The next character, which stays. -/
def peek? : Reader (Option Char) := do return (← get).head?

/-- Take a given text. -/
def expect (text : List Char) : Reader Unit := do
  let cs ← get
  if text.isPrefixOf cs then set (cs.drop text.length) else failure

/-- Take the characters in front for which `p` holds. -/
def span (p : Char → Bool) : Reader (List Char) := do
  let cs ← get
  set (cs.dropWhile p)
  return cs.takeWhile p

def isBlank (c : Char) : Bool := c == ' ' || c == '\t'

def blanks : Reader Unit := do let _ ← span isBlank

/-- Whether a character may stand as it is in a line: no control character but the tab. -/
def isPlain (c : Char) : Bool := c == '\t' || (0x20 ≤ c.toNat && c.toNat != 0x7F)

/-- Whether a line ends here. -/
def atLineEnd : List Char → Bool
  | '\n' :: _ => true
  | '\r' :: '\n' :: _ => true
  | _ => false

/-- The rest of a line: blanks and a comment. -/
def lineTail : Reader Unit := do
  blanks
  if (← peek?) == some '#' then let _ ← span isPlain
  match ← get with
  | [] => return
  | '\n' :: rest => set rest
  | '\r' :: '\n' :: rest => set rest
  | _ => failure

/-- A text without the blanks, comments and line ends in front. -/
def withoutGap (inComment : Bool) : List Char → Option (List Char)
  | [] => some []
  | c :: rest =>
    if atLineEnd (c :: rest) then withoutGap (inComment && c != '\n') rest
    else if inComment then if isPlain c then withoutGap true rest else none
    else if isBlank c then withoutGap false rest
    else if c == '#' then withoutGap true rest
    else some (c :: rest)

/-- Blanks, comments and line ends. -/
def gap : Reader Unit := do
  match withoutGap false (← get) with
  | some rest => set rest
  | none => failure

end Reader

end InspectorProtocol.Toml

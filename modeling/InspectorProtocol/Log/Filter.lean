import InspectorProtocol.Log.Event
import InspectorProtocol.Text.Ascii
import InspectorProtocol.Text.Blank
import InspectorProtocol.Text.Digits

/-!
# Log filters

A filter is a list of directives between commas. A directive is a level, or a target with an
optional span in brackets, its fields in braces, and an optional level behind an equals sign.
`isFilter` tells whether a text is such a list, and `enables` whether it lets an event pass.
-/

namespace InspectorProtocol.Log

/-- The rank of a level that a text names: in any case, or as a number up to five. Rank zero lets
nothing pass; nothing at all stands for the last level. -/
def levelRank? (s : List Char) : Option Nat :=
  let digits := match s with
    | '+' :: rest => rest
    | _ => s
  let number := (Text.number? 10 digits).getD 0
  if s.isEmpty then some Level.trace.rank
  else if !digits.isEmpty && digits.all Char.isDigit then if number ≤ 5 then some number else none
  else if Text.sameIgnoringCase "off" (String.ofList s) then some 0
  else (Level.all.find? fun l => Text.sameIgnoringCase l.name (String.ofList s)).map Level.rank

/-- Whether a text names a level. -/
def isLevel (s : List Char) : Bool := (levelRank? s).isSome

/-- A directive as far as it has been read. -/
inductive DirectiveState where
  | start
  | target
  | span
  /-- inside the braces; whether the field has no character yet -/
  | field (isEmpty : Bool)
  /-- after the braces: the bracket has to close -/
  | fields
  /-- after the bracket: nothing, or a level -/
  | afterSpan
  /-- the level so far, last character first -/
  | level (text : List Char)
  | refused

/-- The characters a target may start with. -/
def startsTarget (c : Char) : Bool :=
  c = '-' || c = ':' || c = '_' || c.isAlphanum || c.toNat ≥ 0x80

def DirectiveState.step : DirectiveState → Char → DirectiveState
  | .start, '[' => .span
  | .start, c => if startsTarget c then .target else .refused
  | .target, '=' => .level []
  | .target, '[' => .span
  | .target, _ => .target
  | .span, ']' => .afterSpan
  | .span, '{' => .field true
  | .span, _ => .span
  | .field isEmpty, '}' => if isEmpty then .refused else .fields
  | .field isEmpty, ',' => if isEmpty then .refused else .field true
  | .field _, _ => .field false
  | .fields, ']' => .afterSpan
  | .afterSpan, '=' => .level []
  | .level text, c => .level (c :: text)
  | _, _ => .refused

def isDirective (s : List Char) : Bool :=
  match (Text.trimEnd (s.dropWhile Text.isBlank)).foldl DirectiveState.step .start with
  | .target | .afterSpan => true
  | .level text => isLevel text.reverse
  | _ => false

/-- Whether a text is a filter; empty directives do not count. -/
def isFilter (s : String) : Bool :=
  ((Text.splitChars (· == ',') s.toList).filter (!·.isEmpty)).all isDirective

/-- A directive without a span: the targets it is about, by their beginning, and the rank up to
which it lets events pass. -/
structure Directive where
  target : List Char
  rank : Nat

/-- The directive of a text, unless it is about spans. -/
def directive? (s : List Char) : Option Directive :=
  if s.contains '[' then none
  else
    match levelRank? s, s.dropWhile (· != '=') with
    | some rank, _ => some ⟨[], rank⟩
    | none, _ :: level => some ⟨s.takeWhile (· != '='), (levelRank? level).getD 0⟩
    | none, [] => some ⟨s, Level.trace.rank⟩

/-- Whether a filter lets an event pass. The directive with the longest target decides, the later
one of two equal ones; an empty filter lets errors pass. -/
def enables (filter : String) (e : Event) : Bool :=
  let texts := (Text.splitChars (· == ',') filter.toList).filter (!·.isEmpty)
  let about := (texts.filterMap directive?).filter (·.target.isPrefixOf e.target.toList)
  let deciding := about.foldl (fun best d =>
    match best with
    | none => some d
    | some b => if b.target.length ≤ d.target.length then some d else some b) none
  match deciding with
  | some d => e.level.rank ≤ d.rank
  | none => texts.isEmpty && e.level == .error

end InspectorProtocol.Log

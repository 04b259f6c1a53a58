import InspectorProtocol.Text.Blank
import InspectorProtocol.Text.Quoted

/-!
# Lines of source

Source is a list of lines, each with its indentation. An empty line is written without any.
-/

namespace InspectorProtocol.Source

structure Line where
  indent : Nat
  text : String
  deriving DecidableEq, Repr

def line (text : String) : Line := ⟨0, text⟩

def blank : Line := ⟨0, ""⟩

/-- Lines moved one step to the right. -/
def indented (lines : List Line) : List Line :=
  lines.map fun l => { l with indent := l.indent + 1 }

/-- An opening line, lines inside, and a closing line. -/
def block (head : String) (body : List Line) (tail : String) : List Line :=
  line head :: indented body ++ [line tail]

def Line.chars (l : Line) : List Char :=
  if l.text.isEmpty then ['\n'] else List.replicate (4 * l.indent) ' ' ++ l.text.toList ++ ['\n']

/-- The text of some lines. -/
def render (lines : List Line) : String := String.ofList ((lines.map Line.chars).flatten)

/-- The lines of a documentation comment: the description, and after an empty line a note on what
is deprecated or experimental. `lead` opens each line. -/
def docs (lead : String) (description : Option String) (deprecated experimental : Bool) :
    List Line :=
  let described := match description with
    | none => []
    | some text => (Text.lines text).map fun cs => String.ofList (Text.trimEnd cs)
  let notes :=
    (if deprecated then ["Deprecated."] else []) ++
      (if experimental then ["Experimental."] else [])
  let all :=
    if notes.isEmpty then described
    else if described.isEmpty then [" ".intercalate notes]
    else described ++ ["", " ".intercalate notes]
  all.map fun text => line (if text.isEmpty then lead else lead ++ " " ++ text)

end InspectorProtocol.Source

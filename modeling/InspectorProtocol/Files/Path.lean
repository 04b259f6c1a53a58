import InspectorProtocol.Text.Ascii

/-!
# Paths

Names separated by slashes. A path that starts with a slash starts at the root, any other in the
working directory; `.` names the directory it stands in and `..` the one above.
-/

namespace InspectorProtocol.Path

open Text

/-- Whether a path starts at the root. -/
def isAbsolute (path : String) : Bool := path.toList.head? == some '/'

/-- Whether a path ends with a slash. -/
def endsOpen (path : String) : Bool := path.toList.getLast? == some '/'

/-- A path below another; an absolute one stays as it is. -/
def join (base name : String) : String :=
  if isAbsolute name || base.isEmpty then name
  else if endsOpen base then base ++ name
  else base ++ "/" ++ name

/-- The names of a path, in order. -/
def names (path : String) : List String :=
  ((splitChars (· == '/') path.toList).filter (!·.isEmpty)).map String.ofList

/-- The names to follow; a slash at the end asks for a directory, as `.` does. -/
def steps (path : String) : List String :=
  if endsOpen path then names path ++ ["."] else names path

/-- The paths above a list of names, the longest first. -/
def prefixes (lead : String) (all : List String) : List String :=
  (List.range (all.length - 1)).reverse.map fun count =>
    lead ++ "/".intercalate (all.take (count + 1))

/-- A path and the paths above it, the path itself first. A `.` within a path counts for nothing. -/
def ancestors (path : String) : List String :=
  if path.isEmpty then []
  else if isAbsolute path then
    path :: prefixes "/" ((names path).filter (· != ".")) ++ ["/"]
  else
    let all := names path
    path :: prefixes "" (all.take 1 ++ (all.drop 1).filter (· != "."))

/-- Whether the part of a name after its last dot, which must not be its first character, is
`extension`. -/
def hasExtension (name extension : String) : Bool :=
  endsWith name ("." ++ extension) && extension.length + 1 < name.length

end InspectorProtocol.Path

import InspectorProtocol.Files.Host
import InspectorProtocol.Binding.Generation
import InspectorProtocol.Source.Rendering

/-!
# Writing generated files

Files are written into one directory and replace what is there. What was generated before and is not
any more is removed; a file counts as generated if its first line starts with the marker. Everything
else in the directory is left alone.
-/

namespace InspectorProtocol.Source

open Text Host

/-- The bytes up to the first line break. -/
def firstLine (contents : Utf8.Bytes) : Utf8.Bytes := contents.takeWhile (· != 10)

/-- Whether contents were generated. -/
def isGenerated (contents : Utf8.Bytes) : Bool :=
  match Utf8.decode (firstLine contents) with
  | .ok line => startsWith line marker
  | .error _ => false

/-- Whether an entry of the directory has to go after `files` were written. -/
def isStale (files : List File) (name : String) (contents : Except IoFault Utf8.Bytes) : Bool :=
  Path.hasExtension name "rs" && !(files.any (·.name == name)) &&
    match contents with
    | .ok contents => isGenerated contents
    | .error _ => false

/-- The paths that were written, in order, and the paths that were removed, sorted. -/
structure Written where
  written : List String
  removed : List String
  deriving DecidableEq, Repr

variable {m : Type → Type} [Monad m] [Host m]

def writeFiles (dir : String) : List File → Action m (List String)
  | [] => return []
  | file :: rest => do
    let path := Path.join dir file.name
    attempt (.fileWrite path) (writeFile path (Utf8.encode file.contents))
    return path :: (← writeFiles dir rest)

/-- The stale ones of the names in a directory. -/
def staleNames (dir : String) (files : List File) : List String → Action m (List String)
  | [] => return []
  | name :: rest => do
    let contents ← ExceptT.lift (readFile (Path.join dir name))
    let more ← staleNames dir files rest
    return if isStale files name contents then name :: more else more

def removeFiles (dir : String) : List String → Action m (List String)
  | [] => return []
  | name :: rest => do
    let path := Path.join dir name
    attempt (.fileWrite path) (removeFile path)
    return path :: (← removeFiles dir rest)

/-- Write files into a directory and remove the stale ones. -/
def writeTo (dir : String) (files : List File) : Action m Written := do
  attempt (.fileWrite dir) (createDirectories dir)
  let written ← writeFiles dir files
  let names ← attempt (.fileRead dir) (listDirectory dir)
  let stale ← staleNames dir files (names.mergeSort fun a b => decide (a ≤ b))
  return { written, removed := ← removeFiles dir stale }

/-- Write the bindings of a description into a directory. -/
def compileTo (settings : Settings) (d : Description) (dir : String) :
    Action m (Report × Written) := do
  let bindings := Bindings.generate settings d
  let written ← writeTo dir (files bindings settings.docComments)
  return (bindings.report, written)

end InspectorProtocol.Source

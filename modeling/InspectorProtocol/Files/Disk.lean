import InspectorProtocol.Files.Path
import InspectorProtocol.Failure
import InspectorProtocol.Text.Utf8

/-!
# Disks

A disk has an entry at some of the locations below its root: a file, a directory or a link. A path
leads from the working directory through directories and links to an entry or to a free place in a
directory, and every operation says why it cannot be done. An operation is done as a whole or not at
all: none fails half way, as writing to a full disk would. Entries have no permissions, so nothing
is refused to whoever asks for it.
-/

namespace InspectorProtocol

open Text (Utf8.Bytes)

/-- The names from the root of a disk down. -/
abbrev Location := List String

inductive Entry where
  | file (contents : Utf8.Bytes)
  | directory
  | link (target : String)
  deriving DecidableEq, Repr

structure Disk where
  /-- every entry but the root, which is a directory -/
  entries : List (Location × Entry) := []
  /-- the working directory -/
  current : Location := []

namespace Disk

def entryAt? (d : Disk) (location : Location) : Option Entry :=
  if location = [] then some .directory else d.entries.lookup location

def erase (d : Disk) (location : Location) : Disk :=
  { d with entries := d.entries.filter (·.1 ≠ location) }

def put (d : Disk) (location : Location) (entry : Entry) : Disk :=
  { d with entries := (location, entry) :: (d.erase location).entries }

/-- The names in a directory. -/
def namesIn (d : Disk) (location : Location) : List String :=
  d.entries.filterMap fun (place, _) =>
    if place.dropLast = location then place.getLast? else none

/-- Everything below a location, by the path from there. -/
def below (d : Disk) (location : Location) : List (String × Entry) :=
  d.entries.filterMap fun (place, entry) =>
    if location.isPrefixOf place && location.length < place.length then
      some ("/".intercalate (place.drop location.length), entry)
    else none

/-- Where a path leads. -/
inductive Place where
  | found (location : Location) (entry : Entry)
  /-- nothing is there, but the directory is -/
  | vacant (location : Location)
  deriving DecidableEq, Repr

/-- How many links a path may lead through. -/
def linkLimit : Nat := 40

/-- How many bytes a name may have. -/
def nameLimit : Nat := 255

/-- One byte more than a path may have. -/
def pathLimit : Nat := 4096

/-- Follow names from a directory, through at most `links` links. With `last`, a link at the end is
followed as well. -/
def walk (d : Disk) (last : Bool) (links : Nat) (here : Location) :
    List String → Except IoFault Place
  | [] => .ok (.found here .directory)
  | name :: rest =>
    if name = "." then d.walk last links here rest
    else if name = ".." then d.walk last links here.dropLast rest
    else if nameLimit < name.utf8ByteSize then .error .nameTooLong
    else
      let there := here ++ [name]
      match d.entryAt? there with
      | none => if rest.isEmpty then .ok (.vacant there) else .error .notFound
      | some .directory => d.walk last links there rest
      | some (.file contents) =>
        if rest.isEmpty then .ok (.found there (.file contents)) else .error .notADirectory
      | some (.link target) =>
        if rest.isEmpty && !last then .ok (.found there (.link target))
        else
          match links with
          | 0 => .error .tooManyLinks
          | left + 1 =>
            let start := if Path.isAbsolute target then [] else here
            d.walk last left start (Path.steps target ++ rest)
termination_by names => (links, names.length)

/-- Where a path leads. -/
def locate (d : Disk) (last : Bool) (path : String) (steps : List String) : Except IoFault Place :=
  if path.toList.contains '\x00' then .error .invalidName
  else if path.isEmpty then .error .notFound
  else if pathLimit ≤ path.utf8ByteSize then .error .nameTooLong
  else d.walk last linkLimit (if Path.isAbsolute path then [] else d.current) steps

def resolve (d : Disk) (path : String) : Except IoFault Place :=
  d.locate true path (Path.steps path)

def pathExists (d : Disk) (path : String) : Bool :=
  match d.resolve path with
  | .ok (.found _ _) => true
  | _ => false

def isDirectory (d : Disk) (path : String) : Bool :=
  match d.resolve path with
  | .ok (.found _ .directory) => true
  | _ => false

/-- What a file has in it. -/
def read (d : Disk) (path : String) : Except IoFault Utf8.Bytes := do
  match ← d.resolve path with
  | .found _ (.file contents) => .ok contents
  | .found _ .directory => .error .isADirectory
  | .found _ (.link _) => .error .tooManyLinks
  | .vacant _ => .error .notFound

/-- The names in a directory. -/
def list (d : Disk) (path : String) : Except IoFault (List String) := do
  match ← d.resolve path with
  | .found location .directory => .ok (d.namesIn location)
  | .found _ _ => .error .notADirectory
  | .vacant _ => .error .notFound

/-- The location of a file that may be written to, and its contents if it is there. A path that
ends with a slash names no file. -/
def fileAt (d : Disk) (path : String) : Except IoFault (Location × Option Utf8.Bytes) := do
  match ← d.locate true path (Path.names path) with
  | .vacant location => if Path.endsOpen path then .error .isADirectory else .ok (location, none)
  | .found location (.file contents) =>
    if Path.endsOpen path then .error .notADirectory else .ok (location, some contents)
  | .found _ _ => .error .isADirectory

/-- Make a file with these contents or replace what it has. -/
def write (d : Disk) (path : String) (contents : Utf8.Bytes) : Except IoFault Disk := do
  let (location, _) ← d.fileAt path
  return d.put location (.file contents)

/-- Make an empty file unless there is one. -/
def touch (d : Disk) (path : String) : Except IoFault Disk := do
  let (location, contents?) ← d.fileAt path
  return d.put location (.file (contents?.getD []))

/-- Make something where nothing is. -/
def create (d : Disk) (path : String) (entry : Entry) : Except IoFault Disk := do
  match ← d.locate false path (Path.names path) with
  | .vacant location => .ok (d.put location entry)
  | .found _ _ => .error .alreadyExists

/-- Make the directories of a list of paths, of which each lies in the next one, as far as they are
missing. -/
def createAll (d : Disk) : List String → Except IoFault Disk
  | [] => .ok d
  | path :: above =>
    match d.create path .directory with
    | .ok d => .ok d
    | .error .notFound => do
      let d ← d.createAll above
      match d.create path .directory with
      | .ok d => .ok d
      | .error fault => if d.isDirectory path then .ok d else .error fault
    | .error fault => if d.isDirectory path then .ok d else .error fault

/-- Make a directory and the ones above it, as far as they are missing. -/
def createDirectories (d : Disk) (path : String) : Except IoFault Disk :=
  d.createAll (Path.ancestors path)

/-- Remove a file or link. -/
def remove (d : Disk) (path : String) : Except IoFault Disk := do
  match ← d.locate false path (Path.steps path) with
  | .found _ .directory => .error .isADirectory
  | .found location _ => .ok (d.erase location)
  | .vacant _ => .error .notFound

end Disk

end InspectorProtocol

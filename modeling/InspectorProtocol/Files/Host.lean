import InspectorProtocol.Files.Disk
import InspectorProtocol.Log.Filter

/-!
# Hosts

What a program asks of the machine it runs on: files, standard output and a log. Programs are
written against `Host`; a `Machine` is the host that exists as a value, a disk and what has been
printed. A `Machine` has the faults of its disk, where no write or removal fails half way and no
permission is missing, and standard output may be full; nobody else uses it meanwhile.
-/

namespace InspectorProtocol

open Text (Utf8.Bytes)

class Host (m : Type → Type) where
  pathExists : String → m Bool
  readFile : String → m (Except IoFault Utf8.Bytes)
  listDirectory : String → m (Except IoFault (List String))
  writeFile : String → Utf8.Bytes → m (Except IoFault Unit)
  /-- make an empty file unless there is one -/
  touchFile : String → m (Except IoFault Unit)
  /-- make a directory and the ones above it, as far as they are missing -/
  createDirectories : String → m (Except IoFault Unit)
  removeFile : String → m (Except IoFault Unit)
  print : String → m (Except IoFault Unit)
  /-- print on standard error -/
  printError : String → m Unit
  /-- begin to show the log events that a filter lets pass -/
  setLogFilter : String → m Unit
  logEvent : Log.Event → m Unit

namespace Host

/-- What a program does: it uses the host, and may fail. -/
abbrev Action (m : Type → Type) := ExceptT Failure m

/-- An operation, with what its fault means to the program. -/
def attempt {m : Type → Type} [Monad m] {α : Type} (meaning : IoFault → Failure)
    (operation : m (Except IoFault α)) : Action m α :=
  ExceptT.mk do return (← operation).mapError meaning

/-- Tell the log about an event. -/
def log {m : Type → Type} [Monad m] [Host m] (e : Log.Event) : Action m Unit :=
  ExceptT.lift (logEvent e)

end Host

structure Machine where
  disk : Disk := {}
  printed : String := ""
  /-- what has been printed on standard error -/
  errors : String := ""
  /-- the log filter, if there is a log; its lines go to standard error -/
  logFilter : Option String := none
  /-- how many bytes standard output takes, if there is a limit -/
  room : Option Nat := none

namespace Machine

/-- An operation that only looks at the disk. -/
def look {α : Type} (f : Disk → α) : StateM Machine α := do return f (← get).disk

/-- An operation that leaves another disk, or the same if it cannot be done. -/
def change (f : Disk → Except IoFault Disk) : StateM Machine (Except IoFault Unit) := do
  let machine ← get
  match f machine.disk with
  | .ok disk =>
    set { machine with disk }
    return .ok ()
  | .error fault => return .error fault

def write (text : String) : StateM Machine (Except IoFault Unit) := do
  let machine ← get
  let printed := machine.printed ++ text
  match machine.room with
  | some room => if room < printed.utf8ByteSize then return .error .brokenPipe
  | none => pure ()
  set { machine with printed }
  return .ok ()

def writeError (text : String) : StateM Machine Unit :=
  modify fun machine => { machine with errors := machine.errors ++ text }

def note (e : Log.Event) : StateM Machine Unit := do
  if (← get).logFilter.any (Log.enables · e) then writeError e.line

instance : Host (StateM Machine) where
  pathExists path := look (·.pathExists path)
  readFile path := look (·.read path)
  listDirectory path := look (·.list path)
  writeFile path contents := change (·.write path contents)
  touchFile path := change (·.touch path)
  createDirectories path := change (·.createDirectories path)
  removeFile path := change (·.remove path)
  print := write
  printError := writeError
  setLogFilter filter := modify fun machine => { machine with logFilter := some filter }
  logEvent := note

/-- Run a program. -/
def run {α : Type} (action : Host.Action (StateM Machine) α) (machine : Machine) :
    Except Failure α × Machine :=
  (action.run).run machine

end Machine

end InspectorProtocol

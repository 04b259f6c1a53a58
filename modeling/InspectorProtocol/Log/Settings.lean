/-!
# Log settings

Where log lines go, what they show, and the settings of each program.
-/

namespace InspectorProtocol.Log

inductive Output where
  | stderr
  | file
  | both
  deriving DecidableEq, Repr

def Output.usesFile : Output → Bool
  | .stderr => false
  | .file | .both => true

structure Settings where
  output : Output := .stderr
  filter : String := "info"
  spanEvents : Bool := false
  fileLine : Bool := false
  fileName : Option String := none

namespace Settings

/-- The environment variable that replaces the filter of a program. -/
def filterVariable : String := "DEBUGWIRE_LOG"

/-- The settings of the generator; `filter` is the value of the variable. -/
def generator (filter : Option String) : Settings := { filter := filter.getD "info" }

/-- The settings of a client. -/
def client (filter : Option String) : Settings :=
  { output := .file, filter := filter.getD "warn", fileLine := true, fileName := some "client.log" }

def development : Settings := { filter := "debug", spanEvents := true, fileLine := true }

/-- The name of the log file. -/
def logFile (s : Settings) : String := s.fileName.getD "debugwire.log"

end Settings

end InspectorProtocol.Log

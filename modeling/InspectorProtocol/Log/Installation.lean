import InspectorProtocol.Directories
import InspectorProtocol.Files.Host
import InspectorProtocol.Log.Filter
import InspectorProtocol.Log.Settings

/-!
# Installing the logger

A process has one logger. Its filter is checked first, then the log file is opened if there is to be
one; only after that it shows whether the process has a logger already.
-/

namespace InspectorProtocol.Log

open Host

variable {m : Type → Type} [Monad m] [Host m]

/-- Make the log file unless there is one. -/
def openFile (directories : Directories) (name : String) : Action m Unit := do
  let path := Path.join directories.log name
  attempt (.fileWrite directories.log) (createDirectories directories.log)
  attempt (.fileWrite path) (touchFile path)

/-- Install a logger with these settings. -/
def install (directories : Directories) (settings : Settings) (installed : Bool) :
    Action m Unit := do
  if !isFilter settings.filter then
    throw (.config ("Invalid log filter: " ++ settings.filter))
  if settings.output.usesFile then openFile directories settings.logFile
  if installed then
    throw (.internal
      "Failed to init logging: a global default trace dispatcher has already been set")

end InspectorProtocol.Log

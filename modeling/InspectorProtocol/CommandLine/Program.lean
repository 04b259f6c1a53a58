import InspectorProtocol.CommandLine.Command
import InspectorProtocol.Log.Installation

/-!
# The generator as a program

Arguments and environment in, exit code out: one line on standard error for a failure, help and
version on standard output. A log filter that is none is reported, and the program goes on without
a log.
-/

namespace InspectorProtocol.CommandLine

open Host

variable {m : Type → Type} [Monad m] [Host m]

structure Environment where
  directories : Directories
  /-- the settings file to use where the command line names none -/
  settingsFile : Option String := none
  /-- the log filter -/
  logFilter : Option String := none

def programName : String := "debugwire-codegen"

def version : String := "0.1.0"

/-- What a command does, in one line. -/
def Verb.about : Verb → String
  | .generate => "Generate bindings and write them to disk"
  | .check => "Generate without writing; exit non-zero if any item would be skipped"
  | .methods => "List every command and event method"

private def switchLine (s : Switch) : String :=
  let letter := match s.letter with
    | some c => s!"-{c}, "
    | none => "    "
  "  " ++ letter ++ "--" ++ s.name ++ (if s.takesValue then " <PATH>" else "") ++ "\n"

def helpText : Option Verb → String
  | none =>
    "Generate typed Rust bindings from protocol descriptions\n\n" ++
      s!"Usage: {programName} [OPTIONS] <COMMAND>\n\nCommands:\n" ++
      String.join ([Verb.generate, .check, .methods].map fun v => s!"  {v.name}  {v.about}\n") ++
      "\nOptions:\n" ++ String.join (leadingSwitches.map switchLine)
  | some verb =>
    s!"{verb.about}\n\nUsage: {programName} {verb.name} [OPTIONS] --input <PATH>\n\nOptions:\n" ++
      String.join (verb.switches.map switchLine)

/-- Answer a command line that is not carried out. -/
def refuse (r : Refusal) : m Nat := do
  match r with
  | .usage => printError s!"error: invalid arguments\n\nFor more information, try '--help'.\n"
  | .help verb => let _ ← print (helpText verb)
  | .version => let _ ← print s!"{programName} {version}\n"
  return r.exitCode

/-- Install the logger of the program. -/
def installLog (e : Environment) (verbose : Bool) : m Unit := do
  let settings : Log.Settings :=
    if verbose then { Log.Settings.generator e.logFilter with filter := "debug" }
    else Log.Settings.generator e.logFilter
  match ← (Log.install e.directories settings false).run with
  | .ok () => setLogFilter settings.filter
  | .error failure => printError s!"Failed to initialize logging: {failure.message}\n"

/-- Run the program. -/
def run (e : Environment) (args : List String) : m Nat := do
  match Invocation.parse e.settingsFile args with
  | .error refusal => refuse refusal
  | .ok invocation =>
    installLog e invocation.verbose
    match ← (invocation.run e.directories).run with
    | .ok code => return code
    | .error failure =>
      printError (failure.message ++ "\n")
      return 1

end InspectorProtocol.CommandLine

import InspectorProtocol.CommandLine.Program

/-!
# The generator on a real machine

`IO` as a host, and the entry point: arguments and environment go to `CommandLine.run`, whose result
is the exit code.
-/

namespace InspectorProtocol

/-- The fault that an error of the system is. -/
def IoFault.ofError : IO.Error → IoFault
  | .noFileOrDirectory .. => .notFound
  | .alreadyExists .. => .alreadyExists
  | .resourceVanished .. => .brokenSocket
  | e => .reported (toString e)

/-- A real machine, with the filter of its log if there is one. -/
abbrev Console := StateT (Option String) IO

namespace Console

/-- Do something, and catch the error of the system. -/
def guarded {α : Type} (action : IO α) : Console (Except IoFault α) := do
  try return .ok (← action)
  catch e => return .error (.ofError e)

/-- The names in a directory; the empty path names none. -/
def namesIn (path : String) : Console (Except IoFault (List String)) := do
  if path.isEmpty then return .error .notFound
  guarded do return (← ((← IO.currentDir) / path).readDir).toList.map (·.fileName)

def warn (text : String) : Console Unit := do (← IO.getStderr).putStr text

instance : Host Console where
  pathExists path := do return !path.isEmpty && (← ((← IO.currentDir) / path).pathExists)
  readFile path := guarded do return (← IO.FS.readBinFile path).toList
  listDirectory := namesIn
  writeFile path contents := guarded (IO.FS.writeBinFile path ⟨contents.toArray⟩)
  touchFile path := guarded do let _ ← IO.FS.Handle.mk path .append
  createDirectories path := guarded (IO.FS.createDirAll path)
  removeFile path := guarded (IO.FS.removeFile path)
  print text := guarded do
    let out ← IO.getStdout
    out.putStr text
    out.flush
  printError := warn
  setLogFilter filter := set (some filter)
  logEvent e := do if (← get).any (Log.enables · e) then warn e.line

/-- The part of the environment that the program looks at. -/
def environment : IO CommandLine.Environment := do
  return {
    directories := {
      home := (← IO.getEnv "HOME").getD "/"
      configHome := ← IO.getEnv "XDG_CONFIG_HOME"
      stateHome := ← IO.getEnv "XDG_STATE_HOME" }
    settingsFile := ← IO.getEnv "DEBUGWIRE_CONFIG"
    logFilter := ← IO.getEnv Log.Settings.filterVariable }

end Console

end InspectorProtocol

/-- Run the generator. -/
def main (args : List String) : IO UInt32 := do
  let environment ← InspectorProtocol.Console.environment
  let code : InspectorProtocol.Console Nat := InspectorProtocol.CommandLine.run environment args
  return .ofNat (← code.run' none)

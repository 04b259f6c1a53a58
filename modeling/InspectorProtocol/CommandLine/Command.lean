import InspectorProtocol.CommandLine.Arguments
import InspectorProtocol.Description.Decode
import InspectorProtocol.Log.Event
import InspectorProtocol.SettingsFile
import InspectorProtocol.Source.Output

/-!
# Commands

Every command reads its input files and merges their descriptions, an earlier file winning over a
later one. `generate` writes bindings, `check` only reports what would be left out, and `methods`
lists wire methods. The result of a command is its exit code.
-/

namespace InspectorProtocol.CommandLine

open Host

variable {m : Type → Type} [Monad m] [Host m]

/-- Print a text. -/
def say (text : String) : Action m Unit := attempt .io (print text)

/-- The description in a file. -/
def loadDescription (path : String) : Action m Description := do
  match Text.Utf8.decode (← attempt (.fileRead path) (readFile path)) with
  | .error _ => throw (.fileRead path .notUtf8)
  | .ok text => (Description.ofText text).mapError (Failure.ofDescriptionError (some path))

/-- Merge further files into a description. -/
def mergeFiles (d : Description) : List String → Action m Description
  | [] => return d
  | path :: rest => do mergeFiles (d.merge (← loadDescription path)).1 rest

/-- The description that input files make together. -/
def loadInputs : List String → Action m Description
  | [] => throw (.config "no protocol description given")
  | path :: rest => do
    let d ← mergeFiles (← loadDescription path) rest
    log ⟨.debug, "debugwire_codegen::commands",
      s!"Loaded {d.domains.length} domains ({d.itemCount} items) from {rest.length + 1} files"⟩
    return d

/-- The lines about what was generated and what was left out. -/
def reportText (r : Report) : String :=
  s!"Generated {r.generated} bindings, skipped {r.skipped.length} items\n" ++
    String.join (r.skipped.map fun item =>
      s!"  skipped {item.kind.name} {item.domain}.{item.item}: {item.reason.message}\n")

/-- Log what generating came to. -/
def logReport (d : Description) (r : Report) : Action m Unit := do
  for item in r.skipped do
    log ⟨.warn, "debugwire_schema::emitter",
      s!"Skipping {item.kind.name} {item.domain}.{item.item}: {item.reason.message}"⟩
  log ⟨.info, "debugwire_schema::emitter",
    s!"Generated {r.generated} bindings for protocol {d.version.text} ({r.skipped.length} skipped)"⟩

/-- The directory that `generate` writes to: one directory per version below the base, unless the
layout is flat. -/
def targetDir (base : String) (flat : Bool) (v : Description.Version) : String :=
  if flat then base else Path.join base v.moduleName

/-- A method in a list, in columns. -/
def methodLine (c : MethodConstant) : String :=
  let kind := c.kind.name
  kind ++ String.ofList (List.replicate (8 - kind.length) ' ') ++ " " ++ c.method ++ "\n"

/-- The exit code of `check` if something would be left out. -/
def incompleteCode : Nat := 2

def generate (settings : Settings) (inputs : List String) (out : Option String) (flat : Bool) :
    Action m Nat := do
  let d ← loadInputs inputs
  let dir := targetDir (out.getD settings.outputDir) flat d.version
  log ⟨.info, "debugwire_codegen::commands",
    s!"Generating protocol {d.version.text} bindings into {dir}"⟩
  let (report, files) ← Source.compileTo settings d dir
  logReport d report
  say (reportText report)
  say s!"Wrote {files.written.length} files to {dir} ({files.removed.length} stale removed)\n"
  return 0

def check (settings : Settings) (inputs : List String) : Action m Nat := do
  let d ← loadInputs inputs
  let report := (Bindings.generate settings d).report
  logReport d report
  say (reportText report)
  return if report.isClean then 0 else incompleteCode

def methods (settings : Settings) (inputs : List String) (only : Option MethodKind) :
    Action m Nat := do
  let d ← loadInputs inputs
  let bindings := Bindings.generate settings d
  logReport d bindings.report
  let listed := bindings.methods.filter fun c => only.all (· == c.kind)
  say (String.join (listed.map methodLine))
  return 0

/-- Carry out a command with given settings. -/
def Command.run (settings : Settings) : Command → Action m Nat
  | .generate inputs out flat noDocs =>
    CommandLine.generate
      (if noDocs then { settings with docComments := false } else settings) inputs out flat
  | .check inputs => CommandLine.check settings inputs
  | .methods inputs only => CommandLine.methods settings inputs only

/-- Carry out a command line: the settings come from its own file or from the user's, which may be
missing or wrong. -/
def Invocation.run (directories : Directories) (i : Invocation) : Action m Nat := do
  let settings ← match i.config with
    | some path => SettingsFile.generator path
    | none => SettingsFile.orDefault (SettingsFile.generator directories.configFile) {}
  i.command.run settings

end InspectorProtocol.CommandLine

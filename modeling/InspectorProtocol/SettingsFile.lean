import InspectorProtocol.Directories
import InspectorProtocol.Files.Host
import InspectorProtocol.Session.Config
import InspectorProtocol.Settings
import InspectorProtocol.Toml.Document

/-!
# The settings file

Settings are read from one TOML file with a table for each part of the program. What is missing, the
file included, has its default; what is there must have the right shape.
-/

namespace InspectorProtocol

open Host

private def string? : Toml.Value → Option String
  | .string text => some text
  | _ => none

private def boolean? : Toml.Value → Option Bool
  | .boolean truth => some truth
  | _ => none

private def natural? : Toml.Value → Option Nat
  | .integer number => number.toNat?
  | _ => none

/-- The field of a record, or its default if it is missing. -/
private def fieldOr {α : Type} (fields : Toml.Members) (name : String)
    (read : Toml.Value → Option α) (default : α) : Option α :=
  match fields.lookup name with
  | none => some default
  | some value => read value

/-- The name of a choice, which may be written as a table or array without content under it. -/
private def choice? : Toml.Value → Option String
  | .string name => some name
  | .table _ [(name, .table _ [])] => some name
  | .table _ [(name, .array [])] => some name
  | _ => none

def Replacement.ofToml? (v : Toml.Value) : Option Replacement := do ofName? (← choice? v)

def Override.ofToml? (v : Toml.Value) : Option Override := do
  let fields ← v.fields? ["domain", "type", "rust_type"]
  return {
    domain := ← string? (← fields.lookup "domain")
    type := ← string? (← fields.lookup "type")
    replacement := ← Replacement.ofToml? (← fields.lookup "rust_type") }

/-- The settings of the generator. -/
def Settings.ofToml? (v : Toml.Value) : Option Settings := do
  let fields ← v.fields? ["output_dir", "doc_comments", "overrides"]
  let default : Settings := {}
  return {
    outputDir := ← fieldOr fields "output_dir" string? default.outputDir
    docComments := ← fieldOr fields "doc_comments" boolean? default.docComments
    overrides := ← fieldOr fields "overrides" (fun v => do (← v.items?).mapM Override.ofToml?)
      default.overrides }

private def remotes? (v : Toml.Value) : Option (List (String × String)) := do
  (← v.members?).mapM fun (name, address) => do return (name, ← string? address)

/-- The settings of a session. -/
def Session.Config.ofToml? (v : Toml.Value) : Option Session.Config := do
  let fields ← v.fields?
    ["connect_timeout_ms", "max_message_size", "outgoing_queue_capacity", "remotes"]
  let default : Session.Config := {}
  return {
    connectTimeout := ← fieldOr fields "connect_timeout_ms" natural? default.connectTimeout
    maxMessageSize := ← fieldOr fields "max_message_size" natural? default.maxMessageSize
    queueCapacity := ← fieldOr fields "outgoing_queue_capacity" natural? default.queueCapacity
    remotes := ← fieldOr fields "remotes" remotes? default.remotes }

namespace SettingsFile

/-- One table of a settings text. -/
def parsePart? {α : Type} (name : String) (read : Toml.Value → Option α) (default : α)
    (text : String) : Option α := do
  fieldOr (← Toml.parse? text) name read default

variable {m : Type → Type} [Monad m] [Host m] {α : Type}

/-- One table of a settings file. -/
def loadPart (path name : String) (read : Toml.Value → Option α) (default : α) : Action m α := do
  if !(← ExceptT.lift (pathExists path)) then return default
  match Text.Utf8.decode (← attempt (.fileRead path) (readFile path)) with
  | .error _ => throw (.fileRead path .notUtf8)
  | .ok text =>
    match parsePart? name read default text with
    | some settings => return settings
    | none => throw (.invalidConfig path ("no valid table " ++ name))

/-- The settings of the generator in a file. -/
def generator (path : String) : Action m Settings := loadPart path "codegen" Settings.ofToml? {}

/-- The settings of sessions in a file. -/
def session (path : String) : Action m Session.Config :=
  loadPart path "session" Session.Config.ofToml? {}

/-- Settings, or their defaults if they cannot be read. -/
def orDefault (settings : Action m α) (default : α) : Action m α :=
  tryCatch settings fun _ => return default

end SettingsFile

end InspectorProtocol

import InspectorProtocol.Text.Ascii
import InspectorProtocol.TypeRef

/-!
# Settings of the generator

Where bindings are written, whether they carry documentation, and which declared types are
replaced by a fixed one. The first override that matches a type counts; domains match up to the
case of ASCII letters, types exactly.
-/

namespace InspectorProtocol

/-- A type that may stand in for a declared one. -/
inductive Replacement where
  | stringMap
  | openMap
  | any
  | string
  deriving DecidableEq, Repr

def Replacement.name : Replacement → String
  | .stringMap => "string_map"
  | .openMap => "open_map"
  | .any => "any"
  | .string => "string"

def Replacement.ofName? (name : String) : Option Replacement :=
  [stringMap, openMap, any, string].find? (·.name == name)

def Replacement.typeRef : Replacement → TypeRef
  | .stringMap => .stringMap
  | .openMap => .openMap
  | .any => .any
  | .string => .string

/-- Replaces one declared type. -/
structure Override where
  domain : String
  type : String
  replacement : Replacement
  deriving DecidableEq, Repr

def Override.applies (o : Override) (domain type : String) : Bool :=
  Text.sameIgnoringCase o.domain domain && o.type == type

structure Settings where
  outputDir : String := "src/generated"
  docComments : Bool := true
  /-- header values are free strings keyed by header name -/
  overrides : List Override := [⟨"Network", "Headers", .stringMap⟩]
  deriving DecidableEq, Repr

def Settings.override? (s : Settings) (domain type : String) : Option Replacement :=
  (s.overrides.find? (·.applies domain type)).map (·.replacement)

end InspectorProtocol

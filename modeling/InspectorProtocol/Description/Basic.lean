import InspectorProtocol.Text.Ascii
import InspectorProtocol.Total

/-!
# Protocol descriptions

A description lists the domains of a remote debugging protocol, and for each domain its types,
commands and events. Look-ups ignore the case of ASCII letters and find the first match.
-/

namespace InspectorProtocol

namespace Description

/-- The kind of value a descriptor stands for. -/
inductive Kind where
  | number
  | integer
  | boolean
  | string
  | any
  | object
  | array
  /-- a kind this library does not know -/
  | unknown
  deriving DecidableEq, Repr

/-- A named member of an object, a parameter or a returned value. `ι` describes the elements of an
array. -/
structure PropertyOf (ι : Type) where
  name : String := ""
  kind : Option Kind := none
  reference : Option String := none
  items : Option ι := none
  values : List String := []
  optional : Bool := false
  deprecated : Bool := false
  experimental : Bool := false
  description : Option String := none

/-- The elements of an array: a reference, a primitive, an inline object or a nested array. -/
structure Items where
  kind : Option Kind := none
  reference : Option String := none
  properties : List (PropertyOf Items) := []
  items : Option Items := none

abbrev Property := PropertyOf Items

/-- A declared type. -/
structure TypeDecl where
  name : String := ""
  kind : Kind := .unknown
  description : Option String := none
  properties : List Property := []
  values : List String := []
  items : Option Items := none
  deprecated : Bool := false
  experimental : Bool := false

structure CommandDecl where
  name : String := ""
  description : Option String := none
  parameters : List Property := []
  returns : List Property := []
  deprecated : Bool := false
  experimental : Bool := false

structure EventDecl where
  name : String := ""
  description : Option String := none
  parameters : List Property := []
  deprecated : Bool := false
  experimental : Bool := false

structure Domain where
  name : String := ""
  description : Option String := none
  types : List TypeDecl := []
  commands : List CommandDecl := []
  events : List EventDecl := []
  dependencies : List String := []
  experimental : Bool := false
  deprecated : Bool := false

structure Version where
  major : String := ""
  minor : String := ""
  deriving DecidableEq, Repr

end Description

open Description Text

structure Description where
  version : Version := {}
  domains : List Domain := []

namespace Description

/-- The version as it is shown, such as `1.3`. -/
def Version.text (v : Version) : String := v.major ++ "." ++ v.minor

/-- The name of the module for a version, such as `v1_3`. -/
def Version.moduleName (v : Version) : String := "v" ++ v.major ++ "_" ++ v.minor

namespace Domain

def type? (d : Domain) (name : String) : Option TypeDecl :=
  d.types.find? (sameIgnoringCase ·.name name)

def command? (d : Domain) (name : String) : Option CommandDecl :=
  d.commands.find? (sameIgnoringCase ·.name name)

def event? (d : Domain) (name : String) : Option EventDecl :=
  d.events.find? (sameIgnoringCase ·.name name)

def itemCount (d : Domain) : Nat := d.types.length + d.commands.length + d.events.length

end Domain

def domain? (d : Description) (name : String) : Option Domain :=
  d.domains.find? (sameIgnoringCase ·.name name)

/-- The number of declared types, commands and events. -/
def itemCount (d : Description) : Nat := total Domain.itemCount d.domains

/-- Add one domain unless one with its name is there; the names of those left out are collected. -/
def addDomain (state : Description × List String) (domain : Domain) : Description × List String :=
  let (d, skipped) := state
  if (d.domain? domain.name).isSome then (d, skipped ++ [domain.name])
  else ({ d with domains := d.domains ++ [domain] }, skipped)

/-- Add the domains of another description, and report the names of those already there. -/
def merge (base other : Description) : Description × List String :=
  other.domains.foldl addDomain (base, [])

end Description

end InspectorProtocol

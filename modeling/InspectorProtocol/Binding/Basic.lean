import InspectorProtocol.Catalogue

/-!
# Bindings

A binding is one item of generated source: a record, an enumeration, an alias, or the record of a
request, response or event payload. The bindings of a domain come with the constants for its wire
methods; a report counts the bindings and names what was left out and why.
-/

namespace InspectorProtocol

open Description Text

/-- Whether a wire method is called by the client or announced by the remote process. -/
inductive MethodKind where
  | command
  | event
  deriving DecidableEq, Repr

def MethodKind.name : MethodKind → String
  | .command => "command"
  | .event => "event"

inductive BindingKind where
  | record
  | enumeration
  | alias
  | request
  | response
  | payload
  deriving DecidableEq, Repr

/-- What an attribute says to the codec that is derived for a member. -/
inductive Attribute where
  /-- another name on the wire than the identifier -/
  | rename (name : String)
  /-- a default for a member that is missing -/
  | default
  /-- no member for an option without a value -/
  | skipIfNone
  deriving DecidableEq, Repr

namespace Attribute

def name? : Attribute → Option String
  | .rename name => some name
  | .default | .skipIfNone => none

/-- What a member is called on the wire: what its attributes say, or else its identifier without
the raw marker. -/
def memberName (attributes : List Attribute) (ident : String) : String :=
  (attributes.findSome? name?).getD (Identifier.bare ident)

end Attribute

structure Field where
  ident : String
  wireName : String
  type : TypeRef
  optional : Bool
  /-- part of a cycle of references, so stored behind a pointer -/
  boxed : Bool := false
  description : Option String
  deprecated : Bool
  experimental : Bool
  deriving DecidableEq, Repr

namespace Field

/-- Whether the identifier does not already spell the wire name. -/
def isRenamed (f : Field) : Bool := Identifier.bare f.ident != f.wireName

/-- The type of a field as source in the module of a domain. -/
def source (here : String) (f : Field) : String :=
  let type := f.type.source here
  let type := if f.boxed then "Box<" ++ type ++ ">" else type
  if f.optional then "Option<" ++ type ++ ">" else type

def attributes (f : Field) : List Attribute :=
  (if f.isRenamed then [.rename f.wireName] else []) ++
    (if f.optional then [.default, .skipIfNone] else [])

def memberName (f : Field) : String := Attribute.memberName f.attributes f.ident

/-- Whether there is no member for the field if it has no value. -/
def skipsNone (f : Field) : Bool := f.attributes.contains .skipIfNone

end Field

structure Variant where
  ident : String
  wireValue : String
  deriving DecidableEq, Repr

namespace Variant

def isRenamed (v : Variant) : Bool := v.ident != v.wireValue

def attributes (v : Variant) : List Attribute := if v.isRenamed then [.rename v.wireValue] else []

def memberName (v : Variant) : String := Attribute.memberName v.attributes v.ident

end Variant

structure Binding where
  name : String
  kind : BindingKind
  /-- the wire method of a request, response or payload -/
  method : Option String := none
  /-- the name of a request's response -/
  response : Option String := none
  description : Option String := none
  deprecated : Bool := false
  experimental : Bool := false
  fields : List Field := []
  variants : List Variant := []
  /-- what an alias stands for -/
  target : Option TypeRef := none
  deriving DecidableEq, Repr

namespace Binding

def field? (b : Binding) (wireName : String) : Option Field :=
  b.fields.find? (·.wireName == wireName)

/-- The types a binding refers to. -/
def references (b : Binding) : List TypeRef := b.fields.map (·.type) ++ b.target.toList

end Binding

/-- The constant for a wire method. -/
structure MethodConstant where
  ident : String
  method : String
  kind : MethodKind
  /-- the request of a command, the payload of an event -/
  type : String
  deriving DecidableEq, Repr

structure DomainBindings where
  name : String
  module : String
  description : Option String
  deprecated : Bool
  experimental : Bool
  bindings : List Binding
  methods : List MethodConstant
  deriving DecidableEq, Repr

def DomainBindings.binding? (d : DomainBindings) (name : String) : Option Binding :=
  d.bindings.find? (·.name == name)

inductive ItemKind where
  | domain
  | type
  | command
  | event
  deriving DecidableEq, Repr

def ItemKind.name : ItemKind → String
  | .domain => "domain"
  | .type => "type"
  | .command => "command"
  | .event => "event"

/-- An item of a description that has no binding. -/
structure Skipped where
  domain : String
  item : String
  kind : ItemKind
  reason : Failure

structure Report where
  /-- the number of bindings -/
  generated : Nat
  skipped : List Skipped

def Report.isClean (r : Report) : Bool := r.skipped.isEmpty

/-- The bindings of a whole description. -/
structure Bindings where
  version : Version
  domains : List DomainBindings
  report : Report

namespace Bindings

def domain? (b : Bindings) (name : String) : Option DomainBindings :=
  b.domains.find? (sameIgnoringCase ·.name name)

def binding? (b : Bindings) (domain name : String) : Option Binding :=
  (b.domain? domain).bind (·.binding? name)

/-- The method constants in order of generation. -/
def methods (b : Bindings) : List MethodConstant := (b.domains.map (·.methods)).flatten

end Bindings

end InspectorProtocol

import InspectorProtocol.Binding.Value
import InspectorProtocol.Text.Quoted

/-!
# Method maps

A method map tells for a wire method whether it is a command or an event, and of what type its
response or payload is. Each method is in the map once: a later registration replaces an earlier
one. Names are compared exactly.
-/

namespace InspectorProtocol

/-- What is known of a wire method. -/
structure MethodEntry where
  kind : MethodKind
  /-- the domain in whose module the type is -/
  domain : String
  /-- the type of a command's response, or of an event's payload -/
  type : Binding

namespace MethodEntry

def kindName (e : MethodEntry) : String :=
  match e.kind with
  | .command => "Command"
  | .event => "Event"

/-- The path of the type below the module that holds the modules of the domains. -/
def typePath (e : MethodEntry) (root : String) : String :=
  root ++ "::" ++ Identifier.moduleName e.domain ++ "::" ++ e.type.name

/-- An entry, or its absence, as it is shown in diagnostics. -/
def describe (root : String) : Option MethodEntry → String
  | none => "None"
  | some e =>
    "Some(MethodEntry \x7b kind: " ++ e.kindName ++ ", type_name: " ++
      Text.quoted (e.typePath root) ++ " \x7d)"

end MethodEntry

structure MethodMap where
  entries : List (String × MethodEntry) := []

namespace MethodMap

/-- Register a method, in the place of an earlier registration. -/
def insert (m : MethodMap) (method : String) (entry : MethodEntry) : MethodMap :=
  ⟨m.entries.filter (·.1 != method) ++ [(method, entry)]⟩

def lookup (m : MethodMap) (method : String) : Option MethodEntry := m.entries.lookup method

def size (m : MethodMap) : Nat := m.entries.length

def isEmpty (m : MethodMap) : Bool := m.entries.isEmpty

/-- The methods in order. -/
def methods (m : MethodMap) : List String :=
  (m.entries.map (·.1)).mergeSort fun a b => a ≤ b

/-- Read the parameters of an event; nothing if the method is not known as an event. -/
def decodeEvent? (m : MethodMap) (bindings : Bindings) (method : String) (params : Json) :
    Option (Except Json.DecodeError Value) :=
  match m.lookup method with
  | some ⟨.event, _, type⟩ => some (bindings.decodeRecord type params)
  | _ => none

end MethodMap

namespace Bindings

/-- The entry of a method constant of a domain. -/
def entryOf? (d : DomainBindings) (c : MethodConstant) : Option MethodEntry := do
  let type ← d.binding? c.type
  match c.kind with
  | .event => return ⟨.event, d.name, type⟩
  | .command => return ⟨.command, d.name, ← d.binding? (← type.response)⟩

/-- The methods of all domains with their entries, in order of generation. -/
def registrations (b : Bindings) : List (String × MethodEntry) :=
  (b.domains.map fun d => d.methods.filterMap fun c =>
    (entryOf? d c).map (c.method, ·)).flatten

/-- The map of all methods. -/
def methodMap (b : Bindings) : MethodMap :=
  b.registrations.foldl (fun m (method, entry) => m.insert method entry) {}

/-- The domain and the request of a command. -/
def request? (b : Bindings) (method : String) : Option Binding :=
  b.domains.findSome? fun d =>
    (d.methods.find? fun c => c.kind = .command && c.method == method).bind
      fun c => d.binding? c.type

/-- The entry that a command or event of this method has. -/
def registration? (b : Bindings) (kind : MethodKind) (method : String) : Option MethodEntry :=
  (b.registrations.find? fun (name, entry) => name == method && entry.kind = kind).map (·.2)

end Bindings

/-- The failure of a method's value that does not fit its type. -/
def Failure.ofValueError (method : String) : Json.DecodeError → Failure
  | .mismatch reason => .decode method reason.message
  | .malformed => .decode method "not a JSON value"

end InspectorProtocol

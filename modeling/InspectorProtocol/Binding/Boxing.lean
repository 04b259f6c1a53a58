import InspectorProtocol.Binding.Basic
import InspectorProtocol.Graph

/-!
# Boxing of recursive fields

A field that holds a named type by value makes the size of its record depend on that type. Where
such references lead back to the record, the field is put behind a pointer, so that every type has
a finite size. Lists already hold their elements elsewhere and are left alone.
-/

namespace InspectorProtocol

namespace Boxing

/-- The bindings of all domains as pairs of domain and name, each once. -/
def nodes (domains : List DomainBindings) : List (String × String) :=
  ((domains.map fun d => d.bindings.map fun b => (d.name, b.name)).flatten).eraseDups

/-- The binding that a type holds by value. -/
def target? (nodes : List (String × String)) : TypeRef → Option Nat
  | .named domain name => nodes.idxOf? (domain, Identifier.typeName name)
  | _ => none

/-- The bindings that a binding holds by value. -/
def targets (nodes : List (String × String)) (b : Binding) : List Nat :=
  b.references.filterMap (target? nodes)

/-- The graph of references by value; bindings of one name share a node. -/
def graph (nodes : List (String × String)) (domains : List DomainBindings) : Graph :=
  ⟨nodes.map fun (domain, name) =>
    (domains.map fun d =>
      if d.name == domain then
        ((d.bindings.filter (·.name == name)).map (targets nodes)).flatten
      else []).flatten⟩

/-- Box the fields of a binding that lead back to it. -/
def boxBinding (nodes : List (String × String)) (component : List Nat) (domain : String)
    (b : Binding) : Binding :=
  let here := (nodes.idxOf? (domain, b.name)).bind (component[·]?)
  { b with
    fields := b.fields.map fun f =>
      match target? nodes f.type with
      | some v => if here.isSome && component[v]? == here then { f with boxed := true } else f
      | none => f }

/-- Box every field that leads back to its owner by value. -/
def boxAll (domains : List DomainBindings) : List DomainBindings :=
  let nodes := nodes domains
  let component := (graph nodes domains).components
  domains.map fun d => { d with bindings := d.bindings.map (boxBinding nodes component d.name) }

end Boxing

end InspectorProtocol

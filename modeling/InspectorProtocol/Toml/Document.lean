import InspectorProtocol.Toml.Statement

/-!
# Documents

The statements of a text make its table, from the first to the last. A header says which table the
keys after it belong to; before the first header it is the document itself.
-/

namespace InspectorProtocol.Toml

/-- A document as far as it has been made. -/
structure Draft where
  members : Members := []
  /-- the path of the last header -/
  current : List String := []

/-- Carry out a statement. -/
def Draft.step (d : Draft) : Statement → Option Draft
  | .header path => do return { members := ← d.members.define path, current := path }
  | .arrayHeader path => do return { members := ← d.members.append path, current := path }
  | .pair path value => do
    return { d with members := ←
      d.members.change false (fun _ inner => Members.assign path value inner) .headed d.current }

/-- The table of a text. -/
def parse? (text : String) : Option Members := do
  return (← (← Statement.ofText? text).foldlM Draft.step {}).members

end InspectorProtocol.Toml

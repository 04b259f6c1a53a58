import InspectorProtocol.Toml.Basic

/-!
# Tables in the making

Headers and keys lead through tables, which are made on the way if they are missing. A table can be
defined once: a header may define a table that so far was only implied by the ones inside it, and a
dotted key may only add to tables that dotted keys have made.
-/

namespace InspectorProtocol.Toml

abbrev Members := List (String × Value)

namespace Members

/-- The members with a name given a value, in its old place or at the end. -/
def put (name : String) (value : Value) : Members → Members
  | [] => [(name, value)]
  | (other, old) :: rest =>
    if other = name then (name, value) :: rest else (other, old) :: put name value rest

/-- A table that a path leads through: its form, its members, and the value again from other
members. The tables of a header in double brackets stand for the last of them. -/
def inside? (byKey : Bool) : Value → Option (Form × Members × (Members → Value))
  | .table form members =>
    if form = .braced || (byKey && form = .headed) then none
    else some (form, members, .table form)
  | .tables (.table form members :: earlier) =>
    some (form, members, fun members => .tables (.table form members :: earlier))
  | _ => none

/-- The table at a name, which is made if it is missing. -/
def enter? (byKey : Bool) (name : String) (members : Members) :
    Option (Form × Members × (Members → Value)) :=
  match members.lookup name with
  | some value => inside? byKey value
  | none =>
    let made : Form := if byKey then .dotted else .implied
    some (made, [], .table made)

/-- Change the table that a path leads to. `f` is told the form of the table. -/
def change (byKey : Bool) (f : Form → Members → Option Members) (form : Form) :
    List String → Members → Option Members
  | [], members => f form members
  | name :: path, members => do
    let (found, inner, again) ← enter? byKey name members
    return put name (again (← change byKey f found path inner)) members

/-- Put a value at a key, whose last name must be free. -/
def assign (path : List String) (value : Value) (members : Members) : Option Members :=
  match path.getLast? with
  | none => none
  | some name =>
    change true (fun form inner =>
      if 1 < path.length && form ≠ .dotted then none
      else if (inner.lookup name).isSome then none
      else some (put name value inner)) .headed path.dropLast members

/-- Define the table of a header. -/
def define (path : List String) (members : Members) : Option Members :=
  match path.getLast? with
  | none => none
  | some name =>
    change false (fun _ inner =>
      match inner.lookup name with
      | none => some (put name (.table .headed []) inner)
      | some (.table .implied old) => some (put name (.table .headed old) inner)
      | _ => none) .headed path.dropLast members

/-- Add a table to those of a header in double brackets. -/
def append (path : List String) (members : Members) : Option Members :=
  match path.getLast? with
  | none => none
  | some name =>
    change false (fun _ inner =>
      match inner.lookup name with
      | none => some (put name (.tables [.table .headed []]) inner)
      | some (.tables items) => some (put name (.tables (.table .headed [] :: items)) inner)
      | _ => none) .headed path.dropLast members

end Members

end InspectorProtocol.Toml

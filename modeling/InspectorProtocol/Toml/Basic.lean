/-!
# TOML values

A TOML document is a table: names with values. How a table came into being decides whether later
lines of the document may add to it.
-/

namespace InspectorProtocol.Toml

/-- How a table came into being. -/
inductive Form where
  /-- in braces; complete as it stands -/
  | braced
  /-- by a header of its own -/
  | headed
  /-- by a header of a table inside it -/
  | implied
  /-- by a dotted key -/
  | dotted
  deriving DecidableEq, Repr

inductive Value where
  | string (text : String)
  | integer (number : Int)
  /-- a number with a fraction or exponent, as it is written -/
  | float (text : String)
  | boolean (truth : Bool)
  /-- a date, a time or both, in canonical form -/
  | moment (text : String)
  | array (items : List Value)
  | table (form : Form) (members : List (String × Value))
  /-- the tables made by headers in double brackets, last first -/
  | tables (items : List Value)
  deriving Repr

namespace Value

/-- The member that stands for a date where a table is asked for. -/
def momentMember : String := "$__toml_private_datetime"

/-- The members of a table. -/
def members? : Value → Option (List (String × Value))
  | .table _ members => some members
  | .moment text => some [(momentMember, .string text)]
  | _ => none

/-- The elements of an array, in order. -/
def items? : Value → Option (List Value)
  | .array items => some items
  | .tables items => some items.reverse
  | _ => none

/-- The fields of a record with these names, which may be written as a table or as an array in the
order of the names. -/
def fields? (names : List String) (v : Value) : Option (List (String × Value)) :=
  match v.items? with
  | some items => if items.length ≤ names.length then some (names.zip items) else none
  | none => v.members?

end Value

end InspectorProtocol.Toml

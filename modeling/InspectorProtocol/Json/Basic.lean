import InspectorProtocol.Decimal.Binary64

/-!
# JSON values

A number is an integer of 64 bits, signed or unsigned, or a finite double. The members of an
object are kept sorted by name, each name once; `Json.ofMembers` builds them, a later member taking
the place of an earlier one with its name.
-/

namespace InspectorProtocol

namespace Json

inductive Number where
  | int (value : Int)
  | float (value : Decimal.Binary64)
  deriving DecidableEq, Repr

end Json

inductive Json where
  | null
  | bool (value : Bool)
  | number (value : Json.Number)
  | string (value : String)
  | array (items : List Json)
  | object (members : List (String × Json))

namespace Json

/-- Put a member into a sorted list of members, in the place of one with its name. -/
def insertMember (name : String) (value : Json) : List (String × Json) → List (String × Json)
  | [] => [(name, value)]
  | (other, old) :: rest =>
    if name < other then (name, value) :: (other, old) :: rest
    else if name = other then (name, value) :: rest
    else (other, old) :: insertMember name value rest

/-- The object with these members, the last of each name. -/
def ofMembers (members : List (String × Json)) : Json :=
  .object (members.foldl (fun acc (name, value) => insertMember name value acc) [])

/-- The member of an object, or nothing. -/
def get? (name : String) : Json → Option Json
  | .object members => members.lookup name
  | _ => none

def ofInt (value : Int) : Json := .number (.int value)

def ofNat (value : Nat) : Json := .number (.int value)

/-- The value, or null for nothing. -/
def ofOption {α : Type} (encode : α → Json) : Option α → Json
  | none => .null
  | some value => encode value

def ofOptionString : Option String → Json := ofOption .string

/-- The largest nesting of arrays and objects. -/
def depth : Json → Nat
  | .array items => depthItems items + 1
  | .object members => depthMembers members + 1
  | _ => 0
where
  depthItems : List Json → Nat
    | [] => 0
    | item :: rest => max item.depth (depthItems rest)
  depthMembers : List (String × Json) → Nat
    | [] => 0
    | (_, value) :: rest => max value.depth (depthMembers rest)

end Json

end InspectorProtocol

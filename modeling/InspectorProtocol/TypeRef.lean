import InspectorProtocol.Identifier.Case

/-!
# Type references

What a descriptor of a description stands for in generated source: a primitive, a map, a list, or
a named type of some domain. `TypeRef.source` writes it as Rust, seen from the module of one
domain.
-/

namespace InspectorProtocol

inductive TypeRef where
  | float
  | integer
  | boolean
  | string
  | any
  /-- an object with values of any kind -/
  | openMap
  /-- an object with string values -/
  | stringMap
  | list (element : TypeRef)
  /-- a declared type, or one made up for the elements of an array -/
  | named (domain name : String)
  deriving DecidableEq, Repr

namespace TypeRef

/-- The named type at the bottom of a reference. -/
def named? : TypeRef → Option (String × String)
  | .list element => element.named?
  | .named domain name => some (domain, name)
  | _ => none

def isNamed : TypeRef → Bool
  | .named _ _ => true
  | _ => false

/-- The reference as source in the module of `domain`. -/
def source (here : String) : TypeRef → String
  | .float => "f64"
  | .integer => "i64"
  | .boolean => "bool"
  | .string => "String"
  | .any => "serde_json::Value"
  | .openMap => "serde_json::Map<String, serde_json::Value>"
  | .stringMap => "std::collections::HashMap<String, String>"
  | .list element => "Vec<" ++ element.source here ++ ">"
  | .named domain name =>
    if domain == here then Identifier.typeName name
    else "super::" ++ Identifier.moduleName domain ++ "::" ++ Identifier.typeName name

end TypeRef

end InspectorProtocol

import InspectorProtocol.Description.Basic
import InspectorProtocol.Json.Printer

/-!
# Writing descriptions

A description is written back with the fields it was read from. Missing optional fields and empty
lists are left out, except the lists of a domain's types, commands and events; flags are always
written. A text has the fields in the order of the record, a value in memory has them sorted: the
encoders below are told how members become an object.
-/

namespace InspectorProtocol.Description

def Kind.name : Kind → String
  | .number => "number"
  | .integer => "integer"
  | .boolean => "boolean"
  | .string => "string"
  | .any => "any"
  | .object => "object"
  | .array => "array"
  | .unknown => "unknown"

/-- A member for an optional value. -/
def optionalMember (name : String) : Option Json → List (String × Json)
  | none => []
  | some value => [(name, value)]

/-- A member for a list that is not empty. -/
def listMember (name : String) : List Json → List (String × Json)
  | [] => []
  | items => [(name, .array items)]

def stringMember (name : String) (value : Option String) : List (String × Json) :=
  optionalMember name (value.map .string)

section Encoders

variable (object : List (String × Json) → Json)

mutual

def Items.encode : Items → Json
  | ⟨kind, reference, properties, items⟩ =>
    object
      (optionalMember "type" (kind.map fun k => .string k.name) ++ stringMember "$ref" reference ++
        listMember "properties" (encodeProperties properties) ++ itemsMember items)

def itemsMember : Option Items → List (String × Json)
  | none => []
  | some items => [("items", items.encode)]

def encodeProperties : List (PropertyOf Items) → List Json
  | [] => []
  | p :: rest => encodeProperty p :: encodeProperties rest

def encodeProperty : PropertyOf Items → Json
  | ⟨name, kind, reference, items, values, optional, deprecated, experimental, description⟩ =>
    object
      (("name", .string name) :: optionalMember "type" (kind.map fun k => .string k.name) ++
        stringMember "$ref" reference ++ itemsMember items ++
        listMember "enum" (values.map .string) ++
        [("optional", .bool optional), ("deprecated", .bool deprecated),
          ("experimental", .bool experimental)] ++
        stringMember "description" description)

end

def TypeDecl.encode (t : TypeDecl) : Json :=
  object
    ([("id", .string t.name), ("type", .string t.kind.name)] ++
      stringMember "description" t.description ++
      listMember "properties" (encodeProperties object t.properties) ++
      listMember "enum" (t.values.map .string) ++ itemsMember object t.items ++
      [("deprecated", .bool t.deprecated), ("experimental", .bool t.experimental)])

def CommandDecl.encode (c : CommandDecl) : Json :=
  object
    (("name", .string c.name) :: stringMember "description" c.description ++
      listMember "parameters" (encodeProperties object c.parameters) ++
      listMember "returns" (encodeProperties object c.returns) ++
      [("deprecated", .bool c.deprecated), ("experimental", .bool c.experimental)])

def EventDecl.encode (e : EventDecl) : Json :=
  object
    (("name", .string e.name) :: stringMember "description" e.description ++
      listMember "parameters" (encodeProperties object e.parameters) ++
      [("deprecated", .bool e.deprecated), ("experimental", .bool e.experimental)])

def Domain.encode (d : Domain) : Json :=
  object
    (("domain", .string d.name) :: stringMember "description" d.description ++
      [("types", .array (d.types.map (TypeDecl.encode object))),
        ("commands", .array (d.commands.map (CommandDecl.encode object))),
        ("events", .array (d.events.map (EventDecl.encode object)))] ++
      listMember "dependencies" (d.dependencies.map .string) ++
      [("experimental", .bool d.experimental), ("deprecated", .bool d.deprecated)])

def Version.encode (v : Version) : Json :=
  object [("major", .string v.major), ("minor", .string v.minor)]

def encode (d : Description) : Json :=
  object
    [("version", d.version.encode object),
      ("domains", .array (d.domains.map (Domain.encode object)))]

end Encoders

def propertiesToJson : List Property → List Json := encodeProperties .ofMembers

def TypeDecl.toJson : TypeDecl → Json := TypeDecl.encode .ofMembers

def CommandDecl.toJson : CommandDecl → Json := CommandDecl.encode .ofMembers

def EventDecl.toJson : EventDecl → Json := EventDecl.encode .ofMembers

/-- A description as a value, its members sorted. -/
def toJson : Description → Json := encode .ofMembers

/-- The text of a description, its members in the order of the fields. -/
def text (d : Description) : String := (d.encode .object).text

end InspectorProtocol.Description

import InspectorProtocol.Description.Basic
import InspectorProtocol.Failure
import InspectorProtocol.Settings

/-!
# Catalogue of declared types

References may point forward and into other domains, so all declared types are collected before
any is resolved. A reference `Domain.Name` names its domain; a bare `Name` means the type of the
current domain, or else that of the only domain that declares one. An array of inline objects has
no declared element type; a record is made up for it and handed back with the reference.
-/

namespace InspectorProtocol

open Text Description

/-- The declared types of the domains with one name, the latest declaration first. -/
structure CatalogueEntry where
  /-- the name as first declared -/
  name : String
  types : List (String × TypeRef)

/-- The declared types by domain; the key is the domain's name in small letters. -/
structure Catalogue where
  entries : List (String × CatalogueEntry) := []

/-- A record made up for the elements of an array. -/
structure InlineRecord where
  name : String
  properties : List Property

namespace Catalogue

/-- What a declared type is referred to by. -/
def declaration (settings : Settings) (domain : String) (type : TypeDecl) : String × TypeRef :=
  (type.name,
    match settings.override? domain type.name with
    | some replacement => replacement.typeRef
    | none => .named domain type.name)

/-- Add types to the entry of a key, or a new entry at the end. -/
def enter (key name : String) (types : List (String × TypeRef)) :
    List (String × CatalogueEntry) → List (String × CatalogueEntry)
  | [] => [(key, ⟨name, types⟩)]
  | (other, entry) :: rest =>
    if other == key then (other, { entry with types := types ++ entry.types }) :: rest
    else (other, entry) :: enter key name types rest

def addDomain (settings : Settings) (c : Catalogue) (domain : Domain) : Catalogue :=
  let types := (domain.types.map (declaration settings domain.name)).reverse
  ⟨enter (foldCase domain.name) domain.name types c.entries⟩

/-- The catalogue of a list of domains. -/
def ofDomains (settings : Settings) (domains : List Domain) : Catalogue :=
  domains.foldl (addDomain settings) {}

def entry? (c : Catalogue) (domain : String) : Option CatalogueEntry :=
  c.entries.lookup (foldCase domain)

def hasDomain (c : Catalogue) (domain : String) : Bool := (c.entry? domain).isSome

/-- A domain's name as declared. -/
def domainName? (c : Catalogue) (domain : String) : Option String :=
  (c.entry? domain).map (·.name)

def declared? (c : Catalogue) (domain type : String) : Option TypeRef :=
  (c.entry? domain).bind (·.types.lookup type)

/-- Whether a declared type is replaced by a fixed one. -/
def isOverridden (c : Catalogue) (domain type : String) : Bool :=
  (c.declared? domain type).any (!·.isNamed)

/-- What a type is referred to by in each domain that declares it. -/
def everywhere (c : Catalogue) (type : String) : List TypeRef :=
  c.entries.filterMap fun (_, entry) => entry.types.lookup type

/-- Resolve a reference made in a domain. -/
def resolveReference (c : Catalogue) (here reference : String) : Except Failure TypeRef :=
  let found : Option TypeRef :=
    match cutAt? '.' reference with
    | some (domain, type) => c.declared? domain type
    | none =>
      match c.declared? here reference with
      | some type => some type
      | none =>
        match c.everywhere reference with
        | [type] => some type
        | _ => none
  match found with
  | some type => .ok type
  | none => .error (.unresolvedReference here reference)

/-- The type of a primitive kind. -/
def primitive? : Kind → Option TypeRef
  | .number => some .float
  | .integer => some .integer
  | .boolean => some .boolean
  | .string => some .string
  | .any => some .any
  | .object => some .openMap
  | .array => none
  | .unknown => none

/-- Resolve the elements of an array to a list type. `record` names the record made up for inline
objects. -/
def resolveItems (c : Catalogue) (here record : String) :
    Items → Except Failure (TypeRef × List InlineRecord)
  | ⟨_, some reference, _, _⟩ => do
    return (.list (← c.resolveReference here reference), [])
  | ⟨some .array, none, _, nested⟩ =>
    match nested with
    | none => .error (.malformedDescriptor record .nestedArrayWithoutItems)
    | some nested => do
      let (inner, records) ← c.resolveItems here record nested
      return (.list inner, records)
  | ⟨some .object, none, p :: ps, _⟩ => .ok (.list (.named here record), [⟨record, p :: ps⟩])
  | ⟨none, none, p :: ps, _⟩ => .ok (.list (.named here record), [⟨record, p :: ps⟩])
  | ⟨none, none, [], _⟩ => .error (.malformedDescriptor record .itemsWithoutType)
  | ⟨some .unknown, none, _, _⟩ => .error (.malformedDescriptor record .unknownItemKind)
  | ⟨some kind, none, _, _⟩ =>
    match primitive? kind with
    | some type => .ok (.list type, [])
    | none => .error (.malformedDescriptor record .unsupportedItemKind)

/-- The name of the record for the inline elements of a property of `owner`. -/
def recordName (owner property : String) : String :=
  owner ++ Identifier.typeName property ++ "Item"

/-- Resolve a property of `owner`. -/
def resolveProperty (c : Catalogue) (here owner : String) (p : Property) :
    Except Failure (TypeRef × List InlineRecord) :=
  let malformed (fault : DescriptorFault) : Except Failure (TypeRef × List InlineRecord) :=
    .error (.malformedDescriptor (owner ++ "." ++ p.name) fault)
  match p.reference, p.kind with
  | some reference, _ => do return (← c.resolveReference here reference, [])
  | none, some .array =>
    match p.items with
    | none => malformed .arrayPropertyWithoutItems
    | some items => c.resolveItems here (recordName owner p.name) items
  | none, some .unknown => malformed .unknownTypeKind
  | none, some kind =>
    match primitive? kind with
    | some type => .ok (type, [])
    | none => malformed .unsupportedTypeKind
  | none, none => malformed .propertyWithoutType

end Catalogue

end InspectorProtocol

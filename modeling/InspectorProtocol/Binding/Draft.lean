import InspectorProtocol.Binding.Basic
import InspectorProtocol.Identifier.Namer

/-!
# Drafts

A draft holds everything one declared item gives rise to: its bindings, those of the records made
up for inline objects inside it, its method constant, and the declared types it needs from
elsewhere. Items are kept or dropped as whole drafts. A draft whose names are taken by an earlier
one of its domain is refused.
-/

namespace InspectorProtocol

open Description

structure Draft where
  item : String
  kind : ItemKind
  /-- the type that the item declares -/
  declares : Option String
  bindings : List Binding
  methods : List MethodConstant
  /-- the declared types needed from other items, as domain and name in ascending order -/
  needs : List (String × String)

namespace Draft

/-- Put a pair into an ascending list without repetition. -/
def insertPair (x : String × String) : List (String × String) → List (String × String)
  | [] => [x]
  | y :: rest =>
    if x = y then y :: rest
    else if x.1 < y.1 ∨ (x.1 = y.1 ∧ x.2 < y.2) then x :: y :: rest
    else y :: insertPair x rest

/-- The named types of some bindings, in ascending order. -/
def namedTypes (bindings : List Binding) : List (String × String) :=
  ((bindings.map Binding.references).flatten.filterMap TypeRef.named?).foldl
    (fun acc x => insertPair x acc) []

/-- The named types that the bindings themselves do not provide. -/
def neededTypes (domain : String) (bindings : List Binding) : List (String × String) :=
  let own := bindings.map (·.name)
  (namedTypes bindings).filter fun (d, n) => !(d == domain && own.contains (Identifier.typeName n))

def ofBindings (domain item : String) (kind : ItemKind) (declares : Option String)
    (bindings : List Binding) (methods : List MethodConstant) : Draft :=
  ⟨item, kind, declares, bindings, methods, neededTypes domain bindings⟩

/-- The fields of a record, and the records made up for them. -/
def fieldsFrom (c : Catalogue) (domain owner : String) :
    Identifier.FieldNamer → List Property → Except Failure (List Field × List InlineRecord)
  | _, [] => .ok ([], [])
  | namer, p :: rest => do
    let (type, records) ← c.resolveProperty domain owner p
    let (ident, namer) := namer.next p.name
    let (fields, more) ← fieldsFrom c domain owner namer rest
    let field : Field :=
      { ident := ident, wireName := p.name, type := type, optional := p.optional,
        description := p.description, deprecated := p.deprecated, experimental := p.experimental }
    return (field :: fields, records ++ more)

def fields (c : Catalogue) (domain owner : String) (properties : List Property) :
    Except Failure (List Field × List InlineRecord) :=
  fieldsFrom c domain owner (Identifier.FieldNamer.ofOwner owner) properties

/-- The number of array descriptors within array descriptors and properties. -/
def itemsWeight : Items → Nat
  | ⟨_, _, properties, items⟩ => 1 + propertiesWeight properties + nestedWeight items
where
  nestedWeight : Option Items → Nat
    | none => 0
    | some items => itemsWeight items
  propertiesWeight : List (PropertyOf Items) → Nat
    | [] => 0
    | p :: rest => propertyWeight p + propertiesWeight rest
  propertyWeight : PropertyOf Items → Nat
    | ⟨_, _, _, items, _, _, _, _, _⟩ => nestedWeight items

/-- The number of records that a queue can give rise to: each comes from one array descriptor. -/
def queueWeight (queue : List InlineRecord) : Nat :=
  total (fun r => 1 + itemsWeight.propertiesWeight r.properties) queue

/-- The bindings of the records in a queue; those made up on the way join its end. -/
def recordBindings (c : Catalogue) (domain : String) :
    Nat → List InlineRecord → Except Failure (List Binding)
  | 0, _ => .ok []
  | _ + 1, [] => .ok []
  | fuel + 1, r :: queue => do
    let (fields, more) ← fields c domain r.name r.properties
    let binding : Binding :=
      { name := Identifier.typeName r.name, kind := .record, fields := fields }
    return binding :: (← recordBindings c domain fuel (queue ++ more))

/-- The bindings of the records made up for an item. -/
def inlineBindings (c : Catalogue) (domain : String) (queue : List InlineRecord) :
    Except Failure (List Binding) :=
  recordBindings c domain (queueWeight queue) queue

def variants (values : List String) : List Variant :=
  ((Identifier.VariantNamer.mk []).nameAll values).zipWith Variant.mk values

/-- The main binding of a declared type, and the records made up for it. -/
def typeBinding (settings : Settings) (c : Catalogue) (domain : String) (type : TypeDecl) :
    Except Failure (Binding × List InlineRecord) :=
  let name := Identifier.typeName type.name
  let path := domain ++ "." ++ type.name
  match settings.override? domain type.name, type.values, type.kind, type.properties with
  | some replacement, _, _, _ =>
    .ok ({ name := name, kind := .alias, target := some replacement.typeRef }, [])
  | none, value :: values, _, _ =>
    .ok ({ name := name, kind := .enumeration, variants := variants (value :: values) }, [])
  | none, [], .object, p :: ps => do
    let (fields, records) ← fields c domain type.name (p :: ps)
    return ({ name := name, kind := .record, fields := fields }, records)
  | none, [], .array, _ =>
    match type.items with
    | none => .error (.malformedDescriptor path .arrayTypeWithoutItems)
    | some items => do
      let (target, records) ← c.resolveItems domain (type.name ++ "Item") items
      return ({ name := name, kind := .alias, target := some target }, records)
  | none, [], .unknown, _ => .error (.malformedDescriptor path .unknownTypeKind)
  | none, [], kind, _ => do
    let (target, records) ←
      c.resolveProperty domain type.name { name := type.name, kind := some kind }
    return ({ name := name, kind := .alias, target := some target }, records)

def ofType (settings : Settings) (c : Catalogue) (domain : String) (type : TypeDecl) :
    Except Failure Draft := do
  let (binding, records) ← typeBinding settings c domain type
  let binding :=
    { binding with
      description := type.description, deprecated := type.deprecated
      experimental := type.experimental }
  let inline ← inlineBindings c domain records
  return ofBindings domain type.name .type (some type.name) (binding :: inline) []

def ofCommand (c : Catalogue) (domain : String) (command : CommandDecl) : Except Failure Draft := do
  let stem := Identifier.typeName domain ++ Identifier.typeName command.name
  let method := domain ++ "." ++ command.name
  let requestName := stem ++ "Request"
  let responseName := stem ++ "Response"
  let (parameters, first) ← fields c domain requestName command.parameters
  let (returns, second) ← fields c domain responseName command.returns
  let request : Binding :=
    { name := requestName, kind := .request, method := some method, response := some responseName,
      description := command.description, deprecated := command.deprecated,
      experimental := command.experimental, fields := parameters }
  let response : Binding :=
    { name := responseName, kind := .response, method := some method,
      deprecated := command.deprecated, experimental := command.experimental, fields := returns }
  let inline ← inlineBindings c domain (first ++ second)
  let constant : MethodConstant :=
    ⟨Identifier.screamingCase command.name, method, .command, requestName⟩
  return ofBindings domain command.name .command none (request :: response :: inline) [constant]

def ofEvent (c : Catalogue) (domain : String) (event : EventDecl) : Except Failure Draft := do
  let name := Identifier.typeName domain ++ Identifier.typeName event.name ++ "Payload"
  let method := domain ++ "." ++ event.name
  let (parameters, records) ← fields c domain name event.parameters
  let payload : Binding :=
    { name := name, kind := .payload, method := some method, description := event.description,
      deprecated := event.deprecated, experimental := event.experimental, fields := parameters }
  let inline ← inlineBindings c domain records
  let constant : MethodConstant := ⟨Identifier.screamingCase event.name, method, .event, name⟩
  return ofBindings domain event.name .event none (payload :: inline) [constant]

/-- The items of a domain in order, each with its draft or the failure to make one. -/
def attempts (settings : Settings) (c : Catalogue) (domain : Domain) :
    List (String × ItemKind × Except Failure Draft) :=
  domain.types.map (fun t => (t.name, .type, ofType settings c domain.name t)) ++
    domain.commands.map (fun x => (x.name, .command, ofCommand c domain.name x)) ++
    domain.events.map (fun x => (x.name, .event, ofEvent c domain.name x))

/-- Keep the drafts whose names are free; `taken` are the names of the drafts kept so far. -/
def keepFree (domain : String) :
    List String → List (String × ItemKind × Except Failure Draft) → List Draft × List Skipped
  | _, [] => ([], [])
  | taken, (item, kind, attempt) :: rest =>
    let verdict : Except Failure Draft := do
      let draft ← attempt
      match draft.bindings.find? (taken.contains ·.name) with
      | some clash =>
        throw (.malformedDescriptor (domain ++ "." ++ item) (.nameInUse clash.name))
      | none => return draft
    match verdict with
    | .ok draft =>
      let (kept, skipped) := keepFree domain (draft.bindings.map (·.name) ++ taken) rest
      (draft :: kept, skipped)
    | .error reason =>
      let (kept, skipped) := keepFree domain taken rest
      (kept, ⟨domain, item, kind, reason⟩ :: skipped)

/-- The drafts of a domain, and the items that have none. -/
def ofDomain (settings : Settings) (c : Catalogue) (domain : Domain) : List Draft × List Skipped :=
  keepFree domain.name [] (attempts settings c domain)

end Draft

end InspectorProtocol

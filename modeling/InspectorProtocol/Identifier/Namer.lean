import InspectorProtocol.Identifier.Case

/-!
# Distinct names within one record or enumeration

A namer hands out identifiers one after another and remembers what it gave. A wanted spelling that
is taken gets the first free number, counted from two. Among `n + 1` spellings of one name at least
one is free of the `n` taken ones, so the search is over a finite list.
-/

namespace InspectorProtocol.Identifier

/-- The first of the numbered spellings `spell 0, spell 1, …` that is not taken. -/
def firstFree (taken : List String) (spell : Nat → String) : String :=
  (((List.range (taken.length + 1)).map spell).find? (!taken.contains ·)).getD (spell 0)

/-- Number a name: the plain name first, then `base ++ joint ++ "2"`, `"3"`, …. -/
def numbered (base joint : String) : Nat → String
  | 0 => base
  | n + 1 => base ++ joint ++ toString (n + 2)

/-- Hands out field identifiers of one record. -/
structure FieldNamer where
  /-- the snake-case name of the record -/
  owner : String
  /-- the names given so far, before the escape of reserved words -/
  taken : List String

namespace FieldNamer

def ofOwner (name : String) : FieldNamer := ⟨snakeCase name, []⟩

/-- The spelling wanted for a property; one that repeats the record's own name is marked. -/
def wanted (namer : FieldNamer) (wireName : String) : String :=
  let base := withFallback "field" (snakeCase wireName)
  if base == namer.owner then base ++ "_child" else base

/-- The identifier for the next property, and the namer after it. -/
def next (namer : FieldNamer) (wireName : String) : String × FieldNamer :=
  let name := firstFree namer.taken (numbered (namer.wanted wireName) "_")
  (escape name, { namer with taken := name :: namer.taken })

/-- The identifiers for a list of properties, in order. -/
def nameAll (namer : FieldNamer) : List String → List String
  | [] => []
  | wireName :: rest =>
    let (ident, namer) := namer.next wireName
    ident :: nameAll namer rest

end FieldNamer

/-- Hands out variant identifiers of one enumeration. -/
structure VariantNamer where
  taken : List String := []

namespace VariantNamer

/-- The identifier for the next value, and the namer after it. -/
def next (namer : VariantNamer) (value : String) : String × VariantNamer :=
  let name := firstFree namer.taken (numbered (variantName value) "")
  (name, ⟨name :: namer.taken⟩)

/-- The identifiers for a list of values, in order. -/
def nameAll (namer : VariantNamer) : List String → List String
  | [] => []
  | value :: rest =>
    let (ident, namer) := namer.next value
    ident :: nameAll namer rest

end VariantNamer

end InspectorProtocol.Identifier

import InspectorProtocol.Binding.Draft

/-!
# Dropping drafts that need what is not there

A draft needs declared types; when one of these has no draft, it has to go too, and with it
whatever needs the types it declares. Each round looks at the drafts left by the one before, until
a round drops nothing.
-/

namespace InspectorProtocol

open Description

/-- The drafts of one domain. -/
structure DomainDrafts where
  domain : Domain
  drafts : List Draft

namespace Pruning

/-- The declared types that have a draft, as domain and name. -/
def declared (outputs : List DomainDrafts) : List (String × String) :=
  (outputs.map fun o => o.drafts.filterMap fun d => d.declares.map (o.domain.name, ·)).flatten

/-- The first need of a draft that is not available. -/
def missing? (available : List (String × String)) (d : Draft) : Option (String × String) :=
  d.needs.find? (!available.contains ·)

/-- Why a draft with a missing need is dropped. -/
def dropped (available : List (String × String)) (domain : String) (d : Draft) : Option Skipped :=
  (missing? available d).map fun (needDomain, name) =>
    ⟨domain, d.item, d.kind, .unresolvedReference domain (needDomain ++ "." ++ name)⟩

/-- One round: the drafts whose needs are all available, and the others. -/
def round (outputs : List DomainDrafts) : List DomainDrafts × List Skipped :=
  let available := declared outputs
  (outputs.map fun o =>
      { o with drafts := o.drafts.filter fun d => (missing? available d).isNone },
    (outputs.map fun o => o.drafts.filterMap (dropped available o.domain.name)).flatten)

/-- Rounds until nothing is dropped; `fuel` bounds their number. -/
def rounds : Nat → List DomainDrafts → List DomainDrafts × List Skipped
  | 0, outputs => (outputs, [])
  | fuel + 1, outputs =>
    match round outputs with
    | (_, []) => (outputs, [])
    | (kept, skipped) =>
      let (rest, more) := rounds fuel kept
      (rest, skipped ++ more)

def draftCount (outputs : List DomainDrafts) : Nat := total (·.drafts.length) outputs

/-- Drop every draft that needs what is not there. Each round but the last drops a draft. -/
def prune (outputs : List DomainDrafts) : List DomainDrafts × List Skipped :=
  rounds (draftCount outputs + 1) outputs

end Pruning

end InspectorProtocol

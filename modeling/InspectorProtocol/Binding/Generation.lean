import InspectorProtocol.Binding.Boxing
import InspectorProtocol.Binding.Pruning

/-!
# Generating bindings

Bindings are a function of a description and the settings, and generating never fails: what has no
binding is reported. Domains and items keep their order. A domain that repeats the name of an
earlier one is left out.
-/

namespace InspectorProtocol

open Description Text

namespace Bindings

/-- The domains whose names are new, and reports of the others; `seen` are the names before. -/
def distinctDomains : List String → List Domain → List Domain × List Skipped
  | _, [] => ([], [])
  | seen, d :: rest =>
    let key := foldCase d.name
    if seen.contains key then
      let (domains, skipped) := distinctDomains seen rest
      (domains, ⟨d.name, d.name, .domain, .duplicateDomain d.name⟩ :: skipped)
    else
      let (domains, skipped) := distinctDomains (key :: seen) rest
      (d :: domains, skipped)

/-- Give method constants distinct identifiers where a command and an event share one; `taken` are
the identifiers so far. -/
def nameConstants : List String → List (ItemKind × MethodConstant) → List MethodConstant
  | _, [] => []
  | taken, (kind, constant) :: rest =>
    let ident :=
      if taken.contains constant.ident then
        constant.ident ++ "_" ++ Identifier.screamingCase kind.name
      else constant.ident
    { constant with ident := ident } :: nameConstants (ident :: taken) rest

/-- The bindings of a domain from its drafts. -/
def assemble (o : DomainDrafts) : DomainBindings where
  name := o.domain.name
  module := Identifier.moduleName o.domain.name
  description := o.domain.description
  deprecated := o.domain.deprecated
  experimental := o.domain.experimental
  bindings := (o.drafts.map (·.bindings)).flatten
  methods := nameConstants [] ((o.drafts.map fun d => d.methods.map (d.kind, ·)).flatten)

/-- The bindings of a description. -/
def generate (settings : Settings) (d : Description) : Bindings :=
  let (domains, duplicates) := distinctDomains [] d.domains
  let catalogue := Catalogue.ofDomains settings domains
  let drafted := domains.map fun domain => (domain, Draft.ofDomain settings catalogue domain)
  let (outputs, pruned) :=
    Pruning.prune (drafted.map fun (domain, drafts, _) => ⟨domain, drafts⟩)
  let bound := Boxing.boxAll (outputs.map assemble)
  { version := d.version
    domains := bound
    report :=
      { generated := total (·.bindings.length) bound
        skipped := duplicates ++ (drafted.map fun (_, _, skipped) => skipped).flatten ++ pruned } }

end Bindings

end InspectorProtocol

import InspectorProtocol.Proofs.DomainOrder
import Mathlib.Data.List.TakeWhile

/-!
# What references mean

A reference is qualified if it contains a dot: what stands before the first dot names a domain, what
follows a type of it. A bare reference means the type of the domain it is made in, or else that of
the only domain that declares one. The catalogue of domains with distinct names resolves a reference
to just the type that it means and refuses all others, in whatever order the domains come and the
entries are kept.
-/

namespace InspectorProtocol

open Description Text

namespace Text

variable {c : Char} {s : String}

lemma cutAt?_eq_none : cutAt? c s = none ↔ c ∉ s.toList := by
  have hdrop : s.toList.dropWhile (· != c) = [] ↔ c ∉ s.toList := by
    rw [List.dropWhile_eq_nil_iff]
    exact ⟨fun h hc => by simpa using h c hc, fun h x hx => bne_iff_ne.mpr fun heq => h (heq ▸ hx)⟩
  rw [← hdrop]
  unfold cutAt?
  cases s.toList.dropWhile (· != c) <;> simp

lemma cutAt?_append {before : String} (h : c ∉ before.toList) (after : String) :
    cutAt? c (before ++ String.singleton c ++ after) = some (before, after) := by
  have hbefore : ∀ x ∈ before.toList, (x != c) = true :=
    fun x hx => bne_iff_ne.mpr fun heq => h (heq ▸ hx)
  simp [cutAt?, List.takeWhile_append_of_pos hbefore, List.dropWhile_append_of_pos hbefore]

lemma eq_of_cutAt? {before after : String} (h : cutAt? c s = some (before, after)) :
    s = before ++ String.singleton c ++ after ∧ c ∉ before.toList := by
  unfold cutAt? at h
  have hsplit : s.toList.takeWhile (· != c) ++ s.toList.dropWhile (· != c) = s.toList :=
    List.takeWhile_append_dropWhile
  have hbefore : c ∉ s.toList.takeWhile (· != c) := fun hc => by
    simpa using List.mem_takeWhile_imp hc
  cases hdrop : s.toList.dropWhile (· != c) with
  | nil => simp [hdrop] at h
  | cons x rest =>
    have hx : x = c := by
      have hhead := List.head_dropWhile_not (· != c) (l := s.toList) (by simp [hdrop])
      simpa [hdrop] using hhead
    simp only [hdrop, Option.some.injEq, Prod.mk.injEq] at h
    obtain ⟨rfl, rfl⟩ := h
    rw [hdrop, hx] at hsplit
    refine ⟨String.toList_injective ?_, by simpa using hbefore⟩
    simpa using hsplit.symm

end Text

/-- Whether a domain declares a type of this name. -/
def Description.Domain.Declares (d : Domain) (type : String) : Prop := type ∈ d.types.map (·.name)

instance (d : Domain) (type : String) : Decidable (d.Declares type) :=
  inferInstanceAs (Decidable (type ∈ _))

/-- Whether an override is meant for a declared type. -/
def Override.IsFor (o : Override) (domain type : String) : Prop :=
  sameIgnoringCase o.domain domain = true ∧ o.type = type

instance (o : Override) (domain type : String) : Decidable (o.IsFor domain type) :=
  inferInstanceAs (Decidable (_ ∧ _))

lemma Override.applies_iff {o : Override} {domain type : String} :
    o.applies domain type = true ↔ o.IsFor domain type := by
  simp [applies, IsFor]

namespace Catalogue

/-! ### What a reference means -/

/-- The domain and the type in it that a reference made in a domain means. -/
inductive Means (domains : List Domain) (here : String) : String → Domain → String → Prop where
  /-- the domain is named, in whatever case -/
  | qualified {d : Domain} {domain type : String} (first : '.' ∉ domain.toList) (mem : d ∈ domains)
      (named : sameIgnoringCase d.name domain = true) (declares : d.Declares type) :
      Means domains here (domain ++ "." ++ type) d type
  /-- the domain is the one in which the reference is made -/
  | own {d : Domain} {type : String} (bare : '.' ∉ type.toList) (mem : d ∈ domains)
      (named : sameIgnoringCase d.name here = true) (declares : d.Declares type) :
      Means domains here type d type
  /-- that one does not declare the type, and a single other one does -/
  | elsewhere {d : Domain} {type : String} (bare : '.' ∉ type.toList)
      (absent : ∀ e ∈ domains, sameIgnoringCase e.name here = true → ¬ e.Declares type)
      (mem : d ∈ domains) (declares : d.Declares type)
      (only : ∀ e ∈ domains, e.Declares type → e = d) :
      Means domains here type d type

section Means

variable {domains : List Domain} {here reference domain type found : String} {d : Domain}

lemma means_qualified_iff (first : '.' ∉ domain.toList) :
    Means domains here (domain ++ "." ++ type) d found ↔
      found = type ∧ d ∈ domains ∧ sameIgnoringCase d.name domain = true ∧ d.Declares type := by
  have hcut : cutAt? '.' (domain ++ "." ++ type) = some (domain, type) := cutAt?_append first type
  have hdot : '.' ∈ (domain ++ "." ++ type).toList := by
    by_contra hbare
    rw [cutAt?_eq_none.mpr hbare] at hcut
    cases hcut
  constructor
  · intro h
    generalize hreference : domain ++ "." ++ type = reference at h hcut hdot
    cases h with
    | qualified first' mem named declares =>
      have hcut' := cutAt?_append first' found
      obtain ⟨rfl, rfl⟩ := Prod.mk.inj (Option.some.inj (hcut'.symm.trans hcut))
      exact ⟨rfl, mem, named, declares⟩
    | own bare | elsewhere bare => exact absurd hdot bare
  · rintro ⟨rfl, mem, named, declares⟩
    exact .qualified first mem named declares

lemma means_bare_iff (bare : '.' ∉ reference.toList) :
    Means domains here reference d found ↔ found = reference ∧ d ∈ domains ∧
      d.Declares reference ∧ (sameIgnoringCase d.name here = true ∨
        (∀ e ∈ domains, sameIgnoringCase e.name here = true → ¬ e.Declares reference) ∧
        ∀ e ∈ domains, e.Declares reference → e = d) := by
  constructor
  · intro h
    cases h with
    | qualified => simp at bare
    | own _ mem named declares => exact ⟨rfl, mem, declares, .inl named⟩
    | elsewhere _ absent mem declares only => exact ⟨rfl, mem, declares, .inr ⟨absent, only⟩⟩
  · rintro ⟨rfl, mem, declares, named | ⟨absent, only⟩⟩
    · exact .own bare mem named declares
    · exact .elsewhere bare absent mem declares only

lemma Means.anywhere (hdot : '.' ∈ reference.toList) (h : Means domains here reference d found)
    (there : String) : Means domains there reference d found := by
  cases h with
  | qualified first mem named declares => exact .qualified first mem named declares
  | own bare | elsewhere bare => exact absurd hdot bare

end Means

/-- What a declared type is referred to by: the replacement of the first override that is meant for
it, or else its domain and name as declared. -/
inductive StandsFor (settings : Settings) (domain type : String) : TypeRef → Prop where
  | replaced {before after : List Override} {o : Override}
      (split : settings.overrides = before ++ o :: after) (isFor : o.IsFor domain type)
      (first : ∀ other ∈ before, ¬ other.IsFor domain type) :
      StandsFor settings domain type o.replacement.typeRef
  | declared (none : ∀ o ∈ settings.overrides, ¬ o.IsFor domain type) :
      StandsFor settings domain type (.named domain type)

/-! ### What the catalogue finds -/

variable {settings : Settings} {domains : List Domain} {domain type : String} {t : TypeRef}

lemma declaration_eq (settings : Settings) (domain : String) (decl : TypeDecl) :
    declaration settings domain decl =
      (decl.name, (declaration settings domain { name := decl.name }).2) := rfl

lemma declaration_eq_iff :
    (declaration settings domain { name := type }).2 = t ↔ StandsFor settings domain type t := by
  unfold declaration Settings.override?
  cases hfind : settings.overrides.find? (·.applies domain type) with
  | none =>
    have hnone : ∀ o ∈ settings.overrides, ¬ o.IsFor domain type := by
      intro o ho hfor
      exact List.find?_eq_none.mp hfind o ho (Override.applies_iff.mpr hfor)
    constructor
    · rintro rfl
      exact .declared hnone
    · intro h
      cases h with
      | replaced split isFor => exact absurd isFor (hnone _ (by simp [split]))
      | declared => rfl
  | some o =>
    obtain ⟨happlies, before, after, hsplit, hbefore⟩ := List.find?_eq_some_iff_append.mp hfind
    have hfor := Override.applies_iff.mp happlies
    have hfirst : ∀ other ∈ before, ¬ other.IsFor domain type := by
      intro other hother hfor
      simpa [Override.applies_iff.mpr hfor] using hbefore other hother
    constructor
    · rintro rfl
      exact .replaced hsplit hfor hfirst
    · intro h
      cases h with
      | @replaced before' after' o' split isFor first =>
        have hfound : settings.overrides.find? (·.applies domain type) = some o' := by
          refine List.find?_eq_some_iff_append.mpr
            ⟨Override.applies_iff.mpr isFor, before', after', split, fun other hother => ?_⟩
          simpa [← Override.applies_iff] using first other hother
        obtain rfl : o = o' := Option.some.inj (hfind.symm.trans hfound)
        rfl
      | declared none => exact absurd hfor (none o (List.mem_of_find?_eq_some hfind))

lemma lookup_entryOf (d : Domain) : (entryOf settings d).2.types.lookup type = some t ↔
    d.Declares type ∧ StandsFor settings d.name type t := by
  have htypes : (entryOf settings d).2.types = (d.types.map (·.name)).reverse.map fun name =>
      (name, (declaration settings d.name { name := name }).2) := by
    rw [entryOf, ← List.map_reverse, ← List.map_reverse, List.map_map]
    exact List.map_congr_left fun decl _ => declaration_eq settings d.name decl
  rw [htypes, ← declaration_eq_iff]
  by_cases hdeclares : d.Declares type
  · rw [List.lookup_graph _ (List.mem_reverse.mpr hdeclares), Option.some_inj,
      and_iff_right hdeclares]
  · have hnone : ((d.types.map (·.name)).reverse.map fun name =>
        (name, (declaration settings d.name { name := name }).2)).lookup type = none := by
      refine List.lookup_eq_none_iff.mpr fun e he => ?_
      obtain ⟨name, hname, rfl⟩ := List.mem_map.mp he
      exact bne_iff_ne.mpr fun heq => hdeclares (heq ▸ List.mem_reverse.mp hname)
    rw [hnone]
    simp [hdeclares]

lemma exists_standsFor (settings : Settings) (domain type : String) :
    ∃ t, StandsFor settings domain type t :=
  ⟨_, declaration_eq_iff.mp rfl⟩

lemma filterMap_eq_singleton_iff {α β : Type} {f : α → Option β} {xs : List α} (h : xs.Nodup)
    {y : β} : xs.filterMap f = [y] ↔ ∃ x ∈ xs, f x = some y ∧ ∀ z ∈ xs, (f z).isSome → z = x := by
  constructor
  · intro heq
    obtain ⟨before, x, after, rfl, hbefore, hx, hafter⟩ := List.filterMap_eq_cons_iff.mp heq
    refine ⟨x, by simp, hx, fun z hz hsome => ?_⟩
    rcases List.mem_append.mp hz with hz | hz
    · simp [hbefore z hz] at hsome
    · rcases List.mem_cons.mp hz with rfl | hz
      · rfl
      · simp [List.filterMap_eq_nil_iff.mp hafter z hz] at hsome
  · rintro ⟨x, hx, hy, honly⟩
    obtain ⟨before, after, rfl⟩ := List.append_of_mem hx
    have hapart := List.nodup_append.mp h
    have hnone : ∀ z ∈ before ++ x :: after, z ≠ x → f z = none := by
      intro z hz hne
      by_contra hsome
      exact hne (honly z hz (Option.isSome_iff_ne_none.mpr hsome))
    refine List.filterMap_eq_cons_iff.mpr ⟨before, x, after, rfl, fun z hz => ?_, hy, ?_⟩
    · exact hnone z (List.mem_append_left _ hz) (hapart.2.2 z hz x List.mem_cons_self)
    · refine List.filterMap_eq_nil_iff.mpr fun z hz => ?_
      refine hnone z (by simp [hz]) fun heq => ?_
      exact (List.nodup_cons.mp hapart.2.1).1 (heq ▸ hz)

section Found

variable {c : Catalogue} {here reference : String}

lemma resolveReference_of_cut (hcut : cutAt? '.' reference = some (domain, type)) :
    c.resolveReference here reference = .ok t ↔ c.declared? domain type = some t := by
  simp only [resolveReference, hcut]
  cases c.declared? domain type <;> simp

lemma resolveReference_of_bare (hcut : cutAt? '.' reference = none) :
    c.resolveReference here reference = .ok t ↔ c.declared? here reference = some t ∨
      c.declared? here reference = none ∧ c.everywhere reference = [t] := by
  simp only [resolveReference, hcut]
  cases c.declared? here reference with
  | some => simp
  | none =>
    rcases c.everywhere reference with _ | ⟨t', _ | ⟨t'', rest⟩⟩ <;> simp

lemma resolveReference_eq_error {failure : Failure} :
    c.resolveReference here reference = .error failure ↔
      failure = .unresolvedReference here reference ∧
        ∀ t, c.resolveReference here reference ≠ .ok t := by
  unfold resolveReference
  simp only
  split <;> simp [eq_comm]

end Found

section Distinct

variable (hnodup : (domains.map (foldCase ·.name)).Nodup)

include hnodup

lemma declared?_ofDomains : (ofDomains settings domains).declared? domain type = some t ↔
    ∃ d ∈ domains, sameIgnoringCase d.name domain = true ∧ d.Declares type ∧
      StandsFor settings d.name type t := by
  rw [declared?, entry?, Option.bind_eq_some_iff]
  constructor
  · rintro ⟨entry, hentry, hlookup⟩
    have hmem := (lookup_eq_some_iff_mem (keys_ofDomains hnodup)).mp hentry
    rw [entries_ofDomains hnodup] at hmem
    obtain ⟨d, hd, heq⟩ := List.mem_map.mp hmem
    obtain ⟨hkey, rfl⟩ := Prod.mk.inj heq
    exact ⟨d, hd, sameIgnoringCase_iff.mpr hkey, (lookup_entryOf d).mp hlookup⟩
  · rintro ⟨d, hd, hname, hdeclares⟩
    refine ⟨(entryOf settings d).2, ?_, (lookup_entryOf d).mpr hdeclares⟩
    rw [lookup_eq_some_iff_mem (keys_ofDomains hnodup), entries_ofDomains hnodup]
    refine List.mem_map.mpr ⟨d, hd, ?_⟩
    rw [← sameIgnoringCase_iff.mp hname]
    rfl

lemma declared?_ofDomains_eq_none : (ofDomains settings domains).declared? domain type = none ↔
    ∀ d ∈ domains, sameIgnoringCase d.name domain = true → ¬ d.Declares type := by
  rw [Option.eq_none_iff_forall_ne_some]
  constructor
  · intro hnone d hd hname hdeclares
    obtain ⟨t, hstands⟩ := exists_standsFor settings d.name type
    exact hnone t ((declared?_ofDomains hnodup).mpr ⟨d, hd, hname, hdeclares, hstands⟩)
  · intro habsent t ht
    obtain ⟨d, hd, hname, hdeclares, _⟩ := (declared?_ofDomains hnodup).mp ht
    exact habsent d hd hname hdeclares

lemma everywhere_ofDomains : (ofDomains settings domains).everywhere type = [t] ↔
    ∃ d ∈ domains, d.Declares type ∧ StandsFor settings d.name type t ∧
      ∀ e ∈ domains, e.Declares type → e = d := by
  have heverywhere : (ofDomains settings domains).everywhere type =
      domains.filterMap fun d => (entryOf settings d).2.types.lookup type := by
    rw [everywhere, entries_ofDomains hnodup, List.filterMap_map]
    rfl
  have hfound (e : Domain) : ((entryOf settings e).2.types.lookup type).isSome ↔
      e.Declares type := by
    rw [Option.isSome_iff_exists]
    constructor
    · rintro ⟨t, ht⟩
      exact ((lookup_entryOf e).mp ht).1
    · intro hdeclares
      obtain ⟨t, hstands⟩ := exists_standsFor settings e.name type
      exact ⟨t, (lookup_entryOf e).mpr ⟨hdeclares, hstands⟩⟩
  rw [heverywhere, filterMap_eq_singleton_iff (List.Nodup.of_map _ hnodup)]
  simp only [lookup_entryOf, hfound, and_assoc]

/-- A reference resolves to what stands for the type that it means. -/
lemma resolveReference_eq_ok {here reference : String} :
    (ofDomains settings domains).resolveReference here reference = .ok t ↔
      ∃ d type, Means domains here reference d type ∧ StandsFor settings d.name type t := by
  cases hcut : cutAt? '.' reference with
  | some parts =>
    obtain ⟨rfl, hfirst⟩ := eq_of_cutAt? hcut
    rw [resolveReference_of_cut hcut, declared?_ofDomains hnodup]
    constructor
    · rintro ⟨d, hd, hname, hdeclares, hstands⟩
      exact ⟨d, _, .qualified hfirst hd hname hdeclares, hstands⟩
    · rintro ⟨d, type, hmeans, hstands⟩
      obtain ⟨rfl, hd, hname, hdeclares⟩ := (means_qualified_iff hfirst).mp hmeans
      exact ⟨d, hd, hname, hdeclares, hstands⟩
  | none =>
    have hbare := cutAt?_eq_none.mp hcut
    rw [resolveReference_of_bare hcut, declared?_ofDomains hnodup,
      declared?_ofDomains_eq_none hnodup, everywhere_ofDomains hnodup]
    constructor
    · rintro (⟨d, hd, hname, hdeclares, hstands⟩ | ⟨habsent, d, hd, hdeclares, hstands, honly⟩)
      · exact ⟨d, reference, .own hbare hd hname hdeclares, hstands⟩
      · exact ⟨d, reference, .elsewhere hbare habsent hd hdeclares honly, hstands⟩
    · rintro ⟨d, type, hmeans, hstands⟩
      obtain ⟨rfl, hd, hdeclares, hname | ⟨habsent, honly⟩⟩ := (means_bare_iff hbare).mp hmeans
      · exact .inl ⟨d, hd, hname, hdeclares, hstands⟩
      · exact .inr ⟨habsent, d, hd, hdeclares, hstands, honly⟩

end Distinct

/-- Over domains with distinct names, a reference resolves to what stands for the type that it
means. A reference that means none is refused with itself and the domain that it is made in. Where a
qualified reference is made does not matter, nor does the order of the domains or of the entries. -/
theorem references_resolve_to_what_they_mean (settings : Settings) (domains : List Domain)
    (hdistinct : domains.Pairwise fun d e => sameIgnoringCase d.name e.name = false)
    (here reference : String) :
    let c := ofDomains settings domains
    (∀ t, c.resolveReference here reference = .ok t ↔
      ∃ d type, Means domains here reference d type ∧ StandsFor settings d.name type t) ∧
    (∀ failure, c.resolveReference here reference = .error failure ↔
      failure = .unresolvedReference here reference ∧
        ∀ d type, ¬ Means domains here reference d type) ∧
    ('.' ∈ reference.toList → ∀ there t,
      c.resolveReference there reference = .ok t ↔ c.resolveReference here reference = .ok t) ∧
    (∀ reordered : List Domain, reordered.Perm domains →
      (ofDomains settings reordered).resolveReference here reference =
        c.resolveReference here reference) ∧
    ∀ reordered : Catalogue, reordered.entries.Perm c.entries →
      reordered.resolveReference here reference = c.resolveReference here reference := by
  intro c
  have hnodup : (domains.map (foldCase ·.name)).Nodup := by
    refine List.pairwise_map.mpr (hdistinct.imp fun hne heq => ?_)
    simp [sameIgnoringCase, heq] at hne
  refine ⟨fun t => resolveReference_eq_ok hnodup, fun failure => ?_, fun hdot there t => ?_,
    fun reordered hperm => ?_, fun reordered hperm => ?_⟩
  · have hnone : (∀ t, c.resolveReference here reference ≠ .ok t) ↔
        ∀ d type, ¬ Means domains here reference d type := by
      constructor
      · intro hfails d type hmeans
        obtain ⟨t, hstands⟩ := exists_standsFor settings d.name type
        exact hfails t ((resolveReference_eq_ok hnodup).mpr ⟨d, type, hmeans, hstands⟩)
      · intro hmeaningless t ht
        obtain ⟨d, type, hmeans, _⟩ := (resolveReference_eq_ok hnodup).mp ht
        exact hmeaningless d type hmeans
    rw [← hnone, resolveReference_eq_error]
  · rw [resolveReference_eq_ok hnodup, resolveReference_eq_ok hnodup]
    constructor
    · rintro ⟨d, type, hmeans, hstands⟩
      exact ⟨d, type, hmeans.anywhere hdot here, hstands⟩
    · rintro ⟨d, type, hmeans, hstands⟩
      exact ⟨d, type, hmeans.anywhere hdot there, hstands⟩
  · rw [resolveReference_of_perm hperm ((hperm.map _).nodup_iff.mpr hnodup)]
  · have hkeys : (reordered.entries.map (·.1)).Nodup :=
      (hperm.map _).nodup_iff.mpr (keys_ofDomains hnodup)
    rw [resolveReference_of_entries hperm hkeys]

/-- Headers are replaced by the settings, items are declared here and on pages. -/
def networkTypes : Domain :=
  { name := "Network"
    types := [{ name := "Headers", kind := .object }, { name := "Item", kind := .string }] }

def pageTypes : Domain :=
  { name := "Page", types := [{ name := "Item", kind := .integer }, { name := "Frame" }] }

/-- Seen from a domain that is not declared: a domain is found in any case and the override counts,
a type of one domain needs no qualifier, and one of two domains does. -/
theorem bare_item_is_ambiguous :
    [networkTypes, pageTypes].Pairwise (fun d e => sameIgnoringCase d.name e.name = false) ∧
    let c := ofDomains {} [networkTypes, pageTypes]
    c.resolveReference "Log" "network.Headers" = .ok .stringMap ∧
    c.resolveReference "Log" "Frame" = .ok (.named "Page" "Frame") ∧
    c.resolveReference "Log" "Item" = .error (.unresolvedReference "Log" "Item") := by
  have hdistinct : [networkTypes, pageTypes].Pairwise
      fun d e => sameIgnoringCase d.name e.name = false := by
    refine List.pairwise_pair.mpr ?_
    decide
  have hresolved := references_resolve_to_what_they_mean {} [networkTypes, pageTypes] hdistinct
  refine ⟨hdistinct, ?_, ?_, ?_⟩
  · refine ((hresolved "Log" "network.Headers").1 _).mpr ⟨networkTypes, "Headers", ?_, ?_⟩
    · have hmeans : Means [networkTypes, pageTypes] "Log" ("network" ++ "." ++ "Headers")
          networkTypes "Headers" := .qualified (by decide) (by simp) (by decide) (by decide)
      exact hmeans
    · exact declaration_eq_iff.mp rfl
  · refine ((hresolved "Log" "Frame").1 _).mpr ⟨pageTypes, "Frame", ?_, .declared (by decide)⟩
    refine (means_bare_iff (by decide)).mpr ⟨rfl, by simp, by decide, .inr ⟨?_, ?_⟩⟩
    · decide
    · intro e he hdeclares
      rcases List.mem_pair.mp he with rfl | rfl
      · exact absurd hdeclares (by decide)
      · rfl
  · refine ((hresolved "Log" "Item").2.1 _).mpr ⟨rfl, fun d type hmeans => ?_⟩
    obtain ⟨-, hd, -, hnamed | ⟨-, honly⟩⟩ := (means_bare_iff (by decide)).mp hmeans
    · rcases List.mem_pair.mp hd with rfl | rfl
      · exact absurd hnamed (by decide)
      · exact absurd hnamed (by decide)
    · have hnetwork := honly networkTypes (by simp) (by decide)
      have hpage := honly pageTypes (by simp) (by decide)
      exact absurd (congrArg (·.name) (hnetwork.trans hpage.symm)) (by decide)

end Catalogue

end InspectorProtocol

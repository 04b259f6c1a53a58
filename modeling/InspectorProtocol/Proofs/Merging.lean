import InspectorProtocol.CommandLine.Command
import InspectorProtocol.Proofs.Accounting
import InspectorProtocol.Proofs.DomainOrder

/-!
# Merged descriptions

Merging keeps of each name the first domain that has it, as generating does, and both take names
that differ in the case of letters only for the same. So what is merged from files without
repetitions in the first one is generated from without repetitions, however the others repeat it or
each other.
-/

namespace InspectorProtocol

open Description Text

namespace Bindings

/-! ### Domains with new names -/

/-- The domains whose names are none of those seen and new where they stand. -/
def unseen (seen : List String) (domains : List Domain) : List Domain :=
  (distinctDomains seen domains).1

section Unseen

variable {seen before : List String} {d : Domain} {domains rest : List Domain}

lemma unseen_of_mem (h : foldCase d.name ∈ seen) : unseen seen (d :: rest) = unseen seen rest := by
  unfold unseen
  rw [distinctDomains]
  simp [h]

lemma unseen_of_notMem (h : foldCase d.name ∉ seen) :
    unseen seen (d :: rest) = d :: unseen (foldCase d.name :: seen) rest := by
  unfold unseen
  rw [distinctDomains]
  simp [h]

lemma distinctDomains_congr (h : ∀ key, key ∈ seen ↔ key ∈ before) :
    distinctDomains seen domains = distinctDomains before domains := by
  rw [distinctDomains_eq, distinctDomains_eq]
  congr 1
  · exact pick_congr fun i => by rw [h]
  · exact congrArg _ (pick_congr fun i => by rw [h])

lemma unseen_congr (h : ∀ key, key ∈ seen ↔ key ∈ before) :
    unseen seen domains = unseen before domains :=
  congrArg Prod.fst (distinctDomains_congr h)

lemma distinctDomains_of_subset (h : domains.map (foldCase ·.name) ⊆ seen) :
    distinctDomains seen domains = ([], domains.map repetition) := by
  induction domains with
  | nil => rfl
  | cons d rest ih =>
    rw [List.map_cons, List.cons_subset] at h
    rw [distinctDomains, ih h.2]
    simp [h.1, repetition]

lemma unseen_append (xs ys : List Domain) :
    unseen seen (xs ++ ys) = unseen seen xs ++ unseen (seen ++ xs.map (foldCase ·.name)) ys := by
  induction xs generalizing seen with
  | nil => simp [unseen, distinctDomains]
  | cons d rest ih =>
    rw [List.cons_append]
    by_cases h : foldCase d.name ∈ seen
    · rw [unseen_of_mem h, unseen_of_mem h, ih]
      refine congrArg _ (unseen_congr fun key => ?_)
      simp only [List.map_cons, List.mem_append, List.mem_cons]
      grind
    · rw [unseen_of_notMem h, unseen_of_notMem h, ih, List.cons_append]
      refine congrArg (d :: unseen _ rest ++ ·) (unseen_congr fun key => ?_)
      simp only [List.map_cons, List.mem_append, List.mem_cons]
      grind

lemma mem_keys_unseen {key : String} : key ∈ seen ++ (unseen seen domains).map (foldCase ·.name) ↔
    key ∈ seen ++ domains.map (foldCase ·.name) := by
  induction domains generalizing seen with
  | nil => rfl
  | cons d rest ih =>
    by_cases h : foldCase d.name ∈ seen
    · rw [unseen_of_mem h, ih]
      simp only [List.map_cons, List.mem_append, List.mem_cons]
      grind
    · have hrest := @ih (foldCase d.name :: seen)
      rw [unseen_of_notMem h]
      simp only [List.map_cons, List.mem_append, List.mem_cons] at hrest ⊢
      grind

lemma unseen_unseen : unseen seen (unseen before domains) = unseen (seen ++ before) domains := by
  induction domains generalizing seen before with
  | nil => rfl
  | cons d rest ih =>
    by_cases hbefore : foldCase d.name ∈ before
    · rw [unseen_of_mem hbefore, ih, unseen_of_mem (List.mem_append_right _ hbefore)]
    rw [unseen_of_notMem hbefore]
    by_cases hseen : foldCase d.name ∈ seen
    · rw [unseen_of_mem hseen, ih, unseen_of_mem (List.mem_append_left _ hseen)]
      refine unseen_congr fun key => ?_
      simp only [List.mem_append, List.mem_cons]
      grind
    · have hboth : foldCase d.name ∉ seen ++ before := by simp [hseen, hbefore]
      rw [unseen_of_notMem hseen, unseen_of_notMem hboth, ih]
      congr 1
      refine unseen_congr fun key => ?_
      simp only [List.mem_append, List.mem_cons]
      grind

end Unseen

end Bindings

namespace Description

open Bindings

/-- The names of the domains, without regard to the case of letters. -/
def keys (d : Description) : List String := d.domains.map (foldCase ·.name)

/-- Descriptions merged into a first one in order, and the names of all domains left out. -/
def mergeAll (first : Description) : List Description → Description × List String
  | [] => (first, [])
  | other :: rest =>
    let (d, skipped) := first.merge other
    let (merged, more) := d.mergeAll rest
    (merged, skipped ++ more)

/-- Whether no domain of `base`, and none before a position, has the name that stands there. -/
def IsNew (base later : List Domain) (i : Fin later.length) : Prop :=
  (∀ d ∈ base, sameIgnoringCase d.name (later.get i).name = false) ∧ IsFirst later i

instance (base later : List Domain) : DecidablePred (IsNew base later) := fun i =>
  inferInstanceAs (Decidable (_ ∧ IsFirst later i))

variable (base : Description)

lemma isSome_domain?_iff (name : String) :
    (base.domain? name).isSome = true ↔ foldCase name ∈ base.keys := by
  simp only [domain?, keys, List.find?_isSome, sameIgnoringCase_iff, List.mem_map]

lemma isNew_iff (later : List Domain) (i : Fin later.length) :
    IsNew base.domains later i ↔ foldCase (later.get i).name ∉ base.keys ∧ IsFirst later i := by
  unfold IsNew keys
  refine and_congr_left fun _ => ?_
  rw [List.mem_map, not_exists]
  refine forall_congr' fun d => ?_
  rw [not_and, sameIgnoringCase, beq_eq_false_iff_ne]

lemma foldl_addDomain (skipped : List String) (later : List Domain) :
    later.foldl addDomain (base, skipped) =
      ({ base with domains := base.domains ++ unseen base.keys later },
        skipped ++ (distinctDomains base.keys later).2.map (·.item)) := by
  induction later generalizing base skipped with
  | nil => simp [unseen, distinctDomains]
  | cons d rest ih =>
    rw [List.foldl_cons, addDomain]
    simp only [isSome_domain?_iff]
    by_cases h : foldCase d.name ∈ base.keys
    · rw [if_pos h, ih, unseen_of_mem h, distinctDomains]
      simp [h]
    · have hkeys (key : String) :
          key ∈ keys { base with domains := base.domains ++ [d] } ↔
            key ∈ foldCase d.name :: base.keys := by
        simp [keys, or_comm]
      rw [if_neg h, ih, unseen_of_notMem h, unseen_congr hkeys, distinctDomains_congr hkeys]
      rw [distinctDomains.eq_def base.keys]
      simp [h]

lemma merge_eq (other : Description) :
    base.merge other =
      ({ base with domains := base.domains ++ unseen base.keys other.domains },
        (distinctDomains base.keys other.domains).2.map (·.item)) := by
  rw [merge, foldl_addDomain, List.nil_append]

/-- Merging several descriptions is merging one with all their domains. -/
lemma mergeAll_eq (others : List Description) :
    base.mergeAll others = base.merge { domains := others.flatMap (·.domains) } := by
  induction others generalizing base with
  | nil => rfl
  | cons other rest ih =>
    have happend : base.merge { domains := other.domains ++ rest.flatMap (·.domains) } =
        (rest.flatMap (·.domains)).foldl addDomain (base.merge other) := List.foldl_append
    rw [mergeAll, List.flatMap_cons, happend]
    generalize base.merge other = merged
    obtain ⟨d, skipped⟩ := merged
    rw [foldl_addDomain]
    simp only [ih, merge_eq d]

lemma mem_keys_merge (other : Description) (key : String) :
    key ∈ (base.merge other).1.keys ↔ key ∈ base.keys ++ other.keys := by
  rw [merge_eq]
  simp only [keys, List.map_append]
  exact mem_keys_unseen

lemma merge_of_subset {other : Description} (h : other.keys ⊆ base.keys) :
    base.merge other = (base, other.domains.map (·.name)) := by
  rw [merge_eq, unseen, distinctDomains_of_subset h]
  simp [repetition, Function.comp_def]

lemma merge_assoc (a b c : Description) :
    ((a.merge b).1.merge c).1 = (a.merge (b.merge c).1).1 := by
  have hright : unseen (a.keys ++ b.keys) (unseen b.keys c.domains) =
      unseen (a.merge b).1.keys c.domains := by
    rw [unseen_unseen]
    refine unseen_congr fun key => ?_
    rw [mem_keys_merge]
    simp only [List.mem_append]
    grind
  rw [merge_eq _ c, merge_eq a (b.merge c).1, merge_eq b c]
  simp only [unseen_append]
  rw [← keys, hright, merge_eq a b, List.append_assoc]

lemma nodup_keys_merge {other : Description} (h : base.keys.Nodup) :
    (base.merge other).1.keys.Nodup := by
  obtain ⟨hnodup, hnew⟩ := distinctDomains_nodup base.keys other.domains
  rw [merge_eq]
  simp only [keys, List.map_append]
  refine List.nodup_append.mpr ⟨h, hnodup, fun key hkey key' hkey' heq => ?_⟩
  obtain ⟨d, hd, rfl⟩ := List.mem_map.mp hkey'
  exact hnew d hd (heq ▸ hkey)

lemma keys_subset_mergeAll {others : List Description} {d : Description} (h : d ∈ base :: others) :
    d.keys ⊆ (base.mergeAll others).1.keys := by
  intro key hkey
  rw [mergeAll_eq, mem_keys_merge, List.mem_append]
  rcases List.mem_cons.mp h with rfl | h
  · exact .inl hkey
  · refine .inr ?_
    obtain ⟨domain, hdomain, rfl⟩ := List.mem_map.mp hkey
    exact List.mem_map_of_mem (List.mem_flatMap.mpr ⟨d, h, hdomain⟩)

end Description

namespace Bindings

variable {settings : Settings} {description : Description}

lemma generate_of_nodup (h : description.keys.Nodup) :
    (generate settings description).report.skipped.filter (·.kind == .domain) = [] ∧
      (generate settings description).domains.map (·.name) =
        description.domains.map (·.name) := by
  have hdistinct : distinctDomains [] description.domains = (description.domains, []) :=
    distinctDomains_of_nodup h
  constructor
  · have hitems : (itemReports settings description).filter (·.kind == .domain) = [] :=
      List.filter_eq_nil_iff.mpr fun s hs => by simpa using kind_of_mem_itemReports hs
    rw [skipped_generate, List.append_assoc, hdistinct]
    exact hitems
  · rw [names_generate, retained_of_nodup h]

end Bindings

namespace CommandLine

lemma mergeFiles_eq {m : Type → Type} [Monad m] [LawfulMonad m] [Host m] (d : Description)
    (paths : List String) : (mergeFiles d paths : Host.Action m Description) =
      (fun others => (d.mergeAll others).1) <$> paths.mapM loadDescription := by
  induction paths generalizing d with
  | nil => simp [mergeFiles, Description.mergeAll]
  | cons path rest ih =>
    simp only [mergeFiles, ih, List.mapM_cons, map_eq_pure_bind, bind_assoc, pure_bind,
      Description.mergeAll]

end CommandLine

open Bindings

/-- Of several descriptions the first is kept. Domains of the others are added, in order, if no
domain before them has their name, and all other names are returned. Merging is associative, and
what has been merged is not added again. If the first description has distinct names, so has the
result, and generating from it leaves out no domain. -/
theorem merging_keeps_first_occurrences (settings : Settings) (first : Description)
    (others : List Description) :
    let later := others.flatMap (·.domains)
    let merged := (first.mergeAll others).1
    merged.domains = first.domains ++ pick later (IsNew first.domains later) ∧
    (first.mergeAll others).2 = (pick later (¬ IsNew first.domains later ·)).map (·.name) ∧
    merged.version = first.version ∧
    (∀ a b c : Description, ((a.merge b).1.merge c).1 = (a.merge (b.merge c).1).1) ∧
    (∀ d ∈ first :: others, merged.merge d = (merged, d.domains.map (·.name))) ∧
    (first.keys.Nodup → merged.keys.Nodup ∧
      (generate settings merged).report.skipped.filter (·.kind == .domain) = [] ∧
      (generate settings merged).domains.map (·.name) = merged.domains.map (·.name)) ∧
    ∀ paths, (CommandLine.mergeFiles first paths : Host.Action (StateM Machine) Description) =
      (fun others => (first.mergeAll others).1) <$> paths.mapM CommandLine.loadDescription := by
  intro later merged
  have hmerge : first.mergeAll others = _ :=
    (first.mergeAll_eq others).trans (first.merge_eq { domains := later })
  have hdistinct := distinctDomains_eq first.keys later
  have hnew := pick_congr fun i => (first.isNew_iff later i)
  have hold := pick_congr fun i => not_congr (first.isNew_iff later i)
  refine ⟨?_, ?_, ?_, merge_assoc, fun d hd => ?_, fun hfirst => ?_,
    CommandLine.mergeFiles_eq first⟩
  · simp only [merged, hmerge, unseen, hdistinct, hnew]
    rfl
  · simp only [hmerge, hdistinct, hold, List.map_map]
    rfl
  · simp only [merged, hmerge]
  · exact merge_of_subset _ (keys_subset_mergeAll first hd)
  · have hkeys : merged.keys.Nodup := by
      simp only [merged, mergeAll_eq]
      exact nodup_keys_merge first hfirst
    exact ⟨hkeys, generate_of_nodup hkeys⟩

/-- A description of empty domains. -/
def ofNames (names : List String) : Description := { domains := names.map ({ name := · }) }

/-- Names that repeat those of the first description or of one another, in other letters. -/
theorem repeated_names_are_left_out :
    let first := ofNames ["Page", "DOM"]
    let merged := first.mergeAll [ofNames ["PAGE", "Log"], ofNames ["log", "Page", "Net"]]
    first.keys.Nodup ∧ merged.1.domains.map (·.name) = ["Page", "DOM", "Log", "Net"] ∧
      merged.2 = ["PAGE", "log", "Page"] ∧ merged.1.keys.Nodup ∧
      (generate {} merged.1).report.skipped.filter (·.kind == .domain) = [] := by
  intro first merged
  have hfirst : first.keys.Nodup := by decide +kernel
  obtain ⟨_, _, _, _, _, hnodup, _⟩ := merging_keeps_first_occurrences {} first
    [ofNames ["PAGE", "Log"], ofNames ["log", "Page", "Net"]]
  obtain ⟨hkeys, hclean, _⟩ := hnodup hfirst
  exact ⟨hfirst, by decide +kernel, by decide +kernel, hkeys, hclean⟩

end InspectorProtocol

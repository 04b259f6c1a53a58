import InspectorProtocol.Proofs.Declarations

/-!
# Every declaration is kept or reported

Reading the drafts of a domain reports what it does not keep, and so does every round of pruning.
So of the declarations with one name and kind, those that are kept and those that are reported add
up to all there are.
-/

namespace InspectorProtocol

open Description

/-- Whether a draft is of a declaration with a name and a kind. -/
def Draft.isOf (item : String) (kind : ItemKind) (d : Draft) : Bool :=
  d.item == item && d.kind == kind

/-- Whether a report is of a declaration of a domain with a name and a kind. -/
def Skipped.isOf (domain item : String) (kind : ItemKind) (s : Skipped) : Bool :=
  s.domain == domain && s.item == item && s.kind == kind

def Declaration.isOf (item : String) (kind : ItemKind) (x : Declaration) : Bool :=
  x.name == item && x.kind == kind

namespace Draft

variable {settings : Settings} {c : Catalogue} {item : String} {kind : ItemKind}

lemma Sifts.countP {domain : String} {taken : List String}
    {attempts : List (String × ItemKind × Except Failure Draft)} {drafts : List Draft}
    {skipped : List Skipped} (h : Sifts domain taken attempts drafts skipped)
    (hlabels : ∀ a ∈ attempts, ∀ draft, a.2.2 = .ok draft →
      draft.item = a.1 ∧ draft.kind = a.2.1) :
    drafts.countP (isOf item kind) + skipped.countP (Skipped.isOf domain item kind) =
      attempts.countP fun a => a.1 == item && a.2.1 == kind := by
  induction h with
  | nil => rfl
  | kept _ _ ih =>
    obtain ⟨hitem, hkind⟩ := hlabels _ List.mem_cons_self _ rfl
    have hrest := ih fun a ha => hlabels a (List.mem_cons_of_mem _ ha)
    simp only [List.countP_cons, isOf, hitem, hkind]
    omega
  | refused _ _ ih =>
    have hrest := ih fun a ha => hlabels a (List.mem_cons_of_mem _ ha)
    simp only [List.countP_cons, Skipped.isOf, beq_self_eq_true, Bool.true_and]
    omega

lemma countP_keepFree (domain : String) (taken : List String) (xs : List Declaration) :
    let outcome := keepFree domain taken
      (xs.map fun x => (x.name, x.kind, x.attempt settings c domain))
    outcome.1.countP (isOf item kind) + outcome.2.countP (Skipped.isOf domain item kind) =
      xs.countP (Declaration.isOf item kind) := by
  intro outcome
  refine ((sifts_keepFree domain taken _).countP fun a ha draft hok => ?_).trans List.countP_map
  obtain ⟨x, _, rfl⟩ := List.mem_map.mp ha
  obtain ⟨hitem, hkind, _⟩ := attempt_labels hok
  exact ⟨hitem, hkind⟩

end Draft

namespace Pruning

/-- The drafts of the domains with one name that are of one declaration's name and kind. -/
def countOf (domain item : String) (kind : ItemKind) (outputs : List DomainDrafts) : Nat :=
  total (fun o => if o.domain.name = domain then o.drafts.countP (Draft.isOf item kind) else 0)
    outputs

variable {domain item : String} {kind : ItemKind}

lemma countP_dropped (available : List (String × String)) (drafts : List Draft) :
    (drafts.filter fun d => (missing? available d).isNone).countP (Draft.isOf item kind) +
      (drafts.filterMap (dropped available domain)).countP (Skipped.isOf domain item kind) =
      drafts.countP (Draft.isOf item kind) := by
  induction drafts with
  | nil => rfl
  | cons d rest ih =>
    cases hmissing : missing? available d with
    | none =>
      simp only [List.filter_cons, List.filterMap_cons, dropped, hmissing, Option.isNone_none,
        Option.map_none, if_true, List.countP_cons] at ih ⊢
      omega
    | some need =>
      have hhead : Skipped.isOf domain item kind ⟨domain, d.item, d.kind,
          .unresolvedReference domain (need.1 ++ "." ++ need.2)⟩ = d.isOf item kind := by
        simp [Skipped.isOf, Draft.isOf]
      simp only [List.filter_cons, List.filterMap_cons, dropped, hmissing, Option.isNone_some,
        Option.map_some, Bool.false_eq_true, if_false, List.countP_cons, hhead] at ih ⊢
      omega

lemma countP_dropped_of_ne {other : String} (h : other ≠ domain)
    (available : List (String × String)) (drafts : List Draft) :
    (drafts.filterMap (dropped available other)).countP (Skipped.isOf domain item kind) = 0 := by
  refine List.countP_eq_zero.mpr fun s hs => ?_
  obtain ⟨d, _, hdropped⟩ := List.mem_filterMap.mp hs
  obtain ⟨need, _, rfl⟩ := Option.map_eq_some_iff.mp hdropped
  simp [Skipped.isOf, h]

lemma countP_round (outputs : List DomainDrafts) :
    countOf domain item kind (round outputs).1 +
      (round outputs).2.countP (Skipped.isOf domain item kind) =
      countOf domain item kind outputs := by
  unfold round countOf
  generalize declared outputs = available
  induction outputs with
  | nil => rfl
  | cons o rest ih =>
    have hsplit : (if o.domain.name = domain then
          (o.drafts.filter fun d => (missing? available d).isNone).countP (Draft.isOf item kind)
        else 0) +
        (o.drafts.filterMap (dropped available o.domain.name)).countP
          (Skipped.isOf domain item kind) =
        if o.domain.name = domain then o.drafts.countP (Draft.isOf item kind) else 0 := by
      split
      · rename_i hname
        rw [hname, countP_dropped]
      · rename_i hname
        rw [countP_dropped_of_ne hname]
    simp only [List.map_cons, List.flatten_cons, total_cons, List.countP_append]
    simp only at ih
    omega

lemma countP_rounds (fuel : Nat) (outputs : List DomainDrafts) :
    countOf domain item kind (rounds fuel outputs).1 +
      (rounds fuel outputs).2.countP (Skipped.isOf domain item kind) =
      countOf domain item kind outputs := by
  induction fuel generalizing outputs with
  | zero => rfl
  | succ fuel ih =>
    by_cases hquiet : (round outputs).2 = []
    · rw [rounds_of_nil hquiet]
      rfl
    · have hround : countOf domain item kind (round outputs).1 + _ = _ := countP_round outputs
      have hrest := ih (round outputs).1
      rw [rounds_of_ne_nil hquiet]
      simp only [List.countP_append]
      omega

end Pruning

namespace Bindings

variable {settings : Settings} {description : Description} {domain item : String} {kind : ItemKind}

lemma skipped_generate (settings : Settings) (description : Description) :
    (generate settings description).report.skipped =
      (distinctDomains [] description.domains).2 ++
        ((retained description).flatMap fun d =>
          (Draft.ofDomain settings (catalogue settings description) d).2) ++
        (Pruning.prune (drafted settings description)).2 := by
  simp only [generate, retained, catalogue, drafted, List.map_map, Function.comp_def, List.flatMap]

lemma kind_of_mem_duplicates {seen : List String} {domains : List Domain} {s : Skipped}
    (h : s ∈ (distinctDomains seen domains).2) : s.kind = .domain := by
  induction domains generalizing seen with
  | nil => cases h
  | cons d rest ih =>
    unfold distinctDomains at h
    simp only at h
    split at h
    · rcases List.mem_cons.mp h with rfl | hlater
      · rfl
      · exact ih hlater
    · exact ih h

/-- The declarations of the domains with one name that have one name and kind. -/
def declarationCount (description : Description) (domain item : String) (kind : ItemKind) : Nat :=
  total (fun d => if d.name = domain then d.declarations.countP (Declaration.isOf item kind) else 0)
    (retained description)

lemma countP_ofDomain (c : Catalogue) (d : Domain) :
    (if d.name = domain then (Draft.ofDomain settings c d).1.countP (Draft.isOf item kind) else 0) +
      (Draft.ofDomain settings c d).2.countP (Skipped.isOf domain item kind) =
      if d.name = domain then d.declarations.countP (Declaration.isOf item kind) else 0 := by
  unfold Draft.ofDomain
  split
  · rename_i hname
    rw [Draft.attempts_eq, ← hname]
    exact Draft.countP_keepFree d.name [] d.declarations
  · rename_i hname
    rw [Nat.zero_add]
    refine List.countP_eq_zero.mpr fun s hs => ?_
    simp [Skipped.isOf, (Draft.sifts_keepFree _ _ _).domain_of_mem hs, hname]

lemma countOf_drafted (c : Catalogue) (domains : List Domain) :
    Pruning.countOf domain item kind
        (domains.map fun d => ⟨d, (Draft.ofDomain settings c d).1⟩) +
      (domains.flatMap fun d => (Draft.ofDomain settings c d).2).countP
        (Skipped.isOf domain item kind) =
      total (fun d => if d.name = domain then d.declarations.countP (Declaration.isOf item kind)
        else 0) domains := by
  induction domains with
  | nil => rfl
  | cons d rest ih =>
    have hhead := @countP_ofDomain settings domain item kind c d
    simp only [Pruning.countOf, List.map_cons, List.flatMap_cons, total_cons,
      List.countP_append] at ih ⊢
    omega

/-- The reports of declarations: those without a draft, then those whose drafts pruning drops. -/
def itemReports (settings : Settings) (description : Description) : List Skipped :=
  ((retained description).flatMap fun d =>
    (Draft.ofDomain settings (catalogue settings description) d).2) ++
    (Pruning.prune (drafted settings description)).2

lemma countP_itemReports :
    Pruning.countOf domain item kind (kept settings description) +
      (itemReports settings description).countP (Skipped.isOf domain item kind) =
      declarationCount description domain item kind := by
  have hpruned : Pruning.countOf domain item kind (kept settings description) +
      (Pruning.prune (drafted settings description)).2.countP (Skipped.isOf domain item kind) =
      Pruning.countOf domain item kind (drafted settings description) :=
    Pruning.countP_rounds _ _
  have hdrafted : Pruning.countOf domain item kind (drafted settings description) + _ =
      declarationCount description domain item kind := countOf_drafted _ _
  rw [itemReports, List.countP_append]
  omega

/-- Every declaration of a domain that is not a repetition is kept or reported, exactly as often as
it is declared. -/
theorem kept_or_skipped (hkind : kind ≠ .domain) :
    Pruning.countOf domain item kind (kept settings description) +
      (generate settings description).report.skipped.countP (Skipped.isOf domain item kind) =
      declarationCount description domain item kind := by
  have hduplicates : (distinctDomains [] description.domains).2.countP
      (Skipped.isOf domain item kind) = 0 := by
    refine List.countP_eq_zero.mpr fun s hs => ?_
    simp [Skipped.isOf, kind_of_mem_duplicates hs, Ne.symm hkind]
  have hitems := @countP_itemReports settings description domain item kind
  rw [skipped_generate, List.append_assoc, List.countP_append, ← itemReports]
  omega

lemma not_skipped_of_kept (hkind : kind ≠ .domain) {o : DomainDrafts} {draft : Draft}
    (ho : o ∈ kept settings description) (hdraft : draft ∈ o.drafts)
    (hself : draft.isOf item kind = true)
    (honce : declarationCount description o.domain.name item kind = 1) :
    ∀ s ∈ (generate settings description).report.skipped,
      s.isOf o.domain.name item kind = false := by
  have hcount := @kept_or_skipped settings description o.domain.name item kind hkind
  have hdrafts : 0 < o.drafts.countP (Draft.isOf item kind) :=
    List.countP_pos_iff.mpr ⟨draft, hdraft, hself⟩
  have hkept := measure_le_total (fun o' : DomainDrafts => if o'.domain.name = o.domain.name then
    o'.drafts.countP (Draft.isOf item kind) else 0) ho
  simp only [if_true] at hkept
  have hnone : (generate settings description).report.skipped.countP
      (Skipped.isOf o.domain.name item kind) = 0 := by
    unfold Pruning.countOf at hcount
    omega
  intro s hs
  simpa using List.countP_eq_zero.mp hnone s hs

end Bindings

end InspectorProtocol

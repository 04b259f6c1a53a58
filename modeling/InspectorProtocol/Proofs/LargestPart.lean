import InspectorProtocol.Proofs.Accounting

/-!
# Pruning keeps the largest closed part

A part of the drafts that needs only what it declares itself loses nothing in a round, since what
it needs is declared before the round too. So pruning, which ends with a closed part, ends with the
largest one. A draft that is dropped is reported in its round, for a need that is not declared then
and so not in the end.
-/

namespace InspectorProtocol

/-! ### Splitting lists -/

section Lists

variable {α β : Type}

namespace Splits

lemma refl (xs : List α) : Splits xs [] xs := by
  induction xs with
  | nil => exact .nil
  | cons _ _ ih => exact ih.first

lemma filter (p : α → Bool) (xs : List α) : Splits (xs.filter p) (xs.filter (!p ·)) xs := by
  induction xs with
  | nil => exact .nil
  | cons x rest ih =>
    cases hx : p x with
    | true => simpa [hx] using ih.first
    | false => simpa [hx] using ih.second

lemma trans {kept later middle earlier whole : List α} (h : Splits kept later middle)
    (h' : Splits middle earlier whole) :
    ∃ removed, Splits kept removed whole ∧ (earlier ++ later).Perm removed := by
  induction h' generalizing kept later with
  | nil =>
    cases h
    exact ⟨[], .nil, .nil⟩
  | first _ ih =>
    cases h with
    | first hrest =>
      obtain ⟨removed, hsplits, hperm⟩ := ih hrest
      exact ⟨removed, hsplits.first, hperm⟩
    | second hrest =>
      obtain ⟨removed, hsplits, hperm⟩ := ih hrest
      exact ⟨_ :: removed, hsplits.second, List.perm_middle.trans (hperm.cons _)⟩
  | second _ ih =>
    obtain ⟨removed, hsplits, hperm⟩ := ih h
    exact ⟨_ :: removed, hsplits.second, hperm.cons _⟩

end Splits

lemma forall₂_filterMap (f : α → Option β) (xs : List α) :
    List.Forall₂ (fun x y => f x = some y) (xs.filter fun x => !(f x).isNone) (xs.filterMap f) := by
  induction xs with
  | nil => exact .nil
  | cons x rest ih =>
    cases hx : f x with
    | none =>
      rw [List.filter_cons_of_neg (by simp [hx]), List.filterMap_cons_none hx]
      exact ih
    | some y =>
      rw [List.filter_cons_of_pos (by simp [hx]), List.filterMap_cons_some hx]
      exact .cons hx ih

end Lists

namespace Pruning

/-- Rounds up to one that drops nothing, what they keep and what they report. -/
inductive Settles : List DomainDrafts → List DomainDrafts → List Skipped → Prop where
  | quiet {outputs : List DomainDrafts} (h : (round outputs).2 = []) :
    Settles outputs (round outputs).1 []
  | again {outputs kept : List DomainDrafts} {more : List Skipped} (h : (round outputs).2 ≠ [])
    (rest : Settles (round outputs).1 kept more) :
    Settles outputs kept ((round outputs).2 ++ more)

/-- The drafts in order, each with the name of its domain. -/
def items (outputs : List DomainDrafts) : List (String × Draft) :=
  outputs.flatMap fun o => o.drafts.map (o.domain.name, ·)

/-- Whether a report is of a draft and names one of its needs that nothing declares. -/
def Reports (kept : List DomainDrafts) (item : String × Draft) (s : Skipped) : Prop :=
  ∃ need ∈ item.2.needs, need ∉ declared kept ∧
    s = ⟨item.1, item.2.item, item.2.kind,
      .unresolvedReference item.1 (need.1 ++ "." ++ need.2)⟩

/-! ### A part that loses nothing -/

lemma Thins.declared_subset {part outputs : List DomainDrafts} (h : Thins part outputs) :
    declared part ⊆ declared outputs := by
  intro need hneed
  obtain ⟨o, ho, d, hd, hdomain, hdeclares⟩ := mem_declared.mp hneed
  obtain ⟨o', ho', hsame, hdrafts⟩ := h.exists_of_mem ho
  exact mem_declared.mpr ⟨o', ho', d, hdrafts hd, hsame ▸ hdomain, hdeclares⟩

/-- A closed part of the drafts is left by a round. -/
lemma Thins.round {part outputs : List DomainDrafts} (h : Thins part outputs)
    (hclosed : Closed part) : Thins part (round outputs).1 := by
  have hneeds : ∀ o ∈ part, ∀ d ∈ o.drafts, (missing? (declared outputs) d).isNone = true := by
    intro o ho d hd
    rw [Option.isNone_iff_eq_none, missing?_eq_none]
    exact fun need hneed => h.declared_subset (hclosed o ho d hd need hneed)
  unfold Pruning.round
  generalize declared outputs = available at hneeds
  clear hclosed
  induction h with
  | nil => exact .nil
  | @cons o o' _ _ hhead _ ih =>
    refine .cons ⟨hhead.1, ?_⟩ (ih fun p hp => hneeds p (List.mem_cons_of_mem _ hp))
    have hall := List.filter_eq_self.mpr (hneeds o List.mem_cons_self)
    exact hall ▸ hhead.2.filter _

lemma Thins.rounds {part outputs : List DomainDrafts} (fuel : Nat) (h : Thins part outputs)
    (hclosed : Closed part) : Thins part (rounds fuel outputs).1 := by
  induction fuel generalizing outputs with
  | zero => exact h
  | succ fuel ih =>
    by_cases hquiet : (Pruning.round outputs).2 = []
    · rw [rounds_of_nil hquiet]
      exact h
    · rw [rounds_of_ne_nil hquiet]
      exact ih (h.round hclosed)

/-! ### The end of the rounds -/

lemma round_of_closed {outputs : List DomainDrafts} (h : Closed outputs) :
    (round outputs).1 = outputs := by
  unfold Pruning.round
  refine (List.map_congr_left fun o ho => ?_).trans (List.map_id _)
  have hall : ∀ d ∈ o.drafts, (missing? (declared outputs) d).isNone = true := by
    intro d hd
    rw [Option.isNone_iff_eq_none, missing?_eq_none]
    exact h o ho d hd
  rw [List.filter_eq_self.mpr hall]
  rfl

lemma settles_rounds {fuel : Nat} {outputs : List DomainDrafts} (h : draftCount outputs < fuel) :
    Settles outputs (rounds fuel outputs).1 (rounds fuel outputs).2 := by
  induction fuel generalizing outputs with
  | zero => omega
  | succ fuel ih =>
    by_cases hquiet : (round outputs).2 = []
    · have hsame := round_of_closed (closed_of_round hquiet)
      have hend := Settles.quiet hquiet
      rw [hsame] at hend
      rw [rounds_of_nil hquiet]
      exact hend
    · rw [rounds_of_ne_nil hquiet]
      have hlength := length_round outputs
      have hpos := List.length_pos_iff.mpr hquiet
      exact .again hquiet (ih (by omega))

lemma Settles.unique {outputs kept kept' : List DomainDrafts} {skipped skipped' : List Skipped}
    (h : Settles outputs kept skipped) (h' : Settles outputs kept' skipped') :
    kept = kept' ∧ skipped = skipped' := by
  induction h generalizing kept' skipped' with
  | quiet hquiet =>
    cases h' with
    | quiet => exact ⟨rfl, rfl⟩
    | again hsome => exact (hsome hquiet).elim
  | again hsome _ ih =>
    cases h' with
    | quiet hquiet => exact (hsome hquiet).elim
    | again _ hrest =>
      obtain ⟨rfl, rfl⟩ := ih hrest
      exact ⟨rfl, rfl⟩

/-! ### What is dropped is reported -/

lemma items_round (outputs : List DomainDrafts) : items (round outputs).1 =
    (items outputs).filter fun item => (dropped (declared outputs) item.1 item.2).isNone := by
  simp [items, round, List.flatMap_map, List.filter_flatMap, List.filter_map, Function.comp_def,
    dropped]

lemma skipped_round (outputs : List DomainDrafts) : (round outputs).2 =
    (items outputs).filterMap fun item => dropped (declared outputs) item.1 item.2 := by
  simp [items, round, List.filterMap_map, Function.comp_def, List.flatMap]

/-- The reports of the drafts that are dropped, whatever is still declared in the end. -/
lemma reports_of_dropped {outputs kept : List DomainDrafts} (h : declared kept ⊆ declared outputs)
    {item : String × Draft} {s : Skipped}
    (hs : dropped (declared outputs) item.1 item.2 = some s) : Reports kept item s := by
  obtain ⟨need, hmissing, rfl⟩ := Option.map_eq_some_iff.mp hs
  have hnot : need ∉ declared outputs := by simpa using List.find?_some hmissing
  exact ⟨need, List.mem_of_find?_eq_some hmissing, fun hkept => hnot (h hkept), rfl⟩

lemma round_reports {outputs kept : List DomainDrafts}
    (h : declared kept ⊆ declared outputs) :
    ∃ removed, Splits (items (round outputs).1) removed (items outputs) ∧
      List.Forall₂ (Reports kept) removed (round outputs).2 := by
  let report (item : String × Draft) := dropped (declared outputs) item.1 item.2
  refine ⟨(items outputs).filter fun item => !(report item).isNone, ?_, ?_⟩
  · rw [items_round]
    exact Splits.filter _ _
  · rw [skipped_round]
    exact (forall₂_filterMap report _).imp fun _ _ hs => reports_of_dropped h hs

lemma rounds_reports (fuel : Nat) (outputs : List DomainDrafts) :
    ∃ removed order, Splits (items (rounds fuel outputs).1) removed (items outputs) ∧
      order.Perm removed ∧
      List.Forall₂ (Reports (rounds fuel outputs).1) order (rounds fuel outputs).2 := by
  induction fuel generalizing outputs with
  | zero => exact ⟨[], [], Splits.refl _, .nil, .nil⟩
  | succ fuel ih =>
    by_cases hquiet : (round outputs).2 = []
    · rw [rounds_of_nil hquiet]
      exact ⟨[], [], Splits.refl _, .nil, .nil⟩
    · rw [rounds_of_ne_nil hquiet]
      have hfewer := ((thins_rounds fuel _).trans (thins_round outputs)).declared_subset
      obtain ⟨later, order, hrest, hperm, hreports⟩ := ih (round outputs).1
      obtain ⟨earlier, hround, hdropped⟩ := round_reports hfewer
      obtain ⟨removed, hsplits, hremoved⟩ := hrest.trans hround
      exact ⟨removed, earlier ++ order, hsplits, (hperm.append_left _).trans hremoved,
        List.rel_append hdropped hreports⟩

/-- Pruning drops drafts in rounds until a round drops none, and that comes about. What it keeps
is closed and in order, and every closed part of the drafts is a part of it. Each draft that is
dropped is reported once, for a need that no kept draft declares. -/
theorem prune_keeps_the_largest_closed_part (outputs : List DomainDrafts) :
    (∀ kept skipped, Settles outputs kept skipped ↔ prune outputs = (kept, skipped)) ∧
    Thins (prune outputs).1 outputs ∧ Closed (prune outputs).1 ∧
    (∀ part, Thins part outputs → Closed part → Thins part (prune outputs).1) ∧
    ∃ removed order, Splits (items (prune outputs).1) removed (items outputs) ∧
      order.Perm removed ∧
      List.Forall₂ (Reports (prune outputs).1) order (prune outputs).2 := by
  have hsettles : Settles outputs (prune outputs).1 (prune outputs).2 :=
    settles_rounds (Nat.lt_succ_self _)
  refine ⟨fun kept skipped => ⟨fun h => ?_, fun h => ?_⟩, prune_thins outputs, prune_closed outputs,
    fun part hthins hclosed => hthins.rounds _ hclosed, rounds_reports _ outputs⟩
  · obtain ⟨hkept, hskipped⟩ := hsettles.unique h
    exact Prod.ext hkept hskipped
  · rw [h] at hsettles
    exact hsettles

end Pruning

end InspectorProtocol

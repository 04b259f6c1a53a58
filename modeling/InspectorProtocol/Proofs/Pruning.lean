import InspectorProtocol.Binding.Pruning
import Mathlib.Data.List.Basic
import Mathlib.Tactic.Lemma

/-!
# Pruned drafts need nothing that is missing

A round splits the drafts into those it keeps and those it reports, so a round that reports nothing
has found every need declared. Each earlier round reports at least one draft, so there are no more
rounds than drafts, and pruning ends with such a round.
-/

namespace InspectorProtocol.Pruning

/-- Every need of a draft is declared by a draft. -/
def Closed (outputs : List DomainDrafts) : Prop :=
  ∀ o ∈ outputs, ∀ d ∈ o.drafts, ∀ need ∈ d.needs, need ∈ declared outputs

/-- The same domains, each with some of its drafts in order. -/
def Thins : List DomainDrafts → List DomainDrafts → Prop :=
  List.Forall₂ fun kept o => kept.domain = o.domain ∧ kept.drafts.Sublist o.drafts

lemma mem_declared {outputs : List DomainDrafts} {need : String × String} :
    need ∈ declared outputs ↔
      ∃ o ∈ outputs, ∃ d ∈ o.drafts, o.domain.name = need.1 ∧ d.declares = some need.2 := by
  simp only [declared, List.mem_flatten, List.mem_map, exists_exists_and_eq_and,
    List.mem_filterMap, Option.map_eq_some_iff, Prod.ext_iff]
  constructor
  · rintro ⟨o, ho, d, hd, name, hdeclares, hdomain, rfl⟩
    exact ⟨o, ho, d, hd, hdomain, hdeclares⟩
  · rintro ⟨o, ho, d, hd, hdomain, hdeclares⟩
    exact ⟨o, ho, d, hd, need.2, hdeclares, hdomain, rfl⟩

lemma missing?_eq_none {available : List (String × String)} {d : Draft} :
    missing? available d = none ↔ ∀ need ∈ d.needs, need ∈ available := by
  simp [missing?]

lemma isSome_dropped (available : List (String × String)) (domain : String) (d : Draft) :
    (dropped available domain d).isSome = (missing? available d).isSome := by
  simp [dropped]

lemma rounds_of_nil {fuel : Nat} {outputs : List DomainDrafts} (h : (round outputs).2 = []) :
    rounds (fuel + 1) outputs = (outputs, []) := by
  unfold rounds
  split
  · rfl
  · rename_i hsome heq
    rw [heq] at h
    exact (hsome h).elim

lemma rounds_of_ne_nil {fuel : Nat} {outputs : List DomainDrafts} (h : (round outputs).2 ≠ []) :
    rounds (fuel + 1) outputs = ((rounds fuel (round outputs).1).1,
      (round outputs).2 ++ (rounds fuel (round outputs).1).2) := by
  conv_lhs => unfold rounds
  split
  · rename_i heq
    rw [heq] at h
    exact (h rfl).elim
  · rename_i heq
    rw [heq]

lemma length_round (outputs : List DomainDrafts) :
    draftCount (round outputs).1 + (round outputs).2.length = draftCount outputs := by
  unfold round draftCount
  generalize declared outputs = available
  induction outputs with
  | nil => rfl
  | cons o rest ih =>
    have hsplit : (o.drafts.filter fun d => (missing? available d).isNone).length +
        (o.drafts.filterMap (dropped available o.domain.name)).length = o.drafts.length := by
      induction o.drafts with
      | nil => rfl
      | cons d drafts ihd =>
        cases hmissing : missing? available d with
        | none => simp [dropped, hmissing]; omega
        | some need => simp [dropped, hmissing]; omega
    simp only [List.map_cons, List.flatten_cons, total_cons, List.length_append]
    simp only at ih
    omega

lemma closed_of_round {outputs : List DomainDrafts} (h : (round outputs).2 = []) :
    Closed outputs := by
  intro o ho d hd
  rw [← missing?_eq_none, ← Option.not_isSome_iff_eq_none, ← isSome_dropped _ o.domain.name]
  intro hdropped
  obtain ⟨skipped, hskipped⟩ := Option.isSome_iff_exists.mp hdropped
  have hmem : skipped ∈ (round outputs).2 := by
    unfold round
    simp only [List.mem_flatten, List.mem_map, exists_exists_and_eq_and, List.mem_filterMap]
    exact ⟨o, ho, d, hd, hskipped⟩
  rw [h] at hmem
  cases hmem

lemma rounds_closed {fuel : Nat} {outputs : List DomainDrafts} (h : draftCount outputs < fuel) :
    Closed (rounds fuel outputs).1 := by
  induction fuel generalizing outputs with
  | zero => omega
  | succ fuel ih =>
    by_cases hquiet : (round outputs).2 = []
    · rw [rounds_of_nil hquiet]
      exact closed_of_round hquiet
    · rw [rounds_of_ne_nil hquiet]
      have hlength := length_round outputs
      have hpos := List.length_pos_iff.mpr hquiet
      exact ih (by omega)

theorem prune_closed (outputs : List DomainDrafts) : Closed (prune outputs).1 :=
  rounds_closed (Nat.lt_succ_self _)

lemma thins_refl (outputs : List DomainDrafts) : Thins outputs outputs := by
  induction outputs with
  | nil => exact List.Forall₂.nil
  | cons o rest ih => exact List.Forall₂.cons ⟨rfl, List.Sublist.refl _⟩ ih

lemma thins_round (outputs : List DomainDrafts) : Thins (round outputs).1 outputs := by
  unfold round
  generalize declared outputs = available
  induction outputs with
  | nil => exact List.Forall₂.nil
  | cons o rest ih => exact List.Forall₂.cons ⟨rfl, List.filter_sublist⟩ ih

lemma Thins.trans {first second third : List DomainDrafts} (h : Thins first second)
    (h' : Thins second third) : Thins first third := by
  induction h generalizing third with
  | nil => exact h'
  | cons hhead _ ih =>
    rcases h' with _ | ⟨hhead', htail'⟩
    exact List.Forall₂.cons ⟨hhead.1.trans hhead'.1, hhead.2.trans hhead'.2⟩ (ih htail')

lemma thins_rounds (fuel : Nat) (outputs : List DomainDrafts) :
    Thins (rounds fuel outputs).1 outputs := by
  induction fuel generalizing outputs with
  | zero => exact thins_refl outputs
  | succ fuel ih =>
    by_cases hquiet : (round outputs).2 = []
    · rw [rounds_of_nil hquiet]
      exact thins_refl outputs
    · rw [rounds_of_ne_nil hquiet]
      exact (ih _).trans (thins_round outputs)

theorem prune_thins (outputs : List DomainDrafts) : Thins (prune outputs).1 outputs :=
  thins_rounds _ outputs

lemma Thins.domains {kept outputs : List DomainDrafts} (h : Thins kept outputs) :
    kept.map (·.domain) = outputs.map (·.domain) := by
  induction h with
  | nil => rfl
  | cons hhead _ ih => rw [List.map_cons, List.map_cons, hhead.1, ih]

lemma Thins.exists_sublist_of_mem {kept outputs : List DomainDrafts} (h : Thins kept outputs)
    {o : DomainDrafts} (ho : o ∈ kept) :
    ∃ o' ∈ outputs, o.domain = o'.domain ∧ o.drafts.Sublist o'.drafts := by
  induction h with
  | nil => cases ho
  | cons hhead _ ih =>
    rcases List.mem_cons.mp ho with rfl | htail
    · exact ⟨_, List.mem_cons_self, hhead.1, hhead.2⟩
    · obtain ⟨o', ho', hdomain, hdrafts⟩ := ih htail
      exact ⟨o', List.mem_cons_of_mem _ ho', hdomain, hdrafts⟩

lemma Thins.exists_of_mem {kept outputs : List DomainDrafts} (h : Thins kept outputs)
    {o : DomainDrafts} (ho : o ∈ kept) :
    ∃ o' ∈ outputs, o.domain = o'.domain ∧ o.drafts ⊆ o'.drafts := by
  obtain ⟨o', ho', hdomain, hdrafts⟩ := h.exists_sublist_of_mem ho
  exact ⟨o', ho', hdomain, hdrafts.subset⟩

end InspectorProtocol.Pruning

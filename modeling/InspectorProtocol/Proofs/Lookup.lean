import Mathlib.Tactic.Lemma

/-!
# Lists of entries and their keys

Replacing an entry of an association list filters out its key. The other keys do not see this. Nor
do they see the order of the entries, as long as each key has one. Keys that are all different
ascend once they are sorted.
-/

namespace InspectorProtocol

variable {κ α : Type} [BEq κ] [LawfulBEq κ] {entries : List (κ × α)} {keep : κ × α → Bool} {key : κ}

lemma lookup_filter_of_kept (h : ∀ a, keep (key, a) = true) :
    (entries.filter keep).lookup key = entries.lookup key := by
  induction entries with
  | nil => rfl
  | cons e rest ih =>
    obtain ⟨other, a⟩ := e
    by_cases hkept : keep (other, a) = true
    · rw [List.filter_cons_of_pos hkept, List.lookup_cons, List.lookup_cons, ih]
    · have hother : (key == other) = false := by
        refine beq_false_of_ne fun heq => hkept ?_
        exact heq ▸ h a
      rw [List.filter_cons_of_neg hkept, ih, List.lookup_cons, hother]

lemma lookup_filter_of_dropped (h : ∀ a, keep (key, a) = false) :
    (entries.filter keep).lookup key = none := by
  refine List.lookup_eq_none_iff.mpr fun e he => ?_
  obtain ⟨other, a⟩ := e
  have hkept : keep (other, a) = true := (List.mem_filter.mp he).2
  refine bne_iff_ne.mpr fun heq => ?_
  rw [heq] at h
  exact absurd hkept (by simp [h a])

lemma lookup_eq_of_perm {entries' : List (κ × α)} (h : entries.Perm entries')
    (hnodup : (entries.map (·.1)).Nodup) (key : κ) : entries.lookup key = entries'.lookup key := by
  induction h with
  | nil => rfl
  | cons x _ ih =>
    rw [List.lookup_cons, List.lookup_cons, ih (List.nodup_cons.mp hnodup).2]
  | swap x y rest =>
    have hne : y.1 ≠ x.1 := by
      intro heq
      simp [heq] at hnodup
    rw [List.lookup_cons, List.lookup_cons, List.lookup_cons, List.lookup_cons]
    cases hx : key == x.1 with
    | true =>
      have hy : (key == y.1) = false := beq_eq_false_iff_ne.mpr (eq_of_beq hx ▸ hne.symm)
      rw [hy]
    | false => rfl
  | trans hfirst _ ih ih' =>
    rw [ih hnodup, ih' ((hfirst.map _).nodup_iff.mp hnodup)]

lemma lookup_eq_some_iff_mem (hnodup : (entries.map (·.1)).Nodup) {a : α} :
    entries.lookup key = some a ↔ (key, a) ∈ entries := by
  induction entries with
  | nil => simp
  | cons e rest ih =>
    obtain ⟨other, b⟩ := e
    obtain ⟨hnew, hrest⟩ := List.nodup_cons.mp hnodup
    rw [List.lookup_cons, List.mem_cons]
    by_cases hkey : key = other
    · have hlater : (key, a) ∉ rest := by
        intro hmem
        exact hnew (hkey ▸ List.mem_map.mpr ⟨_, hmem, rfl⟩)
      simp [hkey, hkey ▸ hlater, eq_comm]
    · simp [beq_false_of_ne hkey, hkey, ih hrest]

lemma mergeSort_ascending {keys : List String} (h : keys.Nodup) :
    (keys.mergeSort fun a b => decide (a ≤ b)).Pairwise (· < ·) := by
  have hsorted : (keys.mergeSort fun a b => decide (a ≤ b)).Pairwise
      fun a b => decide (a ≤ b) = true := by
    refine List.pairwise_mergeSort ?_ ?_ _
    · intro a b c hab hbc
      exact decide_eq_true (String.le_trans (of_decide_eq_true hab) (of_decide_eq_true hbc))
    · intro a b
      simpa using String.le_total a b
  have hdistinct : (keys.mergeSort fun a b => decide (a ≤ b)).Nodup :=
    (List.mergeSort_perm _ _).nodup_iff.mpr h
  refine (hsorted.and hdistinct).imp fun {a b} ⟨hle, hne⟩ => ?_
  refine Decidable.byContradiction fun hnot => hne ?_
  exact String.le_antisymm (of_decide_eq_true hle) (String.not_lt.mp hnot)

end InspectorProtocol

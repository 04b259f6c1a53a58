import InspectorProtocol.Text.Ascii
import Mathlib.Tactic.Lemma

/-!
# Texts cut into pieces

The pieces of a text hold no separator. With a separator before each of them they are the text
again, behind one separator more, and pieces that are put together in this way are found again.
-/

namespace InspectorProtocol.Text

variable {p : Char → Bool}

lemma splitChars_of_forall {cs : List Char} (h : ∀ c ∈ cs, p c = false) :
    splitChars p cs = [cs] := by
  induction cs with
  | nil => rfl
  | cons c rest ih =>
    have hrest := ih fun d hd => h d (List.mem_cons_of_mem _ hd)
    simp [splitChars, h c List.mem_cons_self, hrest]

lemma splitChars_append {c : Char} (hc : p c = true) (cs rest : List Char) :
    splitChars p (cs ++ c :: rest) = splitChars p cs ++ splitChars p rest := by
  induction cs with
  | nil => simp [splitChars, hc]
  | cons d cs ih =>
    by_cases hd : p d = true
    · simp [splitChars, hd, ih]
    · cases hsplit : splitChars p cs with
      | nil => exact absurd hsplit (splitChars_ne_nil p cs)
      | cons piece more => simp [splitChars, hd, ih, hsplit]

lemma exists_splitChars_append {lead : List Char} (h : ∀ c ∈ lead, p c = false) (cs : List Char) :
    ∃ first rest, splitChars p cs = first :: rest ∧
      splitChars p (lead ++ cs) = (lead ++ first) :: rest := by
  induction lead with
  | nil =>
    obtain ⟨first, rest, hcons⟩ := List.exists_cons_of_ne_nil (splitChars_ne_nil p cs)
    exact ⟨first, rest, hcons, hcons⟩
  | cons c lead ih =>
    obtain ⟨first, rest, hcs, happend⟩ := ih fun d hd => h d (List.mem_cons_of_mem _ hd)
    refine ⟨first, rest, hcs, ?_⟩
    simp [splitChars, h c List.mem_cons_self, happend]

lemma not_of_mem_splitChars {p : Char → Bool} {cs piece : List Char}
    (h : piece ∈ splitChars p cs) : ∀ c ∈ piece, p c = false := by
  induction cs generalizing piece with
  | nil =>
    rw [List.mem_singleton.mp h]
    simp
  | cons d rest ih =>
    unfold splitChars at h
    split at h
    · rcases List.mem_cons.mp h with rfl | hlater
      · simp
      · exact ih hlater
    · rename_i hd
      split at h
      · rename_i hnil
        exact absurd hnil (splitChars_ne_nil p rest)
      · rename_i first more hcons
        rw [hcons] at ih
        rcases List.mem_cons.mp h with rfl | hlater
        · intro c hc
          rcases List.mem_cons.mp hc with rfl | hc
          · simpa using hd
          · exact ih List.mem_cons_self c hc
        · exact ih (List.mem_cons_of_mem _ hlater)

variable {mark : Char}

lemma flatMap_splitChars (mark : Char) (cs : List Char) :
    (splitChars (· == mark) cs).flatMap (mark :: ·) = mark :: cs := by
  induction cs with
  | nil => rfl
  | cons c rest ih =>
    by_cases hc : c = mark
    · simp [splitChars, hc, ih]
    · cases hsplit : splitChars (· == mark) rest with
      | nil => exact absurd hsplit (splitChars_ne_nil _ rest)
      | cons piece more =>
        rw [hsplit, List.flatMap_cons, List.cons_append, List.cons.injEq] at ih
        simp [splitChars, hc, hsplit, ih.2]

lemma splitChars_of_notMem {cs : List Char} (h : mark ∉ cs) :
    splitChars (· == mark) cs = [cs] := by
  refine splitChars_of_forall fun c hc => beq_false_of_ne ?_
  rintro rfl
  exact h hc

lemma notMem_of_mem_splitChars {cs piece : List Char} (h : piece ∈ splitChars (· == mark) cs) :
    mark ∉ piece := by
  intro hmark
  simpa using not_of_mem_splitChars h mark hmark

lemma mem_of_mem_splitChars {cs piece : List Char} (h : piece ∈ splitChars (· == mark) cs)
    {c : Char} (hc : c ∈ piece) : c ∈ cs := by
  have hmem : c ∈ (splitChars (· == mark) cs).flatMap (mark :: ·) :=
    List.mem_flatMap.mpr ⟨piece, h, List.mem_cons_of_mem _ hc⟩
  rw [flatMap_splitChars] at hmem
  refine (List.mem_cons.mp hmem).resolve_left ?_
  rintro rfl
  exact notMem_of_mem_splitChars h hc

lemma splitChars_append_flatMap {piece : List Char} {more : List (List Char)}
    (h : ∀ other ∈ piece :: more, mark ∉ other) :
    splitChars (· == mark) (piece ++ more.flatMap (mark :: ·)) = piece :: more := by
  have hpiece := splitChars_of_notMem (h piece List.mem_cons_self)
  induction more generalizing piece with
  | nil => rw [List.flatMap_nil, List.append_nil, hpiece]
  | cons next more ih =>
    have hrest : ∀ other ∈ next :: more, mark ∉ other := fun other hother =>
      h other (List.mem_cons_of_mem _ hother)
    have hnext := ih hrest (splitChars_of_notMem (hrest next List.mem_cons_self))
    rw [List.flatMap_cons, List.cons_append, splitChars_append (by simp), hpiece, hnext]
    rfl

end InspectorProtocol.Text

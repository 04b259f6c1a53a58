import InspectorProtocol.Proofs.Identifiers

/-!
# Small words and capitalised words

A name in snake case is put together from its end, so that what is there at any time are small words
with single underscores between them, and maybe one underscore more. Dropping that one leaves words
which are their own snake case. Capitalised words are joined without a trace, and what is added to
them for the sake of a type's name is not added again.
-/

namespace InspectorProtocol.Identifier

open Text

/-- A small letter or a digit. -/
def isSmall (c : Char) : Bool := c.isLower || c.isDigit

/-- Words of small letters and digits with single underscores between them, one at least. -/
inductive AreWords : List Char → Prop where
  | single {c : Char} (h : isSmall c = true) : AreWords [c]
  | letter {c : Char} {cs : List Char} (h : isSmall c = true) (rest : AreWords cs) :
    AreWords (c :: cs)
  | joint {c : Char} {cs : List Char} (h : isSmall c = true) (rest : AreWords cs) :
    AreWords (c :: '_' :: cs)

/-! ### Characters -/

lemma isAlphanum_of_isSmall {c : Char} (h : isSmall c = true) : c.isAlphanum = true := by
  delta Char.isAlphanum Char.isAlpha
  rcases (Bool.or_eq_true _ _).mp h with hlower | hdigit
  · simp [hlower]
  · simp [hdigit]

lemma ne_underscore_of_isAlphanum {c : Char} (h : c.isAlphanum = true) : c ≠ '_' := by
  rintro rfl
  cases h

lemma isSmall_toLower {c : Char} (h : c.isAlphanum = true) : isSmall c.toLower = true := by
  delta isSmall Char.isAlphanum Char.isAlpha Char.isUpper Char.isLower Char.isDigit Char.toLower
    at h ⊢
  simp only [Bool.or_eq_true, Bool.and_eq_true, decide_eq_true_eq] at h ⊢
  split <;> grind

lemma toLower_of_isSmall {c : Char} (h : isSmall c = true) : c.toLower = c := by
  delta isSmall Char.isLower Char.isDigit at h
  delta Char.toLower
  simp only [Bool.or_eq_true, Bool.and_eq_true, decide_eq_true_eq] at h
  split <;> grind

lemma isUpper_of_isSmall {c : Char} (h : isSmall c = true) : c.isUpper = false := by
  delta isSmall Char.isLower Char.isDigit at h
  delta Char.isUpper
  simp only [Bool.or_eq_true, Bool.and_eq_true, decide_eq_true_eq,
    decide_eq_false_iff_not] at h ⊢
  grind

lemma toUpper_toUpper (c : Char) : c.toUpper.toUpper = c.toUpper := by
  have hlower := isLower_toUpper c
  generalize c.toUpper = d at hlower
  delta Char.isLower at hlower
  delta Char.toUpper
  simp only [Bool.and_eq_false_iff, decide_eq_false_iff_not] at hlower
  split <;> grind

/-! ### Words -/

namespace AreWords

variable {cs : List Char} {c : Char}

lemma isSmall_head (h : AreWords (c :: cs)) : isSmall c = true := by
  cases h with
  | single h | letter h | joint h => exact h

lemma append_single (h : AreWords cs) (hc : isSmall c = true) : AreWords (cs ++ [c]) := by
  induction h with
  | single h => exact .letter h (.single hc)
  | letter h _ ih => exact .letter h ih
  | joint h _ ih => exact .joint h ih

lemma append_joint (h : AreWords cs) (hc : isSmall c = true) : AreWords (cs ++ ['_', c]) := by
  induction h with
  | single h => exact .joint h (.single hc)
  | letter h _ ih => exact .letter h ih
  | joint h _ ih => exact .joint h ih

lemma reverse (h : AreWords cs) : AreWords cs.reverse := by
  induction h with
  | single h => exact .single h
  | letter h _ ih =>
    rw [List.reverse_cons]
    exact ih.append_single h
  | joint h _ ih =>
    rw [List.reverse_cons, List.reverse_cons, List.append_assoc]
    exact ih.append_joint h

lemma dropWhile_underscore (h : AreWords cs) : cs.dropWhile (· == '_') = cs := by
  cases cs with
  | nil => rfl
  | cons c rest =>
    have hne := ne_underscore_of_isAlphanum (isAlphanum_of_isSmall h.isSmall_head)
    simp [hne]

lemma exists_words (h : AreWords cs) : ∃ word words, ['_'].intercalate (word :: words) = cs ∧
    ∀ other ∈ word :: words, other ≠ [] ∧ ∀ c ∈ other, isSmall c = true := by
  induction h with
  | @single c h => exact ⟨[c], [], by simp, by simp [h]⟩
  | @letter c cs h _ ih =>
    obtain ⟨word, words, rfl, hall⟩ := ih
    obtain ⟨hfirst, hrest⟩ := List.forall_mem_cons.mp hall
    refine ⟨c :: word, words, ?_, List.forall_mem_cons.mpr ⟨?_, hrest⟩⟩
    · cases words <;> simp [List.intercalate_cons_cons]
    · exact ⟨by simp, List.forall_mem_cons.mpr ⟨h, hfirst.2⟩⟩
  | @joint c cs h _ ih =>
    obtain ⟨word, words, rfl, hall⟩ := ih
    refine ⟨[c], word :: words, by simp [List.intercalate_cons_cons], ?_⟩
    exact List.forall_mem_cons.mpr ⟨by simp [h], hall⟩

/-- In words no letter is a capital and no underscore follows another, so each character is taken
over as it is. -/
lemma snakeFrom_eq (h : AreWords cs) (previous : Option Char) (out : List Char) :
    snakeFrom previous out cs = cs.reverse ++ out := by
  induction h generalizing previous out with
  | single h =>
    simp [snakeFrom, isAlphanum_of_isSmall h, isUpper_of_isSmall h, toLower_of_isSmall h]
  | letter h _ ih =>
    simp [snakeFrom, isAlphanum_of_isSmall h, isUpper_of_isSmall h, toLower_of_isSmall h, ih]
  | joint h _ ih =>
    have hne := ne_underscore_of_isAlphanum (isAlphanum_of_isSmall h)
    simp [snakeFrom, isAlphanum_of_isSmall h, isUpper_of_isSmall h, toLower_of_isSmall h, ih,
      breakWord, hne]

end AreWords

/-! ### Snake case -/

/-- Output so far, last character first: words, or nothing, and maybe an underscore after them. -/
inductive IsUnderway : List Char → Prop where
  | nothing : IsUnderway []
  | words {out : List Char} (h : AreWords out) : IsUnderway out
  | broken {out : List Char} (h : AreWords out) : IsUnderway ('_' :: out)

namespace IsUnderway

variable {out : List Char}

lemma breakWord (h : IsUnderway out) : IsUnderway (breakWord out) := by
  cases h with
  | nothing => exact .nothing
  | words h =>
    unfold Identifier.breakWord
    split
    · exact .nothing
    · exact .words h
    · exact .broken h
  | broken h => exact .broken h

lemma put (h : IsUnderway out) {c : Char} (hc : isSmall c = true) : IsUnderway (c :: out) := by
  cases h with
  | nothing => exact .words (.single hc)
  | words h => exact .words (.letter hc h)
  | broken h => exact .words (.joint hc h)

lemma snakeFrom (h : IsUnderway out) (previous : Option Char) (cs : List Char) :
    IsUnderway (snakeFrom previous out cs) := by
  induction cs generalizing previous out with
  | nil => exact h
  | cons c rest ih =>
    refine ih ?_ (some c)
    split
    · exact h.breakWord
    · rename_i hskip
      have hsmall := isSmall_toLower (c := c) (by simpa using hskip)
      split
      · exact h.breakWord.put hsmall
      · exact h.put hsmall

lemma dropWhile_underscore (h : IsUnderway out) :
    out.dropWhile (· == '_') = [] ∨ AreWords (out.dropWhile (· == '_')) := by
  cases h with
  | nothing => exact .inl rfl
  | words h | broken h =>
    right
    simpa [h.dropWhile_underscore] using h

end IsUnderway

lemma areWords_snakeCase (s : String) : snakeCase s = "" ∨ AreWords (snakeCase s).toList := by
  have hout : IsUnderway (snakeFrom none [] s.toList) := IsUnderway.nothing.snakeFrom none s.toList
  rw [snakeCase, String.toList_ofList]
  rcases hout.dropWhile_underscore with hempty | hwords
  · exact .inl (by simp [hempty])
  · exact .inr hwords.reverse

/-- The letters and digits of a text. -/
def letters (cs : List Char) : List Char := cs.filter (· != '_')

lemma letters_breakWord (out : List Char) : letters (breakWord out) = letters out := by
  unfold breakWord
  split <;> rfl

lemma letters_cons {c : Char} (h : c.isAlphanum = true) (cs : List Char) :
    letters (c :: cs) = c :: letters cs := by
  simp [letters, ne_underscore_of_isAlphanum h]

lemma letters_snakeFrom (previous : Option Char) (out cs : List Char) :
    letters (snakeFrom previous out cs) =
      ((cs.filter Char.isAlphanum).map Char.toLower).reverse ++ letters out := by
  induction cs generalizing previous out with
  | nil => rfl
  | cons c rest ih =>
    rw [snakeFrom, ih]
    by_cases hc : c.isAlphanum = true
    · have hput (before : List Char) :
          letters (c.toLower :: before) = c.toLower :: letters before :=
        letters_cons (isAlphanum_toLower hc) before
      rw [List.filter_cons_of_pos hc, List.map_cons, List.reverse_cons, List.append_assoc]
      congr 1
      simp only [hc, Bool.not_true, Bool.false_eq_true, if_false]
      split
      · rw [hput, letters_breakWord]
        rfl
      · exact hput out
    · simp [hc, letters_breakWord]

lemma letters_dropWhile_underscore (cs : List Char) :
    letters (cs.dropWhile (· == '_')) = letters cs := by
  induction cs with
  | nil => rfl
  | cons c rest ih =>
    by_cases hc : c = '_'
    · simpa [hc, letters] using ih
    · simp [hc]

lemma letters_snakeCase (s : String) :
    letters (snakeCase s).toList = (s.toList.filter Char.isAlphanum).map Char.toLower := by
  have hreverse (cs : List Char) : letters cs.reverse = (letters cs).reverse := List.filter_reverse
  rw [snakeCase, String.toList_ofList, hreverse, letters_dropWhile_underscore, letters_snakeFrom]
  simp [letters]

lemma snakeCase_eq_empty_iff (s : String) :
    snakeCase s = "" ↔ ∀ c ∈ s.toList, c.isAlphanum = false := by
  have hletters := letters_snakeCase s
  constructor
  · intro h c hc
    rw [h] at hletters
    have hnone : s.toList.filter Char.isAlphanum = [] := List.map_eq_nil_iff.mp hletters.symm
    simpa using List.filter_eq_nil_iff.mp hnone c hc
  · intro h
    have hnone : s.toList.filter Char.isAlphanum = [] :=
      List.filter_eq_nil_iff.mpr (by simpa using h)
    rw [hnone] at hletters
    refine (areWords_snakeCase s).resolve_right fun hwords => ?_
    cases hs : (snakeCase s).toList with
    | nil =>
      rw [hs] at hwords
      cases hwords
    | cons c rest =>
      rw [hs] at hwords hletters
      rw [letters_cons (isAlphanum_of_isSmall hwords.isSmall_head)] at hletters
      cases hletters

lemma snakeCase_snakeCase (s : String) : snakeCase (snakeCase s) = snakeCase s := by
  rcases areWords_snakeCase s with hempty | hwords
  · rw [hempty]
    rfl
  · rw [snakeCase, hwords.snakeFrom_eq, List.append_nil, hwords.reverse.dropWhile_underscore,
      List.reverse_reverse, String.ofList_toList]

/-! ### Names of types -/

/-- Letters and digits, of which the first is no small letter. -/
structure IsCapitalised (s : String) : Prop where
  letters : ∀ c ∈ s.toList, c.isAlphanum = true
  lead : ∀ c ∈ s.toList.head?, c.toUpper = c

lemma toUpper_head_capitalised {pieces : List (List Char)} :
    ∀ c ∈ ((pieces.map capitalise).flatten).head?, c.toUpper = c := by
  induction pieces with
  | nil => simp
  | cons piece more ih =>
    cases piece with
    | nil => exact ih
    | cons d rest =>
      intro c hc
      obtain rfl : d.toUpper = c := by simpa [capitalise] using hc
      exact toUpper_toUpper d

lemma isCapitalised_pascalCase (s : String) : IsCapitalised (pascalCase s) := by
  constructor
  · intro c hc
    rw [pascalCase, String.toList_ofList] at hc
    obtain ⟨_, hpiece, hc⟩ := List.mem_flatten.mp hc
    obtain ⟨piece, hsplit, rfl⟩ := List.mem_map.mp hpiece
    exact isAlphanum_of_mem_capitalise (by simpa using not_of_mem_splitChars hsplit) c hc
  · rw [pascalCase, String.toList_ofList]
    exact toUpper_head_capitalised

namespace IsCapitalised

variable {s : String}

lemma splitChars_eq (h : IsCapitalised s) : splitChars (!·.isAlphanum) s.toList = [s.toList] :=
  splitChars_of_forall fun c hc => by simp [h.letters c hc]

lemma capitalise_eq (h : IsCapitalised s) : capitalise s.toList = s.toList := by
  have hlead := h.lead
  cases hs : s.toList with
  | nil => rfl
  | cons c rest =>
    rw [hs] at hlead
    rw [capitalise, hlead c rfl]

lemma pascalCase_eq (h : IsCapitalised s) : pascalCase s = s := by
  simp [pascalCase, h.splitChars_eq, h.capitalise_eq]

lemma pascalCase_append_underscore (h : IsCapitalised s) : pascalCase (s ++ "_") = s := by
  have hsplit : splitChars (!·.isAlphanum) (s ++ "_").toList = [s.toList, []] := by
    rw [String.toList_append]
    exact (splitChars_append rfl s.toList []).trans (by rw [h.splitChars_eq]; rfl)
  rw [pascalCase, hsplit, List.map_cons, h.capitalise_eq]
  simp [capitalise]

end IsCapitalised

lemma typeName_of_pascalCase {name ident : String} (hident : pascalCase name = ident)
    (hne : ident ≠ "") (hlead : startsWithDigit ident = false) :
    typeName name = if isReserved ident then ident ++ "_" else ident := by
  unfold typeName capitalised
  dsimp only
  rw [hident, if_neg (by simpa using hne), hlead]
  simp only [Bool.false_eq_true, if_false]

lemma typeName_typeName (name : String) : typeName (typeName name) = typeName name := by
  have hcapitalised := isCapitalised_pascalCase name
  obtain ⟨hplain, hunreserved⟩ := typeName_spec name
  generalize hname : typeName name = ident at hplain hunreserved ⊢
  have hkept (h : IsCapitalised ident) : typeName ident = ident := by
    rw [typeName_of_pascalCase h.pascalCase_eq hplain.nonempty hplain.lead, hunreserved]
    rfl
  unfold typeName capitalised at hname
  dsimp only at hname
  split at hname
  · subst hname
    decide +kernel
  · rename_i hnonempty
    split at hname
    · subst hname
      refine hkept ⟨fun c hc => ?_, by simp⟩
      rw [String.toList_append] at hc
      rcases List.mem_append.mp hc with hT | hc
      · obtain rfl : c = 'T' := by simpa using hT
        rfl
      · exact hcapitalised.letters c hc
    · rename_i hletter
      split at hname
      · rename_i hreserved
        subst hname
        rw [typeName_of_pascalCase hcapitalised.pascalCase_append_underscore
          (by simpa using hnonempty) (by simpa using hletter), if_pos hreserved]
      · subst hname
        exact hkept hcapitalised

/-- Snake case is nothing, for a name without letters and digits, or small words joined by single
underscores, and its letters and digits are those of the name. Converting again changes nothing,
here and in the names of types. -/
theorem converted_names_stay_as_they_are (s : String) :
    (snakeCase s = "" ↔ ∀ c ∈ s.toList, c.isAlphanum = false) ∧
    (∃ words : List (List Char), (snakeCase s).toList = ['_'].intercalate words ∧
      ∀ word ∈ words, word ≠ [] ∧ ∀ c ∈ word, c.isLower = true ∨ c.isDigit = true) ∧
    (snakeCase s).toList.head? ≠ some '_' ∧ (snakeCase s).toList.getLast? ≠ some '_' ∧
    (snakeCase s).toList.filter (· != '_') =
      (s.toList.filter Char.isAlphanum).map Char.toLower ∧
    snakeCase (snakeCase s) = snakeCase s ∧
    typeName (typeName s) = typeName s := by
  refine ⟨snakeCase_eq_empty_iff s, ?_, ?_, getLast?_snakeCase s, letters_snakeCase s,
    snakeCase_snakeCase s, typeName_typeName s⟩
  · rcases areWords_snakeCase s with hempty | hwords
    · exact ⟨[], by simp [hempty], by simp⟩
    · obtain ⟨word, words, hjoined, hall⟩ := hwords.exists_words
      refine ⟨word :: words, hjoined.symm, fun other hother => ?_⟩
      obtain ⟨hne, hsmall⟩ := hall other hother
      exact ⟨hne, fun c hc => (Bool.or_eq_true _ _).mp (hsmall c hc)⟩
  · intro hhead
    rcases areWords_snakeCase s with hempty | hwords
    · simp [hempty] at hhead
    · obtain ⟨rest, hs⟩ := List.head?_eq_some_iff.mp hhead
      rw [hs] at hwords
      exact absurd hwords.isSmall_head (by decide)

example : snakeCase "remoteIPAddress" = "remote_ip_address" ∧ typeName "Self" = "Self_" := by
  decide +kernel

end InspectorProtocol.Identifier

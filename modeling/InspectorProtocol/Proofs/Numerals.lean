import InspectorProtocol.Json.Document
import InspectorProtocol.Json.Printer
import Mathlib.Data.List.Basic
import Mathlib.Tactic.IntervalCases
import Mathlib.Tactic.Lemma

/-!
# Numerals

The text of a number is a numeral: a sign, digits without a leading zero, digits behind a point, and
a power of ten with its sign. Over a numeral the lexer stays in one token, which the next comma or
bracket ends.
-/

namespace InspectorProtocol.Json

/-- A number as it is written. The power of ten is marked by an `e` and always has a sign. -/
structure Numeral where
  negative : Bool
  whole : List Char
  fraction : Option (List Char) := none
  exponent : Option (Bool × List Char) := none

def IsDigits (cs : List Char) : Prop := cs ≠ [] ∧ ∀ c ∈ cs, c.isDigit = true

def digitValues (cs : List Char) : List Nat := cs.map fun c => c.toNat - '0'.toNat

namespace Numeral

def fractionChars : Option (List Char) → List Char
  | none => []
  | some digits => '.' :: digits

def exponentChars : Option (Bool × List Char) → List Char
  | none => []
  | some (negative, digits) => 'e' :: (if negative then '-' else '+') :: digits

def chars (n : Numeral) : List Char :=
  (if n.negative then ['-'] else []) ++ n.whole ++ fractionChars n.fraction ++
    exponentChars n.exponent

structure WellFormed (n : Numeral) : Prop where
  whole : IsDigits n.whole
  lead : n.whole.head? = some '0' → n.whole = ['0']
  fraction : ∀ digits ∈ n.fraction, IsDigits digits
  exponent : ∀ e ∈ n.exponent, IsDigits e.2

/-- A numeral as the lexer takes it down. -/
def text (n : Numeral) : NumberText where
  negative := n.negative
  whole := (digitValues n.whole).reverse
  fraction := n.fraction.map fun digits => (digitValues digits).reverse
  exponentNegative := n.exponent.any (·.1)
  exponent := n.exponent.map fun e => (digitValues e.2).reverse

/-- Where the lexer is behind a numeral. -/
def phase (n : Numeral) : NumberPhase :=
  if n.exponent.isSome then .exponent
  else if n.fraction.isSome then .fraction
  else if n.whole = ['0'] then .zero
  else .whole

end Numeral

/-! ### The lexer in a numeral -/

section Lexing

variable {tokens : List Token} {t : NumberText} {c : Char} {cs : List Char}

lemma mem_of_isDigit (h : c.isDigit = true) :
    c ∈ ['0', '1', '2', '3', '4', '5', '6', '7', '8', '9'] := by
  have hrange : 48 ≤ c.toNat ∧ c.toNat ≤ 57 := by
    simp only [Char.isDigit, ge_iff_le, Bool.and_eq_true, decide_eq_true_eq,
      UInt32.le_iff_toNat_le] at h
    exact h
  obtain ⟨hlow, hhigh⟩ := hrange
  rw [← Char.ofNat_toNat c]
  generalize c.toNat = n at hlow hhigh
  interval_cases n <;> decide

lemma foldl_whole (h : ∀ c ∈ cs, c.isDigit = true) :
    cs.foldl Lexer.step ⟨tokens, .number .whole t⟩ =
      ⟨tokens, .number .whole { t with whole := (digitValues cs).reverse ++ t.whole }⟩ := by
  induction cs generalizing t with
  | nil => rfl
  | cons c rest ih =>
    have hstep : Lexer.step ⟨tokens, .number .whole t⟩ c =
        ⟨tokens, .number .whole { t with whole := (c.toNat - '0'.toNat) :: t.whole }⟩ := by
      simp [Lexer.step, Lexer.NumberPhase.take?, Lexer.enter, h c List.mem_cons_self]
    rw [List.foldl_cons, hstep, ih fun d hd => h d (List.mem_cons_of_mem _ hd)]
    simp [digitValues]

lemma foldl_fraction (h : ∀ c ∈ cs, c.isDigit = true) :
    cs.foldl Lexer.step ⟨tokens, .number .fraction t⟩ =
      ⟨tokens, .number .fraction
        { t with fraction := t.fraction.map ((digitValues cs).reverse ++ ·) }⟩ := by
  induction cs generalizing t with
  | nil => simp [digitValues]
  | cons c rest ih =>
    have hstep : Lexer.step ⟨tokens, .number .fraction t⟩ c = ⟨tokens, .number .fraction
        { t with fraction := t.fraction.map ((c.toNat - '0'.toNat) :: ·) }⟩ := by
      simp [Lexer.step, Lexer.NumberPhase.take?, Lexer.enter, h c List.mem_cons_self]
    rw [List.foldl_cons, hstep, ih fun d hd => h d (List.mem_cons_of_mem _ hd)]
    simp [digitValues, Function.comp_def]

lemma foldl_exponent (h : ∀ c ∈ cs, c.isDigit = true) :
    cs.foldl Lexer.step ⟨tokens, .number .exponent t⟩ =
      ⟨tokens, .number .exponent
        { t with exponent := t.exponent.map ((digitValues cs).reverse ++ ·) }⟩ := by
  induction cs generalizing t with
  | nil => simp [digitValues]
  | cons c rest ih =>
    have hstep : Lexer.step ⟨tokens, .number .exponent t⟩ c = ⟨tokens, .number .exponent
        { t with exponent := t.exponent.map ((c.toNat - '0'.toNat) :: ·) }⟩ := by
      simp [Lexer.step, Lexer.NumberPhase.take?, Lexer.enter, h c List.mem_cons_self]
    rw [List.foldl_cons, hstep, ih fun d hd => h d (List.mem_cons_of_mem _ hd)]
    simp [digitValues, Function.comp_def]

namespace Numeral

variable {n : Numeral}

/-- The lexer behind the digits before the point. -/
def wholePhase (n : Numeral) : NumberPhase := if n.whole = ['0'] then .zero else .whole

lemma foldl_wholeChars (h : n.WellFormed) (tokens : List Token) :
    ((if n.negative then ['-'] else []) ++ n.whole).foldl Lexer.step ⟨tokens, .between⟩ =
      ⟨tokens, .number n.wholePhase
        { negative := n.negative, whole := (digitValues n.whole).reverse }⟩ := by
  obtain ⟨hne, hdigits⟩ := h.whole
  obtain ⟨c, rest, hwhole⟩ := List.exists_cons_of_ne_nil hne
  have hlead := h.lead
  rw [wholePhase]
  rw [hwhole] at hdigits hlead ⊢
  obtain ⟨hc, hrest⟩ := List.forall_mem_cons.mp hdigits
  have hzero : c = '0' → rest = [] := fun heq => by simpa [heq] using hlead
  have hfirst : ((if n.negative then ['-'] else []) ++ [c]).foldl Lexer.step ⟨tokens, .between⟩ =
      ⟨tokens, .number (if c = '0' then .zero else .whole)
        { negative := n.negative, whole := [c.toNat - '0'.toNat] }⟩ := by
    have hmem := mem_of_isDigit hc
    simp only [List.mem_cons, List.not_mem_nil, or_false] at hmem
    rcases hmem with rfl | rfl | rfl | rfl | rfl | rfl | rfl | rfl | rfl | rfl <;>
      cases n.negative <;> rfl
  rw [List.append_cons, List.foldl_append, hfirst]
  by_cases heq : c = '0'
  · have hnil := hzero heq
    subst heq hnil
    rfl
  · rw [if_neg heq, if_neg (by simp [heq]), foldl_whole hrest]
    simp [digitValues]

/-- The lexer behind the digits after the point, if there are any. -/
def fractionPhase (n : Numeral) : NumberPhase :=
  if n.fraction.isSome then .fraction else n.wholePhase

lemma wholePhase_eq (n : Numeral) : n.wholePhase = .zero ∨ n.wholePhase = .whole := by
  rw [wholePhase]
  split
  · exact .inl rfl
  · exact .inr rfl

lemma foldl_fractionChars (h : n.WellFormed) (tokens : List Token) (t : NumberText)
    (ht : t.fraction = none) :
    (fractionChars n.fraction).foldl Lexer.step ⟨tokens, .number n.wholePhase t⟩ =
      ⟨tokens, .number n.fractionPhase
        { t with fraction := n.fraction.map fun digits => (digitValues digits).reverse }⟩ := by
  cases hfraction : n.fraction with
  | none =>
    obtain ⟨negative, whole, fraction, exponentNegative, exponent⟩ := t
    subst ht
    rw [fractionPhase, hfraction]
    rfl
  | some digits =>
    obtain ⟨hne, hdigits⟩ := h.fraction digits hfraction
    obtain ⟨c, rest, rfl⟩ := List.exists_cons_of_ne_nil hne
    have hpoint : Lexer.step ⟨tokens, .number n.wholePhase t⟩ '.' =
        ⟨tokens, .number .point { t with fraction := some [] }⟩ := by
      rcases n.wholePhase_eq with heq | heq <;> rw [heq] <;> rfl
    have hfirst : Lexer.step ⟨tokens, .number .point { t with fraction := some [] }⟩ c =
        ⟨tokens, .number .fraction { t with fraction := some [c.toNat - '0'.toNat] }⟩ := by
      simp [Lexer.step, Lexer.NumberPhase.take?, Lexer.enter, hdigits c List.mem_cons_self]
    rw [fractionChars, List.foldl_cons, hpoint, List.foldl_cons, hfirst,
      foldl_fraction fun d hd => hdigits d (List.mem_cons_of_mem _ hd), fractionPhase, hfraction]
    simp [digitValues]

lemma foldl_exponentChars (h : n.WellFormed) (tokens : List Token) (t : NumberText)
    (ht : t.exponent = none ∧ t.exponentNegative = false) :
    (exponentChars n.exponent).foldl Lexer.step ⟨tokens, .number n.fractionPhase t⟩ =
      ⟨tokens, .number n.phase
        { t with
          exponentNegative := n.exponent.any (·.1)
          exponent := n.exponent.map fun e => (digitValues e.2).reverse }⟩ := by
  cases hexponent : n.exponent with
  | none =>
    obtain ⟨negative, whole, fraction, exponentNegative, exponent⟩ := t
    obtain ⟨rfl, rfl⟩ := ht
    rw [phase, hexponent]
    rfl
  | some e =>
    obtain ⟨negative, digits⟩ := e
    obtain ⟨hne, hdigits⟩ := h.exponent _ hexponent
    obtain ⟨c, rest, rfl⟩ := List.exists_cons_of_ne_nil hne
    have hphase : n.fractionPhase = .zero ∨ n.fractionPhase = .whole ∨
        n.fractionPhase = .fraction := by
      rw [fractionPhase]
      split
      · exact .inr (.inr rfl)
      · exact n.wholePhase_eq.imp_right .inl
    have hmark : Lexer.step ⟨tokens, .number n.fractionPhase t⟩ 'e' =
        ⟨tokens, .number .mark { t with exponent := some [] }⟩ := by
      rcases hphase with heq | heq | heq <;> rw [heq] <;> rfl
    have hsign : Lexer.step ⟨tokens, .number .mark { t with exponent := some [] }⟩
        (if negative then '-' else '+') = ⟨tokens, .number .exponentSign
          { t with exponentNegative := negative, exponent := some [] }⟩ := by
      obtain ⟨_, _, _, exponentNegative, _⟩ := t
      obtain ⟨rfl, rfl⟩ := ht
      cases negative <;> rfl
    have hfirst : Lexer.step ⟨tokens, .number .exponentSign
          { t with exponentNegative := negative, exponent := some [] }⟩ c =
        ⟨tokens, .number .exponent
          { t with exponentNegative := negative, exponent := some [c.toNat - '0'.toNat] }⟩ := by
      simp [Lexer.step, Lexer.NumberPhase.take?, Lexer.enter, hdigits c List.mem_cons_self]
    rw [exponentChars, List.foldl_cons, hmark, List.foldl_cons, hsign, List.foldl_cons, hfirst,
      foldl_exponent fun d hd => hdigits d (List.mem_cons_of_mem _ hd), phase, hexponent]
    simp [digitValues]

lemma foldl_chars (h : n.WellFormed) (tokens : List Token) :
    n.chars.foldl Lexer.step ⟨tokens, .between⟩ = ⟨tokens, .number n.phase n.text⟩ := by
  rw [chars, List.foldl_append, List.foldl_append, foldl_wholeChars h,
    foldl_fractionChars h _ _ rfl, foldl_exponentChars h _ _ ⟨rfl, rfl⟩]
  rfl

lemma phase_cases (n : Numeral) :
    n.phase = .zero ∨ n.phase = .whole ∨ n.phase = .fraction ∨ n.phase = .exponent := by
  unfold phase
  split
  · exact .inr (.inr (.inr rfl))
  split
  · exact .inr (.inr (.inl rfl))
  split
  · exact .inl rfl
  · exact .inr (.inl rfl)

end Numeral

/-- A lexer at the end of some tokens. If the last one is a number, it might go on. -/
inductive AtRest (tokens : List Token) : Lexer → Prop where
  | between : AtRest tokens ⟨tokens, .between⟩
  | number {before : List Token} {n : Numeral} (last : tokens = .number n.text.value? :: before) :
    AtRest tokens ⟨before, .number n.phase n.text⟩

namespace AtRest

variable {l : Lexer}

lemma step (h : AtRest tokens l) (hc : c ∈ [',', ']', '}']) :
    l.step c = Lexer.step ⟨tokens, .between⟩ c := by
  cases h with
  | between => rfl
  | @number before n last =>
    subst last
    simp only [List.mem_cons, List.not_mem_nil, or_false] at hc
    rcases hc with rfl | rfl | rfl <;>
      rcases n.phase_cases with heq | heq | heq | heq <;> rw [heq] <;> rfl

lemma finish (h : AtRest tokens l) : l.finish = tokens.reverse := by
  cases h with
  | between => rfl
  | @number before n last =>
    subst last
    rcases n.phase_cases with heq | heq | heq | heq <;> rw [heq] <;> rfl

end AtRest

end Lexing

/-! ### Numbers as numerals -/

section Writing

variable {digits : Nat} {power : Int}

lemma isDigits_toDigits (n : Nat) : IsDigits (Nat.toDigits 10 n) :=
  ⟨Nat.toDigits_ne_nil, fun _ hc => Nat.isDigit_of_mem_toDigits (by norm_num) (by norm_num) hc⟩

lemma head?_toDigits {n : Nat} (h : (Nat.toDigits 10 n).head? = some '0') : n = 0 := by
  induction n using Nat.strong_induction_on with
  | _ n ih =>
    rcases lt_or_ge n 10 with hlt | hge
    · rw [Nat.toDigits_of_lt_base hlt] at h
      exact Nat.digitChar_eq_zero.mp (Option.some.inj h)
    · rw [Nat.toDigits_of_base_le (by norm_num) hge,
        List.head?_append_of_ne_nil _ Nat.toDigits_ne_nil] at h
      have := ih (n / 10) (by omega) h
      omega

/-- The ways to spell `digits * 10 ^ power`. -/
inductive IsSpelling (digits : Nat) (power : Int) : Numeral → Prop where
  | padded {zeros : Nat} (hpower : power = zeros)
      (short : (Nat.toDigits 10 digits).length + zeros ≤ 16) :
    IsSpelling digits power
      ⟨false, Nat.toDigits 10 digits ++ List.replicate zeros '0', some ['0'], none⟩
  | pointed {count : Nat} (short : count < 16)
      (inside : count + 1 < (Nat.toDigits 10 digits).length)
      (hpower : power = count + 1 - (Nat.toDigits 10 digits).length) :
    IsSpelling digits power
      ⟨false, (Nat.toDigits 10 digits).take (count + 1),
        some ((Nat.toDigits 10 digits).drop (count + 1)), none⟩
  | small {zeros : Nat} (hpower : power = -(zeros + (Nat.toDigits 10 digits).length)) :
    IsSpelling digits power
      ⟨false, ['0'], some (List.replicate zeros '0' ++ Nat.toDigits 10 digits), none⟩
  | scaled {d : Char} {rest : List Char} {leading : Int}
      (hdigits : Nat.toDigits 10 digits = d :: rest)
      (hpower : power = leading - rest.length) :
    IsSpelling digits power
      ⟨false, [d], if rest = [] then none else some rest,
        some (leading < 0, Nat.toDigits 10 leading.natAbs)⟩

lemma exists_isSpelling (digits : Nat) (power : Int) :
    ∃ n, IsSpelling digits power n ∧ (floatSpelling.write digits power).toList = n.chars := by
  have hlength : 0 < (Nat.toDigits 10 digits).length := Nat.length_toDigits_pos
  rw [Decimal.Spelling.write, String.toList_ofList]
  simp only [floatSpelling, Bool.and_eq_true]
  generalize hleading : power + (Nat.toDigits 10 digits).length - 1 = leading
  split
  · rename_i hplain
    have hlow := of_decide_eq_true hplain.1
    have hhigh := of_decide_eq_true hplain.2
    split
    · obtain ⟨zeros, hzeros⟩ := Int.eq_ofNat_of_zero_le ‹power ≥ 0›
      refine ⟨_, .padded hzeros (by omega), ?_⟩
      rw [hzeros]
      simp [Numeral.chars, Numeral.fractionChars, Numeral.exponentChars]
    split
    · obtain ⟨count, hcount⟩ := Int.eq_ofNat_of_zero_le ‹leading ≥ 0›
      refine ⟨_, @IsSpelling.pointed digits power count (by omega) (by omega) (by omega), ?_⟩
      rw [hcount]
      simp [Numeral.chars, Numeral.fractionChars, Numeral.exponentChars]
    · obtain ⟨zeros, hzeros⟩ := Int.eq_ofNat_of_zero_le (show 0 ≤ -leading - 1 by omega)
      refine ⟨_, @IsSpelling.small digits power zeros (by omega), ?_⟩
      rw [hzeros]
      simp [Numeral.chars, Numeral.fractionChars, Numeral.exponentChars]
  · have hexponent : ("e" ++ (if leading < 0 then "-" else "+") ++ toString leading.natAbs).toList =
        'e' :: (if leading < 0 then '-' else '+') :: Nat.toDigits 10 leading.natAbs := by
      rw [Nat.toString_eq_ofList_toDigits]
      split <;> simp
    obtain ⟨d, rest, hdigits⟩ := List.exists_cons_of_ne_nil
      (Nat.toDigits_ne_nil : Nat.toDigits 10 digits ≠ [])
    rw [hdigits, List.length_cons] at hleading
    refine ⟨_, @IsSpelling.scaled digits power d rest leading hdigits (by omega), ?_⟩
    rw [hexponent, hdigits]
    cases rest <;> simp [Numeral.chars, Numeral.fractionChars, Numeral.exponentChars]

lemma IsSpelling.wellFormed {n : Numeral} (h : IsSpelling digits power n)
    (hzero : digits = 0 → power = 0) : n.WellFormed := by
  have hzeros (k : Nat) : ∀ c ∈ List.replicate k '0', c.isDigit = true := by
    intro c hc
    rw [List.eq_of_mem_replicate hc]
    rfl
  obtain ⟨hne, hdigits⟩ := isDigits_toDigits digits
  have hhead : (Nat.toDigits 10 digits).head? = some '0' →
      Nat.toDigits 10 digits = ['0'] ∧ power = 0 := by
    intro hhead
    have hnil := head?_toDigits hhead
    exact ⟨by rw [hnil]; rfl, hzero hnil⟩
  cases h with
  | @padded zeros hpower short =>
    refine ⟨⟨by simp [hne], List.forall_mem_append.mpr ⟨hdigits, hzeros zeros⟩⟩,
      fun h => ?_, ?_, ?_⟩
    · rw [List.head?_append_of_ne_nil _ hne] at h
      obtain ⟨heq, hpower'⟩ := hhead h
      obtain rfl : zeros = 0 := by omega
      simp [heq]
    · rintro _ ⟨⟩
      exact ⟨by simp, by simp⟩
    · simp
  | @pointed count short inside hpower =>
    have hdrop : (Nat.toDigits 10 digits).drop (count + 1) ≠ [] := by
      rw [ne_eq, List.drop_eq_nil_iff]
      omega
    refine ⟨⟨by simp [hne], fun c hc => hdigits c (List.mem_of_mem_take hc)⟩, fun h => ?_, ?_, ?_⟩
    · rw [List.head?_take, if_neg (by omega)] at h
      have := (hhead h).2
      omega
    · rintro _ ⟨⟩
      exact ⟨hdrop, fun c hc => hdigits c (List.mem_of_mem_drop hc)⟩
    · simp
  | @small zeros hpower =>
    refine ⟨⟨by simp, by simp⟩, fun _ => rfl, ?_, ?_⟩
    · rintro _ ⟨⟩
      exact ⟨by simp [hne], List.forall_mem_append.mpr ⟨hzeros zeros, hdigits⟩⟩
    · simp
  | @scaled d rest leading hcons hpower =>
    rw [hcons] at hdigits
    obtain ⟨hd, hrest⟩ := List.forall_mem_cons.mp hdigits
    refine ⟨⟨by simp, by simpa using hd⟩, fun h => by simpa using h, ?_, ?_⟩
    · intro f hf
      simp only at hf
      split at hf
      · cases hf
      · obtain rfl := Option.some.inj hf
        exact ⟨‹_›, hrest⟩
    · rintro _ ⟨⟩
      exact isDigits_toDigits _

end Writing

end InspectorProtocol.Json

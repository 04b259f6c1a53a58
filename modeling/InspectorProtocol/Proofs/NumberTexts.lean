import InspectorProtocol.Proofs.Numerals
import InspectorProtocol.Proofs.Rounding

/-!
# Numbers are read back as numbers

A number that a text can hold is an integer of 64 bits or a finite double. What is written for it is
again a number: the decimal of a double is within half a step of it, and reading refuses only what
is above the largest double by half a step. The two largest doubles are too near to that for the
general argument; their texts are looked at one by one.
-/

namespace InspectorProtocol

open Json Decimal

namespace Decimal

/-! ### The decimal of a double -/

section Shortest

variable {mantissa : Nat} {exponent power : Int} {digits : Nat}

lemma high_intervalOf (mantissa : Nat) (exponent : Int) :
    0 < (intervalOf mantissa exponent).den ∧
      ((intervalOf mantissa exponent).high : ℚ) / (intervalOf mantissa exponent).den =
        (mantissa + 1 / 2) * 2 ^ exponent := by
  cases exponent with
  | ofNat n =>
    refine ⟨by simp [intervalOf], ?_⟩
    simp [intervalOf]
    ring
  | negSucc n =>
    refine ⟨by simp [intervalOf], ?_⟩
    simp [intervalOf, zpow_negSucc]
    field_simp
    ring

lemma low_intervalOf_pos (h : 0 < mantissa) (exponent : Int) :
    0 < (intervalOf mantissa exponent).low := by
  have hlow : 0 < 4 * mantissa -
      (if mantissa == Nat.pow 2 52 && exponent > -1074 then 1 else 2) := by
    split <;> omega
  cases exponent with
  | ofNat n => exact Nat.mul_pos hlow (Nat.pow_pos (by norm_num))
  | negSucc n => exact hlow

lemma contains_spec {i : Interval} (hden : 0 < i.den) (h : i.contains digits power = true) :
    (digits : ℚ) * 10 ^ power ≤ i.high / i.den ∧ (0 < i.low → digits ≠ 0) := by
  have hden' : (0 : ℚ) < i.den := by exact_mod_cast hden
  have hends {x unit : Nat}
      (h : (if i.closed then decide (i.low * unit ≤ x) && decide (x ≤ i.high * unit)
        else decide (i.low * unit < x) && decide (x < i.high * unit)) = true) :
      i.low * unit ≤ x ∧ x ≤ i.high * unit := by
    split at h <;> simp only [Bool.and_eq_true, decide_eq_true_eq] at h <;> omega
  cases power with
  | ofNat n =>
    obtain ⟨hlow, hhigh⟩ := hends h
    constructor
    · rw [le_div_iff₀ hden']
      simpa using (by exact_mod_cast hhigh :
        ((digits * Nat.pow 10 n * i.den : Nat) : ℚ) ≤ (i.high * 1 : Nat))
    · rintro hpos rfl
      omega
  | negSucc n =>
    obtain ⟨hlow, hhigh⟩ := hends h
    constructor
    · rw [le_div_iff₀ hden', zpow_negSucc, mul_right_comm, ← div_eq_mul_inv,
        div_le_iff₀ (by positivity)]
      simpa using (by exact_mod_cast hhigh :
        ((digits * i.den : Nat) : ℚ) ≤ (i.high * Nat.pow 10 (n + 1) : Nat))
    · rintro hpos rfl
      have := Nat.mul_pos hpos (Nat.pow_pos (n := n + 1) (by norm_num : 0 < 10))
      simp only [Nat.pow_eq] at hlow
      omega

lemma contains_of_nearestOn {i : Interval} (h : i.nearestOn power = some digits) :
    i.contains digits power = true := by
  obtain ⟨first, second, hsearch⟩ : ∃ first second, i.nearestOn power =
      if i.contains first power then some first
      else if i.contains second power then some second else none := ⟨_, _, rfl⟩
  rw [hsearch] at h
  split at h
  · rename_i hfirst
    exact Option.some.inj h ▸ hfirst
  split at h
  · rename_i hsecond
    exact Option.some.inj h ▸ hsecond
  · cases h

lemma dropZeros_spec (fuel : Nat) {digits : Nat} (h : digits ≠ 0) (power : Int) :
    (dropZeros fuel digits power).1 ≠ 0 ∧
      ((dropZeros fuel digits power).1 : ℚ) * 10 ^ (dropZeros fuel digits power).2 =
        digits * 10 ^ power := by
  induction fuel generalizing digits power with
  | zero => exact ⟨h, rfl⟩
  | succ fuel ih =>
    rw [dropZeros]
    split
    · rename_i hzero
      have hzero : digits % 10 = 0 := by simpa [h] using hzero
      obtain ⟨hne, hvalue⟩ := ih (show digits / 10 ≠ 0 by omega) (power + 1)
      have hdigits : (digits : ℚ) = (digits / 10 : Nat) * 10 := by
        exact_mod_cast (Nat.div_mul_cancel (Nat.dvd_of_mod_eq_zero hzero)).symm
      refine ⟨hne, hvalue.trans ?_⟩
      rw [zpow_add_one₀ (by norm_num), hdigits]
      ring
    · exact ⟨h, rfl⟩

/-- The decimal of a double is at most half a step above it. -/
lemma shortest_spec (h : 0 < mantissa) (exponent : Int) :
    ((shortest mantissa exponent).1 = 0 → (shortest mantissa exponent).2 = 0) ∧
      ((shortest mantissa exponent).1 : ℚ) * 10 ^ (shortest mantissa exponent).2 ≤
        (mantissa + 1 / 2) * 2 ^ exponent := by
  obtain ⟨hden, hhigh⟩ := high_intervalOf mantissa exponent
  rw [shortest]
  simp only
  generalize htries : List.findSome? _ (List.range 17) = tries
  cases tries with
  | none =>
    have hzero : dropZeros 18 0 0 = (0, 0) := rfl
    rw [Option.getD_none, hzero]
    refine ⟨fun _ => rfl, ?_⟩
    rw [Nat.cast_zero, zero_mul]
    positivity
  | some found =>
    obtain ⟨n, -, hn⟩ := List.exists_of_findSome?_eq_some htries
    obtain ⟨digits, hdigits, rfl⟩ := Option.map_eq_some_iff.mp hn
    obtain ⟨hle, hne⟩ := contains_spec hden (contains_of_nearestOn hdigits)
    obtain ⟨hne', hvalue⟩ := dropZeros_spec 18 (hne (low_intervalOf_pos h exponent)) _
    rw [Option.getD_some]
    exact ⟨fun hzero => absurd hzero hne', hvalue ▸ hhigh ▸ hle⟩

end Shortest

end Decimal

namespace Json

/-! ### The numbers of numerals -/

section Values

variable {n : Numeral} {digits : Nat} {power : Int} {cs : List Char}

lemma readOn_digitValues (start : Nat) (cs : List Char) :
    readOn start (digitValues cs) = Nat.ofDigitChars 10 cs start := by
  rw [readOn, digitValues, List.foldl_map, Nat.ofDigitChars_eq_foldl]
  simp only [Nat.mul_comm]

lemma readOn_toDigits (k : Nat) : readOn 0 (digitValues (Nat.toDigits 10 k)) = k := by
  rw [readOn_digitValues, Nat.ofDigitChars_ten_toDigits]

lemma digitsValue_reverse (ds : List Nat) : digitsValue ds.reverse = readOn 0 ds := by
  rw [digitsValue, List.foldr_reverse]
  rfl

/-- The exponent of a numeral. -/
def exponentValue (e : Bool × List Char) : Int :=
  if e.1 then -(readOn 0 (digitValues e.2) : Int) else readOn 0 (digitValues e.2)

/-- A numeral as the reader of doubles takes it. -/
def Numeral.written (n : Numeral) : Written :=
  ⟨n.negative, digitValues n.whole, n.fraction.map digitValues, n.exponent.map exponentValue⟩

lemma written_text (n : Numeral) :
    (⟨n.text.negative, n.text.whole.reverse, n.text.fraction.map List.reverse,
      n.text.exponent.map fun digits =>
        if n.text.exponentNegative then -(digitsValue digits : Int) else digitsValue digits⟩ :
      Written) = n.written := by
  obtain ⟨negative, whole, fraction, exponent⟩ := n
  cases exponent with
  | none => simp [Numeral.text, Numeral.written, Function.comp_def]
  | some e =>
    obtain ⟨eNegative, eDigits⟩ := e
    simp [Numeral.text, Numeral.written, Function.comp_def, digitsValue_reverse, exponentValue]

lemma value?_of_float (h : n.fraction ≠ none ∨ n.exponent ≠ none) :
    n.text.value? = n.written.toBinary64?.map .float := by
  rw [← written_text n]
  obtain ⟨negative, whole, fraction, exponent⟩ := n
  cases fraction with
  | some f => rfl
  | none =>
    cases exponent with
    | some e => rfl
    | none => simp at h

lemma magnitude_written (n : Numeral) :
    n.written.magnitude = (Nat.ofDigitChars 10 (n.whole ++ n.fraction.getD []) 0 : ℚ) *
      10 ^ ((n.exponent.map exponentValue).getD 0 - (n.fraction.getD []).length) := by
  rw [← readOn_digitValues]
  cases hfraction : n.fraction <;> simp [Written.magnitude, Numeral.written, hfraction, digitValues]

/-- The spelling stands for what is spelled. -/
lemma magnitude_of_isSpelling (h : IsSpelling digits power n) :
    n.written.magnitude = digits * 10 ^ power := by
  have hten : (10 : ℚ) ≠ 0 := by norm_num
  rw [magnitude_written]
  cases h with
  | @padded zeros hpower short =>
    have hdigits :
        Nat.ofDigitChars 10 (Nat.toDigits 10 digits ++ List.replicate zeros '0' ++ ['0']) 0 =
        10 * (10 ^ zeros * digits) := by
      rw [Nat.ofDigitChars_append, Nat.ofDigitChars_append, Nat.ofDigitChars_ten_toDigits,
        Nat.ofDigitChars_replicate_zero]
      rfl
    rw [Option.getD_some, hdigits, hpower]
    push_cast
    simp
    field_simp
  | @pointed count short inside hpower =>
    rw [Option.getD_some, List.take_append_drop, Nat.ofDigitChars_ten_toDigits, List.length_drop,
      hpower]
    congr 2
    simp
    omega
  | @small zeros hpower =>
    have hdigits :
        Nat.ofDigitChars 10 (['0'] ++ (List.replicate zeros '0' ++ Nat.toDigits 10 digits)) 0 =
        digits := by
      rw [Nat.ofDigitChars_append, Nat.ofDigitChars_append, Nat.ofDigitChars_replicate_zero]
      exact Nat.ofDigitChars_ten_toDigits
    rw [Option.getD_some, hdigits, hpower]
    congr 2
    simp
  | @scaled d rest leading hcons hpower =>
    have hrest : (if rest = [] then none else some rest).getD [] = rest := by
      split <;> simp [*]
    have hleading : exponentValue (leading < 0, Nat.toDigits 10 leading.natAbs) = leading := by
      rw [exponentValue, readOn_toDigits]
      simp only [decide_eq_true_eq]
      split <;> omega
    simp only [hrest, Option.map_some, Option.getD_some, hleading]
    rw [List.singleton_append, ← hcons, Nat.ofDigitChars_ten_toDigits, hpower]

lemma readOn_lt (start : Nat) (h : ∀ c ∈ cs, c.isDigit = true) :
    readOn start (digitValues cs) < (start + 1) * 10 ^ cs.length := by
  induction cs generalizing start with
  | nil => simp [readOn, digitValues]
  | cons c rest ih =>
    have hc : c.toNat - '0'.toNat ≤ 9 := by
      have hall : ['0', '1', '2', '3', '4', '5', '6', '7', '8', '9'].all
          (fun d => d.toNat - '0'.toNat ≤ 9) = true := by decide
      exact of_decide_eq_true
        (List.all_eq_true.mp hall c (mem_of_isDigit (h c List.mem_cons_self)))
    calc readOn start (digitValues (c :: rest))
        = readOn (start * 10 + (c.toNat - '0'.toNat)) (digitValues rest) := rfl
      _ < (start * 10 + (c.toNat - '0'.toNat) + 1) * 10 ^ rest.length :=
        ih _ fun d hd => h d (List.mem_cons_of_mem _ hd)
      _ ≤ ((start + 1) * 10) * 10 ^ rest.length := by gcongr; omega
      _ = (start + 1) * 10 ^ (rest.length + 1) := by ring

lemma whole_of_isSpelling (h : IsSpelling digits power n)
    (hdigits : ∀ c ∈ n.whole, c.isDigit = true) :
    readOn 0 (digitValues n.whole) < significandLimit := by
  have hlength : n.whole.length ≤ 16 := by
    cases h with
    | padded hpower short => simpa using short
    | pointed short inside hpower =>
      rw [List.length_take]
      omega
    | small hpower => simp
    | scaled hcons hpower => simp
  calc readOn 0 (digitValues n.whole) < (0 + 1) * 10 ^ n.whole.length := readOn_lt 0 hdigits
    _ ≤ (0 + 1) * 10 ^ 16 := by gcongr; norm_num
    _ ≤ significandLimit := by decide

end Values

/-! ### Numbers and what their texts are read as -/

/-- What the text of a number is read as. -/
def Number.again (n : Number) : Option Number :=
  match tokens n.text with
  | [.number value] => value
  | _ => none

/-- A number that a text can hold. -/
def Number.InRange : Number → Prop
  | .int value => -(2 ^ 63 : Int) ≤ value ∧ value < 2 ^ 64
  | .float value => Binary64.Fits (value.mantissa, value.exponent)

namespace Number

variable {n : Number} {m : Numeral}

lemma wellFormed_int (value : Int) :
    Numeral.WellFormed ⟨value < 0, Nat.toDigits 10 value.natAbs, none, none⟩ where
  whole := isDigits_toDigits _
  lead h := by
    simp only at h ⊢
    rw [head?_toDigits h]
    rfl
  fraction := by simp
  exponent := by simp

lemma text_int (value : Int) :
    (int value).text.toList =
      Numeral.chars ⟨value < 0, Nat.toDigits 10 value.natAbs, none, none⟩ := by
  cases value with
  | ofNat k =>
    have htext : (int (.ofNat k)).text = toString k := rfl
    rw [htext, Nat.toString_eq_ofList_toDigits]
    simp [Numeral.chars, Numeral.fractionChars, Numeral.exponentChars]
  | negSucc k =>
    have htext : (int (.negSucc k)).text = "-" ++ toString (k + 1) := rfl
    rw [htext, Nat.toString_eq_ofList_toDigits]
    simp [Numeral.chars, Numeral.fractionChars, Numeral.exponentChars]

/-- The digits and the power of a double's text. -/
def decimal (value : Binary64) : Nat × Int :=
  if value.mantissa = 0 then (0, 0) else shortest value.mantissa value.exponent

lemma decimal_spec (value : Binary64) :
    ((decimal value).1 = 0 → (decimal value).2 = 0) ∧
      ((decimal value).1 : ℚ) * 10 ^ (decimal value).2 ≤
        (value.mantissa + 1 / 2) * 2 ^ value.exponent := by
  rw [decimal]
  split
  · refine ⟨fun _ => rfl, ?_⟩
    rw [Nat.cast_zero, zero_mul]
    positivity
  · exact shortest_spec (by omega) value.exponent

lemma text_float (value : Binary64) :
    (float value).text.toList = (if value.negative then ['-'] else []) ++
      (floatSpelling.write (decimal value).1 (decimal value).2).toList := by
  have hmagnitude : (if value.mantissa == 0 then "0.0" else
      floatSpelling.write (shortest value.mantissa value.exponent).1
        (shortest value.mantissa value.exponent).2) =
      floatSpelling.write (decimal value).1 (decimal value).2 := by
    by_cases hzero : value.mantissa = 0
    · have hwrite : floatSpelling.write 0 0 = "0.0" := by decide +kernel
      rw [decimal, if_pos hzero, if_pos (by simpa using hzero), hwrite]
    · rw [decimal, if_neg hzero, if_neg (by simpa using hzero)]
  rw [text, Spelling.writeBinary64, hmagnitude]
  split <;> simp

lemma exists_float (value : Binary64) :
    ∃ m : Numeral, m.WellFormed ∧ (float value).text.toList = m.chars ∧
      (m.fraction ≠ none ∨ m.exponent ≠ none) ∧
      readOn 0 (digitValues m.whole) < significandLimit ∧
      m.written.magnitude ≤ (value.mantissa + 1 / 2) * 2 ^ value.exponent := by
  obtain ⟨hzero, hle⟩ := decimal_spec value
  obtain ⟨m, hm, hchars⟩ := exists_isSpelling (decimal value).1 (decimal value).2
  have hwell := hm.wellFormed hzero
  have hplain : m.negative = false := by cases hm <;> rfl
  have hwhole := whole_of_isSpelling hm hwell.whole.2
  have hmagnitude := (magnitude_of_isSpelling hm).le.trans hle
  refine ⟨{ m with negative := value.negative }, ⟨hwell.whole, hwell.lead, hwell.fraction,
    hwell.exponent⟩, ?_, ?_, hwhole, hmagnitude⟩
  · rw [text_float]
    cases value.negative <;> simp [hchars, Numeral.chars, hplain]
  · cases hm <;> simp

lemma again_eq (hm : m.WellFormed) (htext : n.text.toList = m.chars) : n.again = m.text.value? := by
  have hstart : ({} : Lexer) = ⟨[], .between⟩ := rfl
  have hrest : AtRest [.number m.text.value?] ⟨[], .number m.phase m.text⟩ := .number rfl
  rw [again, tokens, htext, hstart, Numeral.foldl_chars hm, hrest.finish]
  rfl

lemma atRest_text (n : Number) (tokens : List Token) :
    AtRest (.number n.again :: tokens) (n.text.toList.foldl Lexer.step ⟨tokens, .between⟩) := by
  have hnumeral : ∃ m : Numeral, m.WellFormed ∧ n.text.toList = m.chars := by
    cases n with
    | int value => exact ⟨_, wellFormed_int value, text_int value⟩
    | float value =>
      obtain ⟨m, hm, htext, -⟩ := exists_float value
      exact ⟨m, hm, htext⟩
  obtain ⟨m, hm, htext⟩ := hnumeral
  rw [again_eq hm htext, htext, Numeral.foldl_chars hm]
  exact .number rfl

lemma inRange_of_toBinary64? {w : Written} (h : w.toBinary64?.map float = some n) : n.InRange := by
  obtain ⟨value, hvalue, rfl⟩ := Option.map_eq_some_iff.mp h
  exact Written.fits_toBinary64? hvalue

lemma inRange_of_value? {t : NumberText} (h : t.value? = some n) : n.InRange := by
  unfold NumberText.value? at h
  simp only [Nat.pow_eq] at h
  split at h
  · split at h
    · rename_i hplain
      obtain rfl := Option.some.inj h
      simp only [Bool.and_eq_true, decide_eq_true_eq] at hplain
      rw [InRange]
      omega
    split at h
    · rename_i hnegative
      obtain rfl := Option.some.inj h
      simp only [Bool.and_eq_true, decide_eq_true_eq] at hnegative
      rw [InRange]
      omega
    · exact inRange_of_toBinary64? h
  · exact inRange_of_toBinary64? h

lemma again_int {value : Int} (h : (int value).InRange) :
    (int value).again = some (.int value) := by
  rw [InRange] at h
  have hvalue :
      digitsValue (digitValues (Nat.toDigits 10 value.natAbs)).reverse = value.natAbs := by
    rw [digitsValue_reverse, readOn_toDigits]
  rw [again_eq (wellFormed_int value) (text_int value), NumberText.value?]
  simp only [Numeral.text, Option.map_none, hvalue, Nat.pow_eq]
  by_cases hnegative : value < 0
  · rw [if_neg (by simp [hnegative]), if_pos (by simp [hnegative]; omega)]
    congr 2
    omega
  · rw [if_pos (by simp [hnegative]; omega)]
    congr 2
    omega

lemma readable_of_fits {value : Binary64} (h : Binary64.Fits (value.mantissa, value.exponent))
    (hsmall : value.mantissa ≤ 2 ^ 53 - 3 ∨ value.exponent ≤ 970) :
    (value.mantissa + 1 / 2) * (2 : ℚ) ^ value.exponent ≤ readable := by
  have hmono {k : Nat} (hk : value.exponent ≤ k) : (2 : ℚ) ^ value.exponent ≤ 2 ^ k := by
    rw [← zpow_natCast]
    exact zpow_le_zpow_right₀ (by norm_num) hk
  rcases Nat.lt_or_ge (2 ^ 53 - 3) value.mantissa with hlarge | hmantissa
  · have hmantissa : value.mantissa + 1 ≤ 2 ^ 53 := h.mantissa
    have hcast : (value.mantissa : ℚ) + 1 ≤ 2 ^ 53 := by exact_mod_cast hmantissa
    calc (value.mantissa + 1 / 2) * (2 : ℚ) ^ value.exponent
        ≤ ((2 ^ 53 - 5 / 2) * 2) * 2 ^ 970 :=
          mul_le_mul (by linarith) (hmono (hsmall.resolve_left (by omega))) (by positivity)
            (by norm_num)
      _ = readable := by rw [readable, mul_assoc, ← pow_succ']
  · have hmantissa : value.mantissa + 3 ≤ 2 ^ 53 := by omega
    have hcast : (value.mantissa : ℚ) + 3 ≤ 2 ^ 53 := by exact_mod_cast hmantissa
    exact mul_le_mul (by linarith) (hmono h.high) (by positivity) (by norm_num)

/-- Numbers in range are read back as numbers. -/
theorem again_isSome (h : n.InRange) : n.again.isSome = true := by
  cases n with
  | int value => rw [again_int h]; rfl
  | float value =>
    by_cases hsmall : value.mantissa ≤ 2 ^ 53 - 3 ∨ value.exponent ≤ 970
    · obtain ⟨m, hm, htext, hfloat, hwhole, hmagnitude⟩ := exists_float value
      obtain ⟨d, hd⟩ :=
        Written.exists_toBinary64? hwhole (hmagnitude.trans (readable_of_fits h hsmall))
      rw [again_eq hm htext, value?_of_float hfloat, hd]
      rfl
    · obtain ⟨negative, mantissa, exponent⟩ := value
      obtain ⟨hmantissa, -, hexponent⟩ := h
      simp only at hmantissa hexponent hsmall
      obtain rfl : exponent = 971 := by omega
      have hlargest : mantissa = 2 ^ 53 - 1 ∨ mantissa = 2 ^ 53 - 2 := by omega
      rcases hlargest with rfl | rfl <;> cases negative <;> decide +kernel

end Number

end Json

end InspectorProtocol

import InspectorProtocol.Decimal.Reading
import Mathlib.Algebra.Order.Field.Power
import Mathlib.Data.Rat.Cast.Order
import Mathlib.Tactic.FieldSimp
import Mathlib.Tactic.Lemma
import Mathlib.Tactic.Linarith
import Mathlib.Tactic.NormNum
import Mathlib.Tactic.Positivity
import Mathlib.Tactic.Ring

/-!
# Rounding to doubles

A ratio is rounded to a double with an error of at most half a unit in the last place of its
mantissa. It is refused only from halfway between the largest double and the power of two behind it
on.
-/

namespace InspectorProtocol.Decimal

namespace Binary64

/-- The number a magnitude stands for. -/
def value (a : Nat × Int) : ℚ := a.1 * 2 ^ a.2

/-- Whether a magnitude is that of a finite double. -/
structure Fits (a : Nat × Int) : Prop where
  mantissa : a.1 < 2 ^ 53
  low : -1074 ≤ a.2
  high : a.2 ≤ 971

/-- Numbers from here on are beyond the doubles. -/
def limit : ℚ := (2 ^ 53 - 1 / 2) * 2 ^ 971

lemma value_nonneg (a : Nat × Int) : 0 ≤ value a := by
  unfold value
  positivity

lemma ratio_spec (mantissa : Nat) (exponent : Int) :
    0 < (ratio mantissa exponent).2 ∧
      ((ratio mantissa exponent).1 : ℚ) / (ratio mantissa exponent).2 =
        value (mantissa, exponent) := by
  cases exponent with
  | ofNat n => simp [ratio, value]
  | negSucc n => simp [ratio, value, zpow_negSucc, div_eq_mul_inv]

lemma scaledRatio_spec (num : Nat) {den : Nat} (hden : 0 < den) (exponent : Int) :
    0 < (scaledRatio num den exponent).2 ∧
      ((scaledRatio num den exponent).1 : ℚ) / (scaledRatio num den exponent).2 =
        num / den / 2 ^ exponent := by
  cases exponent with
  | ofNat n => simp [scaledRatio, hden, div_div]
  | negSucc n =>
    simp [scaledRatio, hden, zpow_negSucc]
    ring

lemma roundQuotient_spec (num : Nat) {den : Nat} (hden : 0 < den) :
    (num : ℚ) / den - 1 / 2 ≤ roundQuotient num den ∧
      (roundQuotient num den : ℚ) ≤ num / den + 1 / 2 := by
  have hdiv := Nat.div_add_mod num den
  have hmod := Nat.mod_lt num hden
  have hwhole : 2 * num ≤ (2 * roundQuotient num den + 1) * den ∧
      2 * roundQuotient num den * den ≤ 2 * num + den := by
    unfold roundQuotient
    generalize num / den = q at hdiv ⊢
    generalize num % den = r at hdiv hmod ⊢
    subst hdiv
    simp only [Bool.or_eq_true, decide_eq_true_eq, Bool.and_eq_true, beq_iff_eq]
    split
    · have hhalf : den ≤ 2 * r := by omega
      constructor <;> nlinarith
    · have hhalf : 2 * r ≤ den := by omega
      constructor <;> nlinarith
  have hden' : (0 : ℚ) < den := by exact_mod_cast hden
  have hlow : (2 * num : ℚ) ≤ (2 * roundQuotient num den + 1) * den := by exact_mod_cast hwhole.1
  have hhigh : (2 * roundQuotient num den * den : ℚ) ≤ 2 * num + den := by exact_mod_cast hwhole.2
  constructor
  · rw [sub_le_iff_le_add, div_le_iff₀ hden']
    linarith
  · rw [← sub_le_iff_le_add, le_div_iff₀ hden']
    linarith

lemma log2_spec {num den : Nat} (hnum : 0 < num) (hden : 0 < den) :
    (2 : ℚ) ^ ((num.log2 : Int) - den.log2 - 1) < num / den ∧
      (num : ℚ) / den < 2 ^ ((num.log2 : Int) - den.log2 + 1) := by
  have hden' : (0 : ℚ) < den := by exact_mod_cast hden
  have bounds {n : Nat} (h : 0 < n) :
      (2 : ℚ) ^ (n.log2 : Int) ≤ n ∧ (n : ℚ) < 2 ^ ((n.log2 : Int) + 1) := by
    have hlow : 2 ^ n.log2 ≤ n := Nat.log2_self_le h.ne'
    have hhigh : n < 2 ^ (n.log2 + 1) := Nat.lt_log2_self
    exact ⟨by exact_mod_cast hlow, by exact_mod_cast hhigh⟩
  obtain ⟨hnlow, hnhigh⟩ := bounds hnum
  obtain ⟨hdlow, hdhigh⟩ := bounds hden
  constructor
  · rw [lt_div_iff₀ hden']
    calc (2 : ℚ) ^ ((num.log2 : Int) - den.log2 - 1) * den
        < 2 ^ ((num.log2 : Int) - den.log2 - 1) * 2 ^ ((den.log2 : Int) + 1) := by gcongr
      _ = 2 ^ (num.log2 : Int) := by
        rw [← zpow_add₀ (by norm_num)]
        congr 1
        omega
      _ ≤ num := hnlow
  · rw [div_lt_iff₀ hden']
    calc (num : ℚ) < 2 ^ ((num.log2 : Int) + 1) := hnhigh
      _ = 2 ^ ((num.log2 : Int) - den.log2 + 1) * 2 ^ (den.log2 : Int) := by
        rw [← zpow_add₀ (by norm_num)]
        congr 1
        omega
      _ ≤ 2 ^ ((num.log2 : Int) - den.log2 + 1) * den := by gcongr

lemma exponentOf_spec {num den : Nat} (hnum : 0 < num) (hden : 0 < den) :
    -1074 ≤ exponentOf num den ∧ (num : ℚ) / den / 2 ^ exponentOf num den < 2 ^ 53 ∧
      (exponentOf num den = -1074 ∨ 2 ^ 52 ≤ (num : ℚ) / den / 2 ^ exponentOf num den) := by
  obtain ⟨hlow, hhigh⟩ := log2_spec hnum hden
  obtain ⟨hpos, hscaled⟩ := scaledRatio_spec num hden ((num.log2 : Int) - den.log2 - 52)
  set x : ℚ := num / den
  set guess : Int := (num.log2 : Int) - den.log2 - 52 with hguess
  have hexponentOf : exponentOf num den =
      max (if (scaledRatio num den guess).1 / (scaledRatio num den guess).2 < 2 ^ 52
        then guess - 1 else guess) (-1074) := rfl
  obtain ⟨exact, hexponent, hexact⟩ : ∃ exact : Int, exponentOf num den = max exact (-1074) ∧
      2 ^ 52 ≤ x / 2 ^ exact ∧ x / 2 ^ exact < 2 ^ 53 := by
    have hguessLow : 2 ^ 51 < x / 2 ^ guess := by
      rw [lt_div_iff₀ (by positivity), ← zpow_natCast, ← zpow_add₀ (by norm_num)]
      refine lt_of_eq_of_lt ?_ hlow
      congr 1
      omega
    have hguessHigh : x / 2 ^ guess < 2 ^ 53 := by
      rw [div_lt_iff₀ (by positivity), ← zpow_natCast, ← zpow_add₀ (by norm_num)]
      refine lt_of_lt_of_eq hhigh ?_
      congr 1
      omega
    by_cases hsmall : (scaledRatio num den guess).1 / (scaledRatio num den guess).2 < 2 ^ 52
    · refine ⟨guess - 1, by rw [hexponentOf, if_pos hsmall], ?_⟩
      have hhalf : x / 2 ^ (guess - 1) = 2 * (x / 2 ^ guess) := by
        rw [zpow_sub_one₀ (by norm_num)]
        field_simp
      have hbelow : x / 2 ^ guess < 2 ^ 52 := by
        rw [← hscaled, div_lt_iff₀ (by exact_mod_cast hpos)]
        exact_mod_cast (Nat.div_lt_iff_lt_mul hpos).mp hsmall
      rw [hhalf]
      constructor <;> linarith
    · refine ⟨guess, by rw [hexponentOf, if_neg hsmall], ?_, hguessHigh⟩
      rw [← hscaled, le_div_iff₀ (by exact_mod_cast hpos)]
      exact_mod_cast (Nat.le_div_iff_mul_le hpos).mp (not_lt.mp hsmall)
  rw [hexponent]
  rcases le_total (-1074) exact with hle | hle
  · rw [max_eq_left hle]
    exact ⟨hle, hexact.2, .inr hexact.1⟩
  · rw [max_eq_right hle]
    refine ⟨le_rfl, lt_of_le_of_lt ?_ hexact.2, .inl rfl⟩
    have hx : 0 ≤ x := by positivity
    gcongr
    norm_num

/-- A double that a number may be rounded to: the error is small beside the number, or beside the
least positive double. -/
structure IsRounded (x : ℚ) (a : Nat × Int) : Prop extends Fits a where
  error : |value a - x| ≤ max (x / 2 ^ 53) (1 / 2 ^ 1075)

lemma value_carry (exponent : Int) : value (2 ^ 52, exponent + 1) = value (2 ^ 53, exponent) := by
  rw [value, value, zpow_add_one₀ (by norm_num)]
  push_cast
  ring

/-- A ratio is rounded to the grid of its exponent, by half a step at most. -/
lemma roundRatio_spec {num den : Nat} (hnum : 0 < num) (hden : 0 < den) :
    ∃ mantissa : Nat, mantissa ≤ 2 ^ 53 ∧
      |value (mantissa, exponentOf num den) - num / den| ≤ 2 ^ exponentOf num den / 2 ∧
      roundRatio num den =
        let a := if mantissa = 2 ^ 53 then (2 ^ 52, exponentOf num den + 1)
          else (mantissa, exponentOf num den)
        if a.2 > 971 then none else some a := by
  obtain ⟨hlow, hhigh, hnormal⟩ := exponentOf_spec hnum hden
  obtain ⟨hpos, hscaled⟩ := scaledRatio_spec num hden (exponentOf num den)
  set x : ℚ := num / den
  set e := exponentOf num den with he
  obtain ⟨hbelow, habove⟩ := roundQuotient_spec (scaledRatio num den e).1 hpos
  rw [hscaled] at hbelow habove
  set mantissa := roundQuotient (scaledRatio num den e).1 (scaledRatio num den e).2 with hmantissa
  refine ⟨mantissa, ?_, ?_, ?_⟩
  · have hlt : (mantissa : ℚ) < 2 ^ 53 + 1 := by linarith
    have : mantissa < 2 ^ 53 + 1 := by exact_mod_cast hlt
    omega
  · have hunit : (0 : ℚ) < 2 ^ e := by positivity
    have herror : |(mantissa : ℚ) - x / 2 ^ e| ≤ 1 / 2 := abs_le.mpr ⟨by linarith, by linarith⟩
    have hfactor : value (mantissa, e) - x = (mantissa - x / 2 ^ e) * 2 ^ e := by
      rw [value, sub_mul, div_mul_cancel₀ x hunit.ne']
    calc |value (mantissa, e) - x| = |(mantissa : ℚ) - x / 2 ^ e| * 2 ^ e := by
          rw [hfactor, abs_mul, abs_of_pos hunit]
      _ ≤ 1 / 2 * 2 ^ e := by gcongr
      _ = 2 ^ e / 2 := by ring
  · have hround : roundRatio num den =
        let a := if mantissa == Nat.pow 2 53 then (Nat.pow 2 52, e + 1) else (mantissa, e)
        if a.2 > 971 then none else some a := by
      rw [roundRatio, if_neg (by simpa using hnum.ne')]
    rw [hround]
    simp only [beq_iff_eq, Nat.pow_eq]

lemma isRounded_of_roundRatio {num den : Nat} (hden : 0 < den) {a : Nat × Int}
    (h : roundRatio num den = some a) : IsRounded (num / den) a := by
  rcases Nat.eq_zero_or_pos num with rfl | hnum
  · obtain rfl : (0, -1074) = a := Option.some.inj h
    exact ⟨⟨by norm_num, le_rfl, by norm_num⟩, by simp [value]⟩
  obtain ⟨hlow, -, hnormal⟩ := exponentOf_spec hnum hden
  obtain ⟨mantissa, hmantissa, herror, hround⟩ := roundRatio_spec hnum hden
  set x : ℚ := num / den
  set e := exponentOf num den
  have hstep : (2 : ℚ) ^ e / 2 ≤ max (x / 2 ^ 53) (1 / 2 ^ 1075) := by
    rcases hnormal with hleast | hnormal
    · refine le_max_of_le_right (le_of_eq ?_)
      rw [hleast, zpow_neg, pow_succ, one_div, mul_inv]
      rfl
    · refine le_max_of_le_left ?_
      rw [le_div_iff₀ (by positivity)] at hnormal
      linarith
  rw [hround] at h
  by_cases hcarry : mantissa = 2 ^ 53
  · simp only [if_pos hcarry] at h
    split at h
    · cases h
    · rename_i hhigh
      obtain rfl := Option.some.inj h
      refine ⟨⟨by norm_num, by simp only; omega, by simpa using hhigh⟩, ?_⟩
      rw [value_carry, ← hcarry]
      exact herror.trans hstep
  · simp only [if_neg hcarry] at h
    split at h
    · cases h
    · rename_i hhigh
      obtain rfl := Option.some.inj h
      exact ⟨⟨lt_of_le_of_ne hmantissa hcarry, hlow, by simpa using hhigh⟩, herror.trans hstep⟩

lemma exists_isRounded {num den : Nat} (hden : 0 < den) (h : (num : ℚ) / den < limit) :
    ∃ a, roundRatio num den = some a ∧ IsRounded (num / den) a := by
  suffices hsome : ∃ a, roundRatio num den = some a by
    obtain ⟨a, ha⟩ := hsome
    exact ⟨a, ha, isRounded_of_roundRatio hden ha⟩
  rcases Nat.eq_zero_or_pos num with rfl | hnum
  · exact ⟨_, rfl⟩
  obtain ⟨hlow, -, hnormal⟩ := exponentOf_spec hnum hden
  obtain ⟨mantissa, -, herror, hround⟩ := roundRatio_spec hnum hden
  set x : ℚ := num / den
  set e := exponentOf num den
  have hmono (k : Nat) (hk : (k : Int) ≤ e) : (2 : ℚ) ^ k ≤ 2 ^ e := by
    rw [← zpow_natCast]
    exact zpow_le_zpow_right₀ (by norm_num) hk
  have hcarry : mantissa = 2 ^ 53 → e < 971 := by
    intro hcarry
    by_contra hhigh
    have hunit := hmono 971 (not_lt.mp hhigh)
    have hbelow := (abs_le.mp herror).2
    rw [value, hcarry] at hbelow
    push_cast at hbelow
    rw [limit] at h
    generalize (2 : ℚ) ^ 971 = unit at h hunit
    linarith
  have hplain : e ≤ 971 := by
    by_contra hhigh
    have hunit := hmono 972 (by omega)
    have hmantissa : 2 ^ 52 * (2 : ℚ) ^ e ≤ x :=
      (le_div_iff₀ (by positivity)).mp (hnormal.resolve_left (by omega))
    have hpos : (0 : ℚ) < 2 ^ 971 := by positivity
    rw [limit] at h
    rw [pow_succ] at hunit
    generalize (2 : ℚ) ^ 971 = unit at h hunit hpos
    linarith
  rw [hround]
  by_cases hmax : mantissa = 2 ^ 53
  · have hbelow := hcarry hmax
    exact ⟨_, by simp only [if_pos hmax]; exact if_neg (by omega)⟩
  · exact ⟨_, by simp only [if_neg hmax]; exact if_neg (by omega)⟩

lemma IsRounded.error_of_one_le {x : ℚ} {a : Nat × Int} (h : IsRounded x a) (hx : 1 ≤ x) :
    |value a - x| ≤ x / 2 ^ 53 := by
  refine h.error.trans (max_le le_rfl ?_)
  have hpow : (2 : ℚ) ^ 53 ≤ 2 ^ 1075 := pow_le_pow_right₀ (by norm_num) (by norm_num)
  calc (1 : ℚ) / 2 ^ 1075 ≤ 1 / 2 ^ 53 := by gcongr
    _ ≤ x / 2 ^ 53 := by gcongr

variable {a b c : Nat × Int}

lemma mulMagnitude_eq (a b : Nat × Int) :
    ∃ num den : Nat, 0 < den ∧ (num : ℚ) / den = value a * value b ∧
      mulMagnitude a b = roundRatio num den := by
  obtain ⟨hden, hratio⟩ := ratio_spec (a.1 * b.1) (a.2 + b.2)
  refine ⟨_, _, hden, hratio.trans ?_, rfl⟩
  rw [value, value, value, zpow_add₀ (by norm_num)]
  push_cast
  ring

lemma divMagnitude_eq (hb : 0 < b.1) :
    ∃ num den : Nat, 0 < den ∧ (num : ℚ) / den = value a / value b ∧
      divMagnitude a b = roundRatio num den := by
  obtain ⟨hden, hratio⟩ := ratio_spec a.1 (a.2 - b.2)
  refine ⟨(ratio a.1 (a.2 - b.2)).1, (ratio a.1 (a.2 - b.2)).2 * b.1, Nat.mul_pos hden hb, ?_, rfl⟩
  have hvalue : value (a.1, a.2 - b.2) = value a / 2 ^ b.2 := by
    rw [value, value, zpow_sub₀ (by norm_num), mul_div_assoc]
  push_cast
  rw [← div_div, hratio, hvalue, div_div, mul_comm, value, value]

lemma fits_mulMagnitude (h : mulMagnitude a b = some c) : Fits c := by
  obtain ⟨num, den, hden, -, hmul⟩ := mulMagnitude_eq a b
  exact (isRounded_of_roundRatio hden (hmul ▸ h)).toFits

lemma fits_divMagnitude (hb : 0 < b.1) (h : divMagnitude a b = some c) : Fits c := by
  obtain ⟨num, den, hden, -, hdiv⟩ := divMagnitude_eq (a := a) hb
  exact (isRounded_of_roundRatio hden (hdiv ▸ h)).toFits

lemma exists_mulMagnitude (h : value a * value b < limit) : ∃ c, mulMagnitude a b = some c := by
  obtain ⟨num, den, hden, hratio, hmul⟩ := mulMagnitude_eq a b
  obtain ⟨c, hc, -⟩ := exists_isRounded hden (hratio ▸ h)
  exact ⟨c, hmul ▸ hc⟩

lemma exists_divMagnitude (hb : 0 < b.1) (h : value a / value b < limit) :
    ∃ c, divMagnitude a b = some c ∧ IsRounded (value a / value b) c := by
  obtain ⟨num, den, hden, hratio, hdiv⟩ := divMagnitude_eq (a := a) hb
  rw [hdiv, ← hratio]
  exact exists_isRounded hden (hratio ▸ h)

/-! ### Powers of ten -/

lemma lt_limit {n : Nat} (h : 2 * n + 2 ^ 971 < 2 ^ 54 * 2 ^ 971) : (n : ℚ) < limit := by
  have hunit : ((2 ^ 971 : Nat) : ℚ) = 2 ^ 971 := by rw [Nat.cast_pow, Nat.cast_ofNat]
  rw [limit, ← hunit]
  generalize 2 ^ 971 = unit at h ⊢
  have hcast : (2 * n + unit : ℚ) < 2 ^ 54 * unit := by exact_mod_cast h
  linarith

lemma pow_lt_limit {k : Nat} (hk : k ≤ 308) : ((Nat.pow 10 k : Nat) : ℚ) < limit := by
  obtain ⟨m, hm⟩ : ∃ m, m = 308 := ⟨_, rfl⟩
  have hlargest : 2 * Nat.pow 10 m + 2 ^ 971 < 2 ^ 54 * 2 ^ 971 := by
    rw [hm]
    decide +kernel
  have hle : Nat.pow 10 k ≤ Nat.pow 10 m := Nat.pow_le_pow_right (by norm_num) (hm ▸ hk)
  refine lt_limit ?_
  generalize 2 ^ 971 = unit at hlargest ⊢
  omega

lemma exists_power {k : Nat} (hk : k ≤ 308) :
    ∃ power, roundRatio (Nat.pow 10 k) 1 = some power ∧ 0 < power.1 ∧
      10 ^ k / 2 ≤ value power ∧ value power ≤ 10 ^ k * (1 + 1 / 2 ^ 53) := by
  have hratio : ((Nat.pow 10 k : Nat) : ℚ) / (1 : Nat) = 10 ^ k := by simp
  have hlimit : ((Nat.pow 10 k : Nat) : ℚ) / (1 : Nat) < limit := by
    rw [Nat.cast_one, div_one]
    exact pow_lt_limit hk
  obtain ⟨power, hpower, hrounded⟩ := exists_isRounded one_pos hlimit
  rw [hratio] at hrounded
  have hone : (1 : ℚ) ≤ 10 ^ k := one_le_pow₀ (by norm_num)
  obtain ⟨hlow, hhigh⟩ := abs_le.mp (hrounded.error_of_one_le hone)
  have hvalue : 10 ^ k / 2 ≤ value power := by linarith
  refine ⟨power, hpower, Nat.pos_of_ne_zero fun hzero => ?_, hvalue, by linarith⟩
  rw [value, hzero, Nat.cast_zero, zero_mul] at hvalue
  linarith

end Binary64

open Binary64

/-! ### Moving the point -/

variable {pieces : Nat} {a c : Nat × Int} {exponent : Int}

lemma scale_near (pieces : Nat) (a : Nat × Int) (h : exponent.natAbs ≤ 308) :
    ∃ power : Nat × Int, 0 < power.1 ∧ 10 ^ exponent.natAbs / 2 ≤ value power ∧
      value power ≤ 10 ^ exponent.natAbs * (1 + 1 / 2 ^ 53) ∧
      scale pieces a exponent =
        if exponent ≥ 0 then mulMagnitude a power else divMagnitude a power := by
  obtain ⟨power, hpower, hpos, hlow, hhigh⟩ := exists_power h
  refine ⟨power, hpos, hlow, hhigh, ?_⟩
  unfold scale
  rw [if_pos h, hpower]
  rfl

section Far

variable (hfar : ¬ exponent.natAbs ≤ 308)
include hfar

lemma scale_zero (pieces : Nat) (hzero : a.1 = 0) : scale pieces a exponent = some a := by
  unfold scale
  rw [if_neg hfar, if_pos (by simpa using hzero)]

lemma scale_large (pieces : Nat) (hzero : a.1 ≠ 0) (hlarge : exponent ≥ 0) :
    scale pieces a exponent = none := by
  unfold scale
  rw [if_neg hfar, if_neg (by simpa using hzero), if_pos hlarge]

lemma scale_vanish (hzero : a.1 ≠ 0) (hsmall : exponent < 0) :
    scale 0 a exponent = some (0, -1074) := by
  unfold scale
  rw [if_neg hfar, if_neg (by simpa using hzero), if_neg (by omega)]

lemma scale_piece (pieces : Nat) (hzero : a.1 ≠ 0) (hsmall : exponent < 0) :
    ∃ power : Nat × Int, 0 < power.1 ∧ 8 ≤ value power ∧
      scale (pieces + 1) a exponent =
        divMagnitude a power >>= fun b => scale pieces b (exponent + 308) := by
  obtain ⟨power, hpower, hpos, hlow, -⟩ := exists_power le_rfl
  have hpow : (10 : ℚ) ^ 2 ≤ 10 ^ 308 := pow_le_pow_right₀ (by norm_num) (by norm_num)
  refine ⟨power, hpos, ?_, ?_⟩
  · calc (8 : ℚ) ≤ 10 ^ 2 / 2 := by norm_num
      _ ≤ 10 ^ 308 / 2 := by gcongr
      _ ≤ value power := hlow
  · conv_lhs => unfold scale
    rewrite [if_neg hfar, if_neg (by simpa using hzero), if_neg (by omega), hpower]
    rfl

end Far

lemma scale_inv (h : scale pieces a exponent = some c) :
    Fits c ∨ c = a ∨
      ∃ rest b, pieces = rest + 1 ∧ Fits b ∧ scale rest b (exponent + 308) = some c := by
  by_cases hnear : exponent.natAbs ≤ 308
  · obtain ⟨power, hpos, -, -, hscale⟩ := scale_near pieces a hnear
    rw [hscale] at h
    split at h
    · exact .inl (fits_mulMagnitude h)
    · exact .inl (fits_divMagnitude hpos h)
  by_cases hzero : a.1 = 0
  · exact .inr (.inl (Option.some.inj (h.symm.trans (scale_zero hnear _ hzero))))
  by_cases hlarge : exponent ≥ 0
  · cases h.symm.trans (scale_large hnear _ hzero hlarge)
  cases pieces with
  | zero =>
    obtain rfl := Option.some.inj (h.symm.trans (scale_vanish hnear hzero (by omega)))
    exact .inl ⟨by norm_num, le_rfl, by norm_num⟩
  | succ rest =>
    obtain ⟨power, hpos, -, hpiece⟩ := scale_piece hnear rest hzero (by omega)
    obtain ⟨b, hb, hrest⟩ := Option.bind_eq_some_iff.mp (hpiece.symm.trans h)
    exact .inr (.inr ⟨rest, b, rfl, fits_divMagnitude hpos hb, hrest⟩)

lemma fits_scale (h : Fits a) (hscale : scale pieces a exponent = some c) : Fits c := by
  induction pieces generalizing a exponent with
  | zero =>
    rcases scale_inv hscale with hfits | rfl | ⟨rest, b, hrest, -⟩
    · exact hfits
    · exact h
    · cases hrest
  | succ pieces ih =>
    rcases scale_inv hscale with hfits | rfl | ⟨rest, b, hrest, hb, hscale⟩
    · exact hfits
    · exact h
    · cases hrest
      exact ih hb hscale

lemma div_lt_limit (h : value a ≤ 2 ^ 65) {power : Nat × Int} (hpower : 1 / 2 ≤ value power) :
    value a / value power < limit := by
  have hlimit : (2 : ℚ) ^ 66 < limit := by
    have hnat := lt_limit (n := 2 ^ 66) (by decide +kernel)
    exact_mod_cast hnat
  refine lt_of_le_of_lt ((div_le_iff₀ (by linarith)).mpr ?_) hlimit
  linarith

lemma exists_scale_near (hnear : exponent.natAbs ≤ 308) (hsmall : exponent < 0)
    (h : value a ≤ 2 ^ 65) : ∃ c, scale pieces a exponent = some c := by
  obtain ⟨power, hpos, hlow, -, hscale⟩ := scale_near pieces a hnear
  have hone : (1 : ℚ) ≤ 10 ^ exponent.natAbs := one_le_pow₀ (by norm_num)
  obtain ⟨c, hc, -⟩ := exists_divMagnitude hpos (div_lt_limit h (by linarith))
  exact ⟨c, by rw [hscale, if_neg (by omega), hc]⟩

lemma exists_scale_of_neg (pieces : Nat) (hsmall : exponent < 0) (h : value a ≤ 2 ^ 65) :
    ∃ c, scale pieces a exponent = some c := by
  induction pieces generalizing a exponent with
  | zero =>
    by_cases hnear : exponent.natAbs ≤ 308
    · exact exists_scale_near hnear hsmall h
    by_cases hzero : a.1 = 0
    · exact ⟨a, scale_zero hnear _ hzero⟩
    · exact ⟨_, scale_vanish hnear hzero hsmall⟩
  | succ pieces ih =>
    by_cases hnear : exponent.natAbs ≤ 308
    · exact exists_scale_near hnear hsmall h
    by_cases hzero : a.1 = 0
    · exact ⟨a, scale_zero hnear _ hzero⟩
    obtain ⟨power, hpos, hlow, hscale⟩ := scale_piece hnear pieces hzero hsmall
    obtain ⟨b, hb, hrounded⟩ := exists_divMagnitude hpos (div_lt_limit h (by linarith))
    have hvalue : value b ≤ 2 ^ 65 := by
      have hquotient : value a / value power ≤ 2 ^ 62 := by
        rw [div_le_iff₀ (by linarith)]
        linarith
      have hleast : (1 : ℚ) / 2 ^ 1075 ≤ 1 :=
        div_le_one_of_le₀ (one_le_pow₀ (by norm_num)) (by positivity)
      have hmax : max (value a / value power / 2 ^ 53) (1 / 2 ^ 1075) ≤ 2 ^ 62 :=
        max_le (by linarith) (hleast.trans (by norm_num))
      linarith [(abs_le.mp hrounded.error).2]
    obtain ⟨c, hc⟩ := ih (show exponent + 308 < 0 by omega) hvalue
    exact ⟨c, by rw [hscale, hb]; exact hc⟩

/-- Up to here a decimal is read as a double, with the errors of three roundings. -/
def readable : ℚ := (2 ^ 53 - 5 / 2) * 2 ^ 971

lemma readable_lt_pow {k : Nat} (hk : 308 < k) : readable < 10 ^ k := by
  obtain ⟨m, hm⟩ : ∃ m, m = 309 := ⟨_, rfl⟩
  have hlargest : 2 ^ 53 * 2 ^ 971 < 10 ^ m := by
    rw [hm]
    decide +kernel
  have hle : (10 : ℚ) ^ m ≤ 10 ^ k := pow_le_pow_right₀ (by norm_num) (by omega)
  have hunit : ((2 ^ 971 : Nat) : ℚ) = 2 ^ 971 := by rw [Nat.cast_pow, Nat.cast_ofNat]
  refine lt_of_lt_of_le ?_ hle
  rw [readable, ← hunit]
  generalize 2 ^ 971 = unit at hlargest ⊢
  have hcast : (2 ^ 53 * unit : ℚ) < 10 ^ m := by exact_mod_cast hlargest
  linarith [Nat.cast_nonneg (α := ℚ) unit]

lemma exists_scale_of_nonneg (pieces : Nat) {k : Nat} {x : ℚ} (hx : 1 ≤ x)
    (herror : |value a - x| ≤ x / 2 ^ 53) (hreadable : x * 10 ^ k ≤ readable) :
    ∃ c, scale pieces a k = some c := by
  have hten : (0 : ℚ) < 10 ^ k := by positivity
  have hk : (k : Int).natAbs ≤ 308 := by
    rw [Int.natAbs_natCast]
    by_contra hfar
    have hlt := readable_lt_pow (not_le.mp hfar)
    nlinarith
  obtain ⟨power, hpos, hlow, hhigh, hscale⟩ := scale_near pieces a hk
  rw [Int.natAbs_natCast] at hhigh
  have hvalue : value a ≤ x * (1 + 1 / 2 ^ 53) := by linarith [(abs_le.mp herror).2]
  have hproduct : value a * value power < limit :=
    calc value a * value power
        ≤ x * (1 + 1 / 2 ^ 53) * (10 ^ k * (1 + 1 / 2 ^ 53)) :=
          mul_le_mul hvalue hhigh (value_nonneg power) (by positivity)
      _ = x * 10 ^ k * (1 + 1 / 2 ^ 53) ^ 2 := by ring
      _ ≤ readable * (1 + 1 / 2 ^ 53) ^ 2 := by gcongr
      _ = (2 ^ 53 - 5 / 2) * (1 + 1 / 2 ^ 53) ^ 2 * 2 ^ 971 := by rw [readable, mul_right_comm]
      _ < limit := by
        rw [limit]
        gcongr
        norm_num
  obtain ⟨c, hc⟩ := exists_mulMagnitude hproduct
  exact ⟨c, by rw [hscale, if_pos (by omega), hc]⟩

lemma exists_scale_zero (pieces k : Nat) : ∃ c, scale pieces (0, -1074) k = some c := by
  by_cases hnear : (k : Int).natAbs ≤ 308
  · obtain ⟨power, -, -, -, hscale⟩ := scale_near pieces (0, -1074) hnear
    have hzero : value (0, -1074) * value power < limit := by
      rw [value, limit, Nat.cast_zero, zero_mul, zero_mul]
      positivity
    obtain ⟨c, hc⟩ := exists_mulMagnitude hzero
    exact ⟨c, by rw [hscale, if_pos (by omega), hc]⟩
  · exact ⟨_, scale_zero hnear pieces rfl⟩

lemma exists_rounded_significand {significand : Nat} (h : significand < significandLimit) :
    ∃ start, roundRatio significand 1 = some start ∧ IsRounded significand start := by
  have hunit : 2 ^ 65 ≤ 2 ^ 971 := Nat.pow_le_pow_right (by norm_num) (by norm_num)
  have hlimit : (significand : ℚ) < limit := by
    refine lt_limit ?_
    rw [significandLimit, Nat.pow_eq] at h
    generalize 2 ^ 971 = unit at hunit ⊢
    omega
  rw [← div_one (significand : ℚ), ← Nat.cast_one] at hlimit ⊢
  exact exists_isRounded one_pos hlimit

/-! ### Digits -/

/-- The number that digits stand for behind others. -/
def readOn (significand : Nat) (digits : List Nat) : Nat :=
  digits.foldl (fun value d => value * 10 + d) significand

lemma readOn_append (significand : Nat) (ds es : List Nat) :
    readOn significand (ds ++ es) = readOn (readOn significand ds) es :=
  List.foldl_append

lemma mul_pow_le_readOn (significand : Nat) (digits : List Nat) :
    significand * 10 ^ digits.length ≤ readOn significand digits := by
  induction digits generalizing significand with
  | nil => simp [readOn]
  | cons d rest ih =>
    calc significand * 10 ^ (rest.length + 1) = significand * 10 * 10 ^ rest.length := by ring
      _ ≤ (significand * 10 + d) * 10 ^ rest.length := by gcongr; omega
      _ ≤ readOn significand (d :: rest) := ih _

lemma takeDigits_spec {significand : Nat} (h : significand < significandLimit) (digits : List Nat) :
    ∃ taken, digits = taken ++ (takeDigits significand digits).2 ∧
      (takeDigits significand digits).1 = readOn significand taken ∧
      (takeDigits significand digits).1 < significandLimit := by
  induction digits generalizing significand with
  | nil => exact ⟨[], rfl, rfl, h⟩
  | cons d rest ih =>
    rw [takeDigits]
    by_cases hd : significand * 10 + d < significandLimit
    · rw [if_pos hd]
      obtain ⟨taken, hsplit, hread, hlimit⟩ := ih hd
      exact ⟨d :: taken, congrArg (d :: ·) hsplit, hread, hlimit⟩
    · rw [if_neg hd]
      exact ⟨[], rfl, rfl, h⟩

lemma takeDigits_of_lt {significand : Nat} {digits : List Nat}
    (h : readOn significand digits < significandLimit) :
    takeDigits significand digits = (readOn significand digits, []) := by
  induction digits generalizing significand with
  | nil => rfl
  | cons d rest ih =>
    have hle : significand * 10 + d ≤ readOn significand (d :: rest) :=
      (Nat.le_mul_of_pos_right _ (by positivity)).trans (mul_pow_le_readOn _ rest)
    rw [takeDigits, if_pos (hle.trans_lt h)]
    exact ih h

namespace Written

/-- The number a decimal stands for, without its sign. -/
def magnitude (w : Written) : ℚ :=
  readOn 0 (w.whole ++ w.fraction.getD []) *
    10 ^ (w.exponent.getD 0 - (w.fraction.getD []).length)

variable {w : Written} {d : Binary64}

lemma toBinary64?_eq (w : Written) :
    ∃ (significand : Nat) (shift : Int), significand < significandLimit ∧
      (readOn 0 w.whole < significandLimit →
        (significand : ℚ) * 10 ^ (shift + w.exponent.getD 0) ≤ w.magnitude) ∧
      w.toBinary64? =
        (roundRatio significand 1 >>= fun start => scale 2 start (shift + w.exponent.getD 0)).map
          fun a => ⟨w.negative, a.1, a.2⟩ := by
  have hfinish (significand : Nat) (shift : Int) :
      (roundRatio significand 1 >>= fun start =>
        scale 2 start (shift + w.exponent.getD 0) >>= fun a =>
          some (⟨w.negative, a.1, a.2⟩ : Binary64)) =
      (roundRatio significand 1 >>= fun start => scale 2 start (shift + w.exponent.getD 0)).map
        fun a => ⟨w.negative, a.1, a.2⟩ := by
    cases roundRatio significand 1 with
    | none => rfl
    | some start => exact Option.map_eq_bind.symm
  obtain ⟨taken, -, -, hlimit⟩ := takeDigits_spec (by decide : 0 < significandLimit) w.whole
  rcases hwhole : takeDigits 0 w.whole with ⟨lead, dropped⟩
  rw [hwhole] at hlimit
  cases hfraction : w.fraction with
  | none =>
    refine ⟨lead, dropped.length, hlimit, fun hsmall => ?_, ?_⟩
    · obtain ⟨rfl, rfl⟩ := Prod.mk.inj (hwhole.symm.trans (takeDigits_of_lt hsmall))
      simp [magnitude, hfraction]
    · simp only [toBinary64?, hwhole, hfraction]
      exact hfinish lead dropped.length
  | some fraction =>
    obtain ⟨more, hsplit, hread, hmore⟩ := takeDigits_spec hlimit fraction
    rcases hfirst : takeDigits lead fraction with ⟨all, left⟩
    simp only [hfirst] at hsplit hread hmore
    refine ⟨all, dropped.length - (fraction.length - left.length : Nat), hmore,
      fun hsmall => ?_, ?_⟩
    · obtain ⟨rfl, rfl⟩ := Prod.mk.inj (hwhole.symm.trans (takeDigits_of_lt hsmall))
      have hdigits : all * 10 ^ left.length ≤ readOn 0 (w.whole ++ fraction) := by
        rw [readOn_append, hsplit, readOn_append, ← hread]
        exact mul_pow_le_readOn _ left
      have hcast : (all : ℚ) * 10 ^ left.length ≤ readOn 0 (w.whole ++ fraction) := by
        exact_mod_cast hdigits
      have hlength : fraction.length = more.length + left.length := by
        rw [hsplit, List.length_append]
      have hpower : (10 : ℚ) ^ left.length * 10 ^ (w.exponent.getD 0 - fraction.length) =
          10 ^ (((([] : List Nat).length : Int) - (fraction.length - left.length : Nat)) +
            w.exponent.getD 0) := by
        rw [← zpow_natCast, ← zpow_add₀ (by norm_num)]
        congr 1
        simp only [List.length_nil]
        omega
      rw [magnitude, hfraction, ← hpower, ← mul_assoc]
      exact mul_le_mul_of_nonneg_right hcast (by positivity)
    · simp only [toBinary64?, hwhole, hfraction, hfirst]
      exact hfinish all (dropped.length - (fraction.length - left.length : Nat))

lemma fits_toBinary64? (h : w.toBinary64? = some d) : Fits (d.mantissa, d.exponent) := by
  obtain ⟨significand, shift, -, -, hread⟩ := toBinary64?_eq w
  obtain ⟨a, ha, rfl⟩ := Option.map_eq_some_iff.mp (hread.symm.trans h)
  obtain ⟨start, hstart, hscale⟩ := Option.bind_eq_some_iff.mp ha
  exact fits_scale (isRounded_of_roundRatio one_pos hstart).toFits hscale

/-- A decimal with few digits before the point is read as a double if it is not too large. -/
lemma exists_toBinary64? (hwhole : readOn 0 w.whole < significandLimit)
    (hreadable : w.magnitude ≤ readable) : ∃ d, w.toBinary64? = some d := by
  obtain ⟨significand, shift, hlimit, hle, hread⟩ := toBinary64?_eq w
  obtain ⟨start, hstart, hrounded⟩ := exists_rounded_significand hlimit
  suffices hscale : ∃ c, scale 2 start (shift + w.exponent.getD 0) = some c by
    obtain ⟨c, hc⟩ := hscale
    refine ⟨⟨w.negative, c.1, c.2⟩, ?_⟩
    rw [hread, hstart]
    exact congrArg (Option.map _) hc
  have hbound := (hle hwhole).trans hreadable
  rcases lt_or_ge (shift + w.exponent.getD 0) 0 with hsmall | hlarge
  · refine exists_scale_of_neg 2 hsmall ?_
    have hcast : (significand : ℚ) ≤ 2 ^ 64 := by exact_mod_cast hlimit.le
    have hleast : (1 : ℚ) / 2 ^ 1075 ≤ 1 :=
      div_le_one_of_le₀ (one_le_pow₀ (by norm_num)) (by positivity)
    have hmax : max ((significand : ℚ) / 2 ^ 53) (1 / 2 ^ 1075) ≤ 2 ^ 64 :=
      max_le (by linarith) (hleast.trans (by norm_num))
    linarith [(abs_le.mp hrounded.error).2]
  obtain ⟨k, hk⟩ := Int.eq_ofNat_of_zero_le hlarge
  rw [hk] at hbound ⊢
  rcases Nat.eq_zero_or_pos significand with rfl | hpos
  · obtain rfl : (0, -1074) = start := Option.some.inj hstart
    exact exists_scale_zero 2 k
  · have hone : (1 : ℚ) ≤ significand := by exact_mod_cast hpos
    exact exists_scale_of_nonneg 2 hone (hrounded.error_of_one_le hone) (by exact_mod_cast hbound)

end Written

end InspectorProtocol.Decimal

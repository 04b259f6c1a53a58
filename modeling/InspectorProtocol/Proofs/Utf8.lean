import InspectorProtocol.Text.Utf8
import Mathlib.Tactic.Lemma

/-!
# Texts survive their bytes

The decoder takes the bytes of a character, one to four, from one resting place to the next: the
first byte sets the range of the second, and each further byte adds six bits. So the bytes of a text
decode to that text.
-/

namespace InspectorProtocol.Text.Utf8

/-- The decoder between two characters. -/
def resting (chars : List Char) (index : Nat) : Decoder := ⟨chars, index, none, none⟩

/-- The decoder within a character. -/
def within (chars : List Char) (index : Nat) (p : Partial) : Decoder := ⟨chars, index, some p, none⟩

section Steps

variable {chars : List Char} {index : Nat} {byte : UInt8} {p q : Partial} {c : Char}

lemma step_resting_complete (h : first byte = .complete c) :
    (resting chars index).step byte = resting (c :: chars) (index + 1) := by
  simp [Decoder.step, resting, h]

lemma step_resting_more (h : first byte = .more p) :
    (resting chars index).step byte = within chars index p := by
  simp [Decoder.step, resting, within, h]

lemma step_within_complete (h : p.next byte = .complete c) :
    (within chars index p).step byte = resting (c :: chars) (index + p.taken + 1) := by
  simp [Decoder.step, resting, within, h]

lemma step_within_more (h : p.next byte = .more q) :
    (within chars index p).step byte = within chars index q := by
  simp [Decoder.step, within, h]

end Steps

lemma toNat_ofNat_of_lt {n : Nat} (h : n < 256) : (UInt8.ofNat n).toNat = n := by
  rw [UInt8.toNat_ofNat']
  exact Nat.mod_eq_of_lt h

lemma next_complete {p : Partial} {n bits : Nat} (hmissing : p.missing = 1) (hbits : bits < 0x40)
    (hlow : p.low ≤ 0x80 + bits) (hhigh : 0x80 + bits ≤ p.high) (hn : p.value * 0x40 + bits = n) :
    p.next (.ofNat (0x80 + bits)) = .complete (Char.ofNat n) := by
  have hbyte : (UInt8.ofNat (0x80 + bits)).toNat = 0x80 + bits := toNat_ofNat_of_lt (by omega)
  have hrange : (decide (0x80 + bits < p.low) || decide (p.high < 0x80 + bits)) = false := by
    simp
    omega
  have hvalue : p.value * 0x40 + (0x80 + bits - 0x80) = n := by omega
  simp only [Partial.next, hbyte, hrange, hvalue, hmissing, Nat.le_refl, if_true,
    Bool.false_eq_true, if_false]

lemma next_more {p : Partial} {bits : Nat} (hmissing : 1 < p.missing) (hbits : bits < 0x40)
    (hlow : p.low ≤ 0x80 + bits) (hhigh : 0x80 + bits ≤ p.high) :
    p.next (.ofNat (0x80 + bits)) =
      .more ⟨p.missing - 1, 0x80, 0xBF, p.value * 0x40 + bits, p.taken + 1⟩ := by
  have hbyte : (UInt8.ofNat (0x80 + bits)).toNat = 0x80 + bits := toNat_ofNat_of_lt (by omega)
  have hrange : (decide (0x80 + bits < p.low) || decide (p.high < 0x80 + bits)) = false := by
    simp
    omega
  have hvalue : p.value * 0x40 + (0x80 + bits - 0x80) = p.value * 0x40 + bits := by omega
  have hnot : ¬ p.missing ≤ 1 := by omega
  simp only [Partial.next, hbyte, hrange, hvalue, if_neg hnot, Bool.false_eq_true, if_false]

lemma first_of_one {n : Nat} (h : n < 0x80) : first (.ofNat n) = .complete (Char.ofNat n) := by
  have hbyte : (UInt8.ofNat n).toNat = n := toNat_ofNat_of_lt (by omega)
  simp only [first, hbyte, if_pos h]

lemma first_of_two {n : Nat} (hlow : 0x80 ≤ n) (hhigh : n < 0x800) :
    first (.ofNat (0xC0 + n / 0x40)) = .more ⟨1, 0x80, 0xBF, n / 0x40, 1⟩ := by
  have hbyte : (UInt8.ofNat (0xC0 + n / 0x40)).toNat = 0xC0 + n / 0x40 :=
    toNat_ofNat_of_lt (by omega)
  have hvalue : 0xC0 + n / 0x40 - 0xC0 = n / 0x40 := by omega
  simp only [first, hbyte, hvalue]
  rw [if_neg (by omega), if_neg (by omega), if_pos (by omega)]

lemma first_of_three {n : Nat} (hlow : 0x800 ≤ n) (hhigh : n < 0x10000)
    (hvalid : n < 0xD800 ∨ 0xDFFF < n) :
    ∃ low high, first (.ofNat (0xE0 + n / 0x1000)) = .more ⟨2, low, high, n / 0x1000, 1⟩ ∧
      low ≤ 0x80 + n / 0x40 % 0x40 ∧ 0x80 + n / 0x40 % 0x40 ≤ high := by
  have hbyte : (UInt8.ofNat (0xE0 + n / 0x1000)).toNat = 0xE0 + n / 0x1000 :=
    toNat_ofNat_of_lt (by omega)
  have hvalue : 0xE0 + n / 0x1000 - 0xE0 = n / 0x1000 := by omega
  simp only [first, hbyte, hvalue]
  rw [if_neg (by omega), if_neg (by omega), if_neg (by omega)]
  by_cases hzero : n / 0x1000 = 0
  · rw [if_pos (by omega), hzero]
    exact ⟨_, _, rfl, by omega, by omega⟩
  · rw [if_neg (by omega)]
    by_cases hsurrogate : n / 0x1000 = 0xD
    · rw [if_pos (by omega), hsurrogate]
      exact ⟨_, _, rfl, by omega, by omega⟩
    · rw [if_neg (by omega), if_pos (by omega)]
      exact ⟨_, _, rfl, by omega, by omega⟩

lemma first_of_four {n : Nat} (hlow : 0x10000 ≤ n) (hhigh : n < 0x110000) :
    ∃ low high, first (.ofNat (0xF0 + n / 0x40000)) = .more ⟨3, low, high, n / 0x40000, 1⟩ ∧
      low ≤ 0x80 + n / 0x1000 % 0x40 ∧ 0x80 + n / 0x1000 % 0x40 ≤ high := by
  have hbyte : (UInt8.ofNat (0xF0 + n / 0x40000)).toNat = 0xF0 + n / 0x40000 :=
    toNat_ofNat_of_lt (by omega)
  have hvalue : 0xF0 + n / 0x40000 - 0xF0 = n / 0x40000 := by omega
  simp only [first, hbyte, hvalue]
  rw [if_neg (by omega), if_neg (by omega), if_neg (by omega), if_neg (by omega),
    if_neg (by omega), if_neg (by omega)]
  by_cases hzero : n / 0x40000 = 0
  · rw [if_pos (by omega), hzero]
    exact ⟨_, _, rfl, by omega, by omega⟩
  · rw [if_neg (by omega)]
    by_cases hlast : n / 0x40000 = 4
    · rw [if_neg (by omega), if_pos (by omega), hlast]
      exact ⟨_, _, rfl, by omega, by omega⟩
    · rw [if_pos (by omega)]
      exact ⟨_, _, rfl, by omega, by omega⟩

lemma toNat_valid (c : Char) :
    c.toNat < 0xD800 ∨ (0xDFFF < c.toNat ∧ c.toNat < 0x110000) := c.valid

/-- The bytes of a character take the decoder from one resting place to the next. -/
lemma foldl_encodeChar (chars : List Char) (index : Nat) (c : Char) :
    (encodeChar c).foldl Decoder.step (resting chars index) =
      resting (c :: chars) (index + (encodeChar c).length) := by
  have hvalid := toNat_valid c
  have hchar : Char.ofNat c.toNat = c := Char.ofNat_toNat c
  unfold encodeChar
  generalize c.toNat = n at hvalid hchar
  simp only
  by_cases hone : n < 0x80
  · rw [if_pos hone]
    have hfirst := first_of_one hone
    rw [hchar] at hfirst
    simp only [List.foldl_cons, List.foldl_nil, step_resting_complete hfirst, List.length_cons,
      List.length_nil]
  rw [if_neg hone]
  by_cases htwo : n < 0x800
  · rw [if_pos htwo]
    have hfirst := first_of_two (by omega) htwo
    have hlast : Partial.next ⟨1, 0x80, 0xBF, n / 0x40, 1⟩ (.ofNat (0x80 + n % 0x40)) =
        .complete (Char.ofNat n) :=
      next_complete rfl (by omega) (by simp) (by simp only; omega) (by simp only; omega)
    rw [hchar] at hlast
    simp only [List.foldl_cons, List.foldl_nil, step_resting_more hfirst,
      step_within_complete hlast, List.length_cons, List.length_nil]
  rw [if_neg htwo]
  by_cases hthree : n < 0x10000
  · rw [if_pos hthree]
    obtain ⟨low, high, hfirst, hlow, hhigh⟩ := first_of_three (by omega) hthree (by omega)
    have hsecond : Partial.next ⟨2, low, high, n / 0x1000, 1⟩ (.ofNat (0x80 + n / 0x40 % 0x40)) =
        .more ⟨1, 0x80, 0xBF, n / 0x1000 * 0x40 + n / 0x40 % 0x40, 2⟩ :=
      next_more (by simp) (by omega) hlow hhigh
    have hlast : Partial.next ⟨1, 0x80, 0xBF, n / 0x1000 * 0x40 + n / 0x40 % 0x40, 2⟩
        (.ofNat (0x80 + n % 0x40)) = .complete (Char.ofNat n) :=
      next_complete rfl (by omega) (by simp) (by simp only; omega) (by simp only; omega)
    rw [hchar] at hlast
    simp only [List.foldl_cons, List.foldl_nil, step_resting_more hfirst,
      step_within_more hsecond, step_within_complete hlast, List.length_cons, List.length_nil]
  · rw [if_neg hthree]
    obtain ⟨low, high, hfirst, hlow, hhigh⟩ := first_of_four (n := n) (by omega) (by omega)
    have hsecond : Partial.next ⟨3, low, high, n / 0x40000, 1⟩
        (.ofNat (0x80 + n / 0x1000 % 0x40)) =
        .more ⟨2, 0x80, 0xBF, n / 0x40000 * 0x40 + n / 0x1000 % 0x40, 2⟩ :=
      next_more (by simp) (by omega) hlow hhigh
    have hthird : Partial.next ⟨2, 0x80, 0xBF, n / 0x40000 * 0x40 + n / 0x1000 % 0x40, 2⟩
        (.ofNat (0x80 + n / 0x40 % 0x40)) =
        .more ⟨1, 0x80, 0xBF,
          (n / 0x40000 * 0x40 + n / 0x1000 % 0x40) * 0x40 + n / 0x40 % 0x40, 3⟩ :=
      next_more (by simp) (by omega) (by simp) (by simp only; omega)
    have hlast : Partial.next ⟨1, 0x80, 0xBF,
          (n / 0x40000 * 0x40 + n / 0x1000 % 0x40) * 0x40 + n / 0x40 % 0x40, 3⟩
        (.ofNat (0x80 + n % 0x40)) = .complete (Char.ofNat n) :=
      next_complete rfl (by omega) (by simp) (by simp only; omega) (by simp only; omega)
    rw [hchar] at hlast
    simp only [List.foldl_cons, List.foldl_nil, step_resting_more hfirst,
      step_within_more hsecond, step_within_more hthird, step_within_complete hlast,
      List.length_cons, List.length_nil]

lemma foldl_encodeChars (cs chars : List Char) (index : Nat) :
    (cs.flatMap encodeChar).foldl Decoder.step (resting chars index) =
      resting (cs.reverse ++ chars) (index + (cs.flatMap encodeChar).length) := by
  induction cs generalizing chars index with
  | nil => rfl
  | cons c rest ih =>
    rw [List.flatMap_cons, List.foldl_append, foldl_encodeChar, ih, List.length_append,
      List.reverse_cons, List.append_assoc, Nat.add_assoc]
    rfl

theorem decode_encode (s : String) : decode (encode s) = .ok s := by
  have hread := foldl_encodeChars s.toList [] 0
  unfold decode encode
  change ((s.toList.flatMap encodeChar).foldl Decoder.step (resting [] 0)).finish = .ok s
  rw [hread]
  simp [Decoder.finish, resting]

end InspectorProtocol.Text.Utf8

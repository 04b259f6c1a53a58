import InspectorProtocol.Proofs.Identifiers
import Mathlib.Data.List.Perm.Subperm

/-!
# Names of fields and variants

A namer gives each name the first of its numbered spellings that it has not given yet. What a field
is called before it is kept clear of the reserved words does not end in an underscore, so that names
which differ there differ afterwards too. The number comes last, and nobody looks whether a name
with a number is that of the record.
-/

namespace InspectorProtocol

open Text

namespace Identifier

/-! ### The search for a free spelling -/

/-- Whether `n` is the first number whose spelling is not taken. -/
structure IsFirstFree (taken : List String) (spell : Nat → String) (n : Nat) : Prop where
  free : spell n ∉ taken
  earlier : ∀ k < n, spell k ∈ taken

/-- The spellings that names get one after another. -/
def spellAll (spell : String → Nat → String) (taken : List String) : List String → List String
  | [] => []
  | name :: rest =>
    let spelling := firstFree taken (spell name)
    spelling :: spellAll spell (spelling :: taken) rest

lemma IsFirstFree.eq {taken : List String} {spell : Nat → String} {m n : Nat}
    (hm : IsFirstFree taken spell m) (hn : IsFirstFree taken spell n) : m = n := by
  rcases Nat.lt_trichotomy m n with hlt | heq | hgt
  · exact absurd (hn.earlier m hlt) hm.free
  · exact heq
  · exact absurd (hm.earlier n hgt) hn.free

/-- Of spellings that differ, one is found after at most as many as are taken. -/
lemma exists_isFirstFree (taken : List String) {spell : Nat → String}
    (hspell : Function.Injective spell) :
    ∃ n ≤ taken.length, IsFirstFree taken spell n ∧ firstFree taken spell = spell n := by
  unfold firstFree
  rw [List.find?_map]
  cases hfind : (List.range (taken.length + 1)).find? ((!taken.contains ·) ∘ spell) with
  | none =>
    have htaken : (List.range (taken.length + 1)).map spell ⊆ taken := by
      intro s hs
      obtain ⟨n, hn, rfl⟩ := List.mem_map.mp hs
      simpa using List.find?_eq_none.mp hfind n hn
    have hlength := ((List.nodup_range.map hspell).subperm htaken).length_le
    simp only [List.length_map, List.length_range] at hlength
    omega
  | some n =>
    obtain ⟨hfree, hlt, hearlier⟩ := List.find?_range_eq_some.mp hfind
    refine ⟨n, by simpa [Nat.lt_succ_iff] using hlt, ⟨by simpa using hfree, fun k hk => ?_⟩, rfl⟩
    simpa using hearlier k hk

lemma toString_ne_empty (n : Nat) : toString n ≠ "" := by
  intro h
  have hdigits := congrArg String.toList h
  simp [Nat.toDigits_ne_nil] at hdigits

lemma numbered_ne (base joint : String) (n : Nat) : numbered base joint (n + 1) ≠ base := by
  intro h
  have hchars := congrArg String.toList h
  simp only [numbered, String.toList_append, List.append_assoc, List.append_right_eq_self,
    List.append_eq_nil_iff, String.toList_eq_nil_iff] at hchars
  exact toString_ne_empty _ hchars.2

lemma numbered_injective (base joint : String) : Function.Injective (numbered base joint) := by
  intro m n h
  cases m with
  | zero =>
    cases n with
    | zero => rfl
    | succ n => exact absurd h.symm (numbered_ne _ _ n)
  | succ m =>
    cases n with
    | zero => exact absurd h (numbered_ne _ _ m)
    | succ n =>
      have hdigits : toString (m + 2) = toString (n + 2) := (String.append_right_inj _).mp h
      have hnumber := congrArg (fun s : String => Nat.ofDigitChars 10 s.toList 0) hdigits
      simpa [Nat.toString_eq_ofList_toDigits] using hnumber

lemma spellAll_fresh {spell : String → Nat → String}
    (hspell : ∀ name, Function.Injective (spell name)) (taken names : List String) :
    (spellAll spell taken names).Nodup ∧ ∀ s ∈ spellAll spell taken names, s ∉ taken := by
  induction names generalizing taken with
  | nil => simp [spellAll]
  | cons name rest ih =>
    obtain ⟨n, _, hfirst, heq⟩ := exists_isFirstFree taken (hspell name)
    obtain ⟨hnodup, hfresh⟩ := ih (firstFree taken (spell name) :: taken)
    refine ⟨List.nodup_cons.mpr ⟨fun hmem => hfresh _ hmem List.mem_cons_self, hnodup⟩, ?_⟩
    intro s hs
    rcases List.mem_cons.mp hs with rfl | hlater
    · exact heq ▸ hfirst.free
    · exact fun htaken => hfresh s hlater (List.mem_cons_of_mem _ htaken)

lemma length_spellAll (spell : String → Nat → String) (taken names : List String) :
    (spellAll spell taken names).length = names.length := by
  induction names generalizing taken with
  | nil => rfl
  | cons name rest ih => simp [spellAll, ih]

lemma spellAll_append (spell : String → Nat → String) (taken names later : List String) :
    spellAll spell taken (names ++ later) = spellAll spell taken names ++
      spellAll spell ((spellAll spell taken names).reverse ++ taken) later := by
  induction names generalizing taken with
  | nil => rfl
  | cons name rest ih => simp [spellAll, ih]

namespace FieldNamer

/-- The numbered spellings of a property. -/
def spelling (namer : FieldNamer) (wireName : String) : Nat → String :=
  numbered (namer.wanted wireName) "_"

lemma nameAll_eq (namer : FieldNamer) (names : List String) :
    namer.nameAll names = (spellAll namer.spelling namer.taken names).map escape := by
  induction names generalizing namer with
  | nil => rfl
  | cons name rest ih =>
    have hsame : (namer.next name).2.spelling = namer.spelling := rfl
    simp only [nameAll, ih, hsame, spellAll, List.map_cons]
    rfl

end FieldNamer

namespace VariantNamer

/-- The numbered spellings of a value. -/
def spelling (value : String) : Nat → String := numbered (variantName value) ""

lemma nameAll_eq (namer : VariantNamer) (values : List String) :
    namer.nameAll values = spellAll spelling namer.taken values := by
  induction values generalizing namer with
  | nil => rfl
  | cons value rest ih =>
    simp only [nameAll, ih, spellAll]
    rfl

end VariantNamer

/-! ### Names that escaping keeps apart -/

/-- Letters, digits and underscores, and no underscore at the end. -/
structure IsStem (s : String) : Prop where
  word : IsWord s
  last : s.toList.getLast? ≠ some '_'

instance (s : String) : Decidable (IsStem s) :=
  decidable_of_iff (IsWord s ∧ s.toList.getLast? ≠ some '_')
    ⟨fun ⟨hword, hlast⟩ => ⟨hword, hlast⟩, fun h => ⟨h.word, h.last⟩⟩

section Stems

variable {s t : String}

lemma isStem_snakeCase (name : String) : IsStem (snakeCase name) :=
  ⟨isWord_snakeCase name, getLast?_snakeCase name⟩

lemma IsStem.prepend (hs : IsWord s) (ht : IsStem t) (hne : t ≠ "") : IsStem (s ++ t) := by
  refine ⟨hs.append ht.word, ?_⟩
  have hnonempty : t.toList ≠ [] := by simpa using hne
  rw [String.toList_append, List.getLast?_append_of_ne_nil _ hnonempty]
  exact ht.last

lemma isStem_withFallback {fallback : String} (hfallback : IsStem fallback) (h : IsStem s) :
    IsStem (withFallback fallback s) := by
  unfold withFallback
  split
  · exact hfallback
  · rename_i hnonempty
    split
    · exact IsStem.prepend isWord_underscore h (by simpa using hnonempty)
    · exact h

lemma isStem_toString (n : Nat) : IsStem (toString n) := by
  refine ⟨isWord_toString n, fun hlast => ?_⟩
  have hdigit := isDigit_of_mem_toString (List.mem_of_getLast? hlast)
  exact absurd hdigit (by decide)

lemma isStem_numbered {base joint : String} (hbase : IsStem base) (hjoint : IsWord joint)
    (n : Nat) : IsStem (numbered base joint n) := by
  cases n with
  | zero => exact hbase
  | succ n =>
    exact IsStem.prepend (hbase.word.append hjoint) (isStem_toString _) (toString_ne_empty _)

lemma isReserved_of_neverRaw (h : neverRaw.contains s = true) : isReserved s = true := by
  have hwords : (neverRaw.all isReserved) = true := by decide +kernel
  exact List.all_eq_true.mp hwords s (by simpa using h)

lemma IsStem.bare_escape_eq_iff (hs : IsStem s) (ht : IsStem t) :
    bare (escape s) = t ↔ s = t ∧ neverRaw.contains s = false := by
  rw [bare_escape hs.word]
  by_cases hnever : neverRaw.contains s = true
  · have hne : s ++ "_" ≠ t := fun heq => ht.last (by simp [← heq])
    simp only [hnever, if_true]
    simp [hne]
  · simp only [hnever]
    simp

lemma IsStem.bare_escape_inj (hs : IsStem s) (ht : IsStem t) :
    bare (escape s) = bare (escape t) ↔ s = t := by
  refine ⟨fun h => ?_, fun h => h ▸ rfl⟩
  by_cases hnever : neverRaw.contains t = true
  · rw [bare_escape hs.word, bare_escape ht.word, if_pos hnever] at h
    split at h
    · exact (String.append_left_inj "_").mp h
    · exact absurd (by simp [h]) hs.last
  · have hself : bare (escape t) = t := by
      rw [bare_escape ht.word, if_neg hnever]
    rw [hself] at h
    exact ((hs.bare_escape_eq_iff ht).mp h).1

lemma IsStem.escape_inj (hs : IsStem s) (ht : IsStem t) : escape s = escape t ↔ s = t :=
  ⟨fun h => (hs.bare_escape_inj ht).mp (congrArg bare h), fun h => h ▸ rfl⟩

lemma isFirstFree_escape {taken : List String} {spell : Nat → String} {n : Nat}
    (htaken : ∀ s ∈ taken, IsStem s) (hspell : ∀ k, IsStem (spell k)) :
    IsFirstFree (taken.map escape) (fun k => escape (spell k)) n ↔ IsFirstFree taken spell n := by
  have hmem (k : Nat) : escape (spell k) ∈ taken.map escape ↔ spell k ∈ taken := by
    refine ⟨fun h => ?_, List.mem_map_of_mem⟩
    obtain ⟨s, hs, heq⟩ := List.mem_map.mp h
    exact ((htaken s hs).escape_inj (hspell k)).mp heq ▸ hs
  constructor
  · rintro ⟨hfree, hearlier⟩
    exact ⟨fun h => hfree ((hmem n).mpr h), fun k hk => (hmem k).mp (hearlier k hk)⟩
  · rintro ⟨hfree, hearlier⟩
    exact ⟨fun h => hfree ((hmem n).mp h), fun k hk => (hmem k).mpr (hearlier k hk)⟩

end Stems

namespace FieldNamer

/-- The name of a property before it is told from its record and from other properties. -/
def plain (wireName : String) : String := withFallback "field" (snakeCase wireName)

variable (namer : FieldNamer) (wireName : String)

lemma isStem_plain : IsStem (plain wireName) :=
  isStem_withFallback (by decide +kernel) (isStem_snakeCase wireName)

lemma wanted_of_ne (h : plain wireName ≠ namer.owner) :
    namer.wanted wireName = plain wireName := by
  have hbeq : (plain wireName == namer.owner) = false := beq_false_of_ne h
  unfold wanted
  simp only [← plain.eq_def, hbeq, Bool.false_eq_true, if_false]

lemma wanted_of_eq (h : plain wireName = namer.owner) :
    namer.wanted wireName = plain wireName ++ "_child" := by
  have hbeq : (plain wireName == namer.owner) = true := by simpa using h
  unfold wanted
  simp only [← plain.eq_def, hbeq, if_true]

lemma isStem_spelling (n : Nat) : IsStem (namer.spelling wireName n) := by
  refine isStem_numbered ?_ isWord_underscore n
  by_cases h : plain wireName = namer.owner
  · rw [wanted_of_eq namer wireName h]
    exact IsStem.prepend (isStem_plain wireName).word (by decide +kernel) (by decide)
  · rw [wanted_of_ne namer wireName h]
    exact isStem_plain wireName

lemma isStem_of_mem_spellAll {namer : FieldNamer} {taken names : List String} {s : String}
    (h : s ∈ spellAll namer.spelling taken names) : IsStem s := by
  induction names generalizing taken with
  | nil => cases h
  | cons name rest ih =>
    rcases List.mem_cons.mp h with rfl | hlater
    · obtain ⟨n, hn⟩ := exists_firstFree taken (namer.spelling name)
      exact hn ▸ namer.isStem_spelling name n
    · exact ih hlater

lemma injective_spelling : Function.Injective (namer.spelling wireName) := numbered_injective _ _

lemma exists_next : ∃ n ≤ namer.taken.length,
    IsFirstFree namer.taken (namer.spelling wireName) n ∧
      (namer.next wireName).1 = escape (namer.spelling wireName n) := by
  obtain ⟨n, hn, hfirst, heq⟩ :=
    exists_isFirstFree namer.taken (namer.injective_spelling wireName)
  exact ⟨n, hn, hfirst, congrArg escape heq⟩

lemma nodup_bare_nameAll (names : List String) : ((namer.nameAll names).map bare).Nodup := by
  rw [nameAll_eq, List.map_map]
  refine List.Nodup.map_on (fun s hs t ht heq => ?_)
    (spellAll_fresh namer.injective_spelling namer.taken names).1
  exact ((isStem_of_mem_spellAll hs).bare_escape_inj (isStem_of_mem_spellAll ht)).mp heq

end FieldNamer

namespace VariantNamer

lemma exists_next (namer : VariantNamer) (value : String) : ∃ n ≤ namer.taken.length,
    IsFirstFree namer.taken (spelling value) n ∧ (namer.next value).1 = spelling value n :=
  exists_isFirstFree namer.taken (numbered_injective (variantName value) "")

end VariantNamer

/-- The identifiers that one namer gives to fields or to variants differ, those of fields also
without the raw marker. Whatever a namer has given, its search ends, after at most as many spellings
as it has given. And the identifiers of names do not depend on the names after them. -/
theorem namers_give_distinct_identifiers (owner : String) (names values : List String) :
    let fields := FieldNamer.ofOwner owner
    let variants : VariantNamer := {}
    (fields.nameAll names).Nodup ∧ ((fields.nameAll names).map bare).Nodup ∧
    (variants.nameAll values).Nodup ∧
    (∀ (namer : FieldNamer) (wireName : String), ∃ n ≤ namer.taken.length,
      IsFirstFree namer.taken (namer.spelling wireName) n ∧
        (namer.next wireName).1 = escape (namer.spelling wireName n)) ∧
    (∀ (namer : VariantNamer) (value : String), ∃ n ≤ namer.taken.length,
      IsFirstFree namer.taken (VariantNamer.spelling value) n ∧
        (namer.next value).1 = VariantNamer.spelling value n) ∧
    (fields.nameAll names).length = names.length ∧
    (∀ later, fields.nameAll names <+: fields.nameAll (names ++ later)) ∧
    (variants.nameAll values).length = values.length ∧
    ∀ later, variants.nameAll values <+: variants.nameAll (values ++ later) := by
  intro fields variants
  have hbare := fields.nodup_bare_nameAll names
  refine ⟨hbare.of_map, hbare, ?_, FieldNamer.exists_next, VariantNamer.exists_next, ?_, ?_, ?_, ?_⟩
  · rw [VariantNamer.nameAll_eq]
    exact (spellAll_fresh (fun _ => numbered_injective _ _) [] values).1
  · rw [FieldNamer.nameAll_eq, List.length_map, length_spellAll]
  · intro later
    rw [FieldNamer.nameAll_eq, FieldNamer.nameAll_eq, spellAll_append, List.map_append]
    exact List.prefix_append _ _
  · rw [VariantNamer.nameAll_eq, length_spellAll]
  · intro later
    rw [VariantNamer.nameAll_eq, VariantNamer.nameAll_eq, spellAll_append]
    exact List.prefix_append _ _

example : (FieldNamer.ofOwner "T").nameAll ["a", "A", "a_2", "self", "type"] =
    ["a", "a_2", "a_2_2", "self_", "r#type"] := by
  decide +kernel

/-! ### The name of the record -/

namespace FieldNamer

lemma exists_getElem?_nameAll (owner name : String) (before after : List String) :
    let namer := ofOwner owner
    ∃ n, (namer.nameAll (before ++ name :: after))[before.length]? =
        some (escape (namer.spelling name n)) ∧
      IsFirstFree (namer.nameAll before) (fun k => escape (namer.spelling name k)) n := by
  intro namer
  have hgiven : namer.nameAll before = (spellAll namer.spelling [] before).map escape :=
    nameAll_eq namer before
  obtain ⟨n, _, ⟨hfree, hearlier⟩, heq⟩ := exists_isFirstFree
    ((spellAll namer.spelling [] before).reverse ++ []) (namer.injective_spelling name)
  refine ⟨n, ?_, ?_⟩
  · have hnone : namer.taken = [] := rfl
    rw [nameAll_eq, hnone, spellAll_append, List.map_append, List.getElem?_append_right, spellAll]
    · simp only [List.length_map, length_spellAll, Nat.sub_self, List.map_cons,
        List.getElem?_cons_zero]
      exact congrArg (some <| escape ·) heq
    · rw [List.length_map, length_spellAll]
  · rw [hgiven, isFirstFree_escape (fun s => isStem_of_mem_spellAll) (namer.isStem_spelling name)]
    exact ⟨by simpa using hfree, fun k hk => by simpa using hearlier k hk⟩

lemma spelling_eq_owner_iff (namer : FieldNamer) (name : String) (n : Nat) :
    namer.spelling name n = namer.owner ↔ 0 < n ∧ numbered (plain name) "_" n = namer.owner := by
  by_cases hsame : plain name = namer.owner
  · -- what is marked as a child is longer than the name of the record, and so is a number on either
    have hlonger (n : Nat) : numbered (plain name ++ "_child") "_" n ≠ plain name := by
      intro h
      have hchild : ("_child" : String).length = 6 := rfl
      have hlength := congrArg String.length h
      cases n <;> simp [numbered, String.length_append, hchild] at hlength
      omega
    rw [spelling, wanted_of_eq namer name hsame, ← hsame]
    constructor
    · exact fun h => absurd h (hlonger n)
    · rintro ⟨hpos, h⟩
      obtain ⟨k, rfl⟩ := Nat.exists_eq_add_one.mpr hpos
      exact absurd h (numbered_ne _ _ k)
  · rw [spelling, wanted_of_ne namer name hsame]
    constructor
    · intro h
      refine ⟨Nat.pos_of_ne_zero fun hzero => hsame ?_, h⟩
      rw [hzero] at h
      exact h
    · exact And.right

/-- Where a number makes it, the spellings are those of the property's own name. -/
lemma spelling_of_numbered {namer : FieldNamer} {name : String} {n : Nat}
    (h : numbered (plain name) "_" (n + 1) = namer.owner) :
    namer.spelling name = numbered (plain name) "_" := by
  have hne : plain name ≠ namer.owner := by
    intro hsame
    exact absurd (h.trans hsame.symm) (numbered_ne _ _ n)
  rw [spelling, wanted_of_ne namer name hne]

end FieldNamer

lemma neverRaw_numbered (base : String) (n : Nat) :
    neverRaw.contains (numbered base "_" (n + 1)) = false := by
  have hunreserved : isReserved (numbered base "_" (n + 1)) = false :=
    isReserved_eq_false (c := '_') (by simp [numbered]) (by decide) (by decide)
  by_contra hnever
  simp [isReserved_of_neverRaw (by simpa using hnever)] at hunreserved

/-- The identifier of a property is the name of its record exactly if the record is called like the
property with a number, from two on, and this is the first number with which the name has not been
given. So it never is with the property's own name or as a child. -/
theorem owner_is_met_by_numbers_only (owner name : String) (before after : List String) :
    let given := (FieldNamer.ofOwner owner).nameAll before
    ∃ ident, ((FieldNamer.ofOwner owner).nameAll (before ++ name :: after))[before.length]? =
        some ident ∧
      (bare ident = snakeCase owner ↔ ∃ n,
        snakeCase owner = FieldNamer.plain name ++ "_" ++ toString (n + 2) ∧
        IsFirstFree given (fun k => escape (numbered (FieldNamer.plain name) "_" k)) (n + 1)) := by
  intro given
  obtain ⟨n, hident, hfirst⟩ := FieldNamer.exists_getElem?_nameAll owner name before after
  refine ⟨_, hident, ?_⟩
  rw [(FieldNamer.isStem_spelling _ _ _).bare_escape_eq_iff (isStem_snakeCase owner)]
  constructor
  · rintro ⟨hspelling, _⟩
    obtain ⟨hpos, howner⟩ := (FieldNamer.spelling_eq_owner_iff _ _ _).mp hspelling
    obtain ⟨k, rfl⟩ := Nat.exists_eq_add_one.mpr hpos
    rw [FieldNamer.spelling_of_numbered howner] at hfirst
    exact ⟨k, howner.symm, hfirst⟩
  · rintro ⟨k, howner, hk⟩
    have hnumbered : numbered (FieldNamer.plain name) "_" (k + 1) =
        (FieldNamer.ofOwner owner).owner := howner.symm
    rw [FieldNamer.spelling_of_numbered hnumbered] at hfirst ⊢
    obtain rfl := hfirst.eq hk
    exact ⟨hnumbered, neverRaw_numbered _ _⟩

/-- Two properties of one spelling in a record whose name is that spelling with the number. -/
theorem numbered_field_meets_its_owner :
    (FieldNamer.ofOwner "A_2").nameAll ["a", "A"] = ["a", "a_2"] ∧
      bare "a_2" = snakeCase "A_2" := by
  decide +kernel

end Identifier

end InspectorProtocol

import InspectorProtocol.Proofs.MethodRegistry
import InspectorProtocol.Proofs.ModuleNames

/-!
# Identifiers

Protocol names are free text, and what stands for them in generated source has to be an identifier.
Names of modules, bindings, fields and variants are identifiers whatever they stand for. The
constant of a method has no fallback, so it is one exactly if the name of its command or event
starts with no digit and is not empty, as far as its letters and digits go.
-/

namespace InspectorProtocol

open Description Text

namespace Identifier

/-- Letters, digits and underscores, at least one and no digit at the front. -/
structure IsPlain (s : String) : Prop where
  word : IsWord s
  nonempty : s ≠ ""
  lead : startsWithDigit s = false

/-- An identifier of the generated language, raw or not. -/
structure IsValid (s : String) : Prop where
  plain : IsPlain (bare s)
  unreserved : bare s = s → isReserved s = false
  raw : bare s ≠ s → neverRaw.contains (bare s) = false

instance (s : String) : Decidable (IsPlain s) :=
  decidable_of_iff (IsWord s ∧ s ≠ "" ∧ startsWithDigit s = false)
    ⟨fun ⟨hword, hnonempty, hlead⟩ => ⟨hword, hnonempty, hlead⟩,
      fun h => ⟨h.word, h.nonempty, h.lead⟩⟩

instance (s : String) : Decidable (IsValid s) :=
  decidable_of_iff (IsPlain (bare s) ∧ (bare s = s → isReserved s = false) ∧
      (bare s ≠ s → neverRaw.contains (bare s) = false))
    ⟨fun ⟨hplain, hunreserved, hraw⟩ => ⟨hplain, hunreserved, hraw⟩,
      fun h => ⟨h.plain, h.unreserved, h.raw⟩⟩

example : IsValid "r#type" ∧ IsValid "self_" ∧ ¬ IsValid "r#self" ∧ ¬ IsValid "2D" := by
  decide +kernel

/-- The first letter or digit of a name. -/
def leading? (name : String) : Option Char := name.toList.find? Char.isAlphanum

variable {s t : String}

/-! ### Reserved words -/

lemma mem_of_isReserved (h : isReserved s = true) : s ∈ reservedWords := by
  simpa [isReserved] using h

lemma isReserved_eq_false {c : Char} (hc : c ∈ s.toList) (hlower : c.isLower = false)
    (hne : c ≠ 'S') : isReserved s = false := by
  have hwords :
      (reservedWords.all fun w => w.toList.all fun c => c.isLower || c == 'S') = true := by
    decide +kernel
  by_contra hreserved
  have hword := List.all_eq_true.mp hwords s (mem_of_isReserved (by simpa using hreserved))
  have hchar := List.all_eq_true.mp hword c hc
  simp [hlower, hne] at hchar

lemma isReserved_eq_false_of_capitals (h : ∀ c ∈ s.toList, c.isLower = false) :
    isReserved s = false := by
  have hwords : (reservedWords.all fun w => w.toList.any Char.isLower) = true := by decide +kernel
  by_contra hreserved
  have hword := List.all_eq_true.mp hwords s (mem_of_isReserved (by simpa using hreserved))
  obtain ⟨c, hc, hsmall⟩ := List.any_eq_true.mp hword
  simp [h c hc] at hsmall

/-! ### Letter case of characters -/

lemma isLower_of_isDigit {c : Char} (h : c.isDigit = true) : c.isLower = false := by
  delta Char.isDigit at h
  delta Char.isLower
  simp only [Bool.and_eq_true, decide_eq_true_eq, Bool.and_eq_false_iff,
    decide_eq_false_iff_not] at h ⊢
  grind

lemma isLower_toUpper (c : Char) : c.toUpper.isLower = false := by
  delta Char.toUpper Char.isLower
  simp only [Bool.and_eq_false_iff, decide_eq_false_iff_not]
  split <;> grind

lemma isDigit_toUpper (c : Char) : c.toUpper.isDigit = c.isDigit := by
  rw [Bool.eq_iff_iff]
  delta Char.toUpper Char.isDigit
  simp only [Bool.and_eq_true, decide_eq_true_eq]
  split <;> grind

lemma isDigit_toLower (c : Char) : c.toLower.isDigit = c.isDigit := by
  rw [Bool.eq_iff_iff]
  delta Char.toLower Char.isDigit
  simp only [Bool.and_eq_true, decide_eq_true_eq]
  split <;> grind

lemma isAlphanum_toUpper {c : Char} (h : c.isAlphanum = true) : c.toUpper.isAlphanum = true := by
  delta Char.isAlphanum Char.isAlpha Char.isUpper Char.isLower Char.isDigit Char.toUpper at h ⊢
  simp only [Bool.or_eq_true, Bool.and_eq_true, decide_eq_true_eq] at h ⊢
  split <;> grind

/-! ### Ways to an identifier -/

lemma exists_head (h : s ≠ "") : ∃ c, s.toList.head? = some c := by
  cases hs : s.toList with
  | nil => exact absurd (by simpa using hs) h
  | cons c rest => exact ⟨c, rfl⟩

lemma startsWithDigit_append (h : s ≠ "") (t : String) :
    startsWithDigit (s ++ t) = startsWithDigit s := by
  obtain ⟨c, hc⟩ := exists_head h
  simp [startsWithDigit, String.toList_append, List.head?_append, hc]

lemma IsPlain.append (hs : IsPlain s) (ht : IsWord t) : IsPlain (s ++ t) where
  word := hs.word.append ht
  nonempty := by simp [hs.nonempty]
  lead := (startsWithDigit_append hs.nonempty t).trans hs.lead

lemma isValid_iff (hword : IsWord s) (hreserved : isReserved s = false) :
    IsValid s ↔ s ≠ "" ∧ startsWithDigit s = false := by
  have hbare := bare_of_isWord hword
  constructor
  · intro h
    have hplain := h.plain
    rw [hbare] at hplain
    exact ⟨hplain.nonempty, hplain.lead⟩
  · rintro ⟨hnonempty, hlead⟩
    refine ⟨?_, fun _ => hreserved, fun hne => absurd hbare hne⟩
    rw [hbare]
    exact ⟨hword, hnonempty, hlead⟩

lemma IsPlain.isValid (h : IsPlain s) (hreserved : isReserved s = false) : IsValid s :=
  (isValid_iff h.word hreserved).mpr ⟨h.nonempty, h.lead⟩

lemma IsPlain.isValid_escape (h : IsPlain s) : IsValid (escape s) := by
  unfold escape
  by_cases hnever : neverRaw.contains s = true
  · rw [if_pos hnever]
    exact (h.append isWord_underscore).isValid
      (isReserved_eq_false (c := '_') (by simp) (by decide) (by decide))
  rw [if_neg hnever]
  by_cases hreserved : isReserved s = true
  · rw [if_pos hreserved]
    have hbare := bare_raw s
    refine ⟨hbare.symm ▸ h, fun heq => ?_, fun _ => by simpa [hbare] using hnever⟩
    have hlength := congrArg String.length (hbare.symm.trans heq)
    simp at hlength
  · rw [if_neg hreserved]
    exact h.isValid (by simpa using hreserved)

lemma isPlain_withFallback {fallback ident : String} (hfallback : IsPlain fallback)
    (hword : IsWord ident) : IsPlain (withFallback fallback ident) := by
  unfold withFallback
  split
  · exact hfallback
  · rename_i hnonempty
    split
    · exact IsPlain.append (by decide) hword
    · rename_i hlead
      exact ⟨hword, by simpa using hnonempty, by simpa using hlead⟩

lemma isValid_moduleName (domain : String) : IsValid (moduleName domain) :=
  (isPlain_withFallback (by decide +kernel) (isWord_snakeCase domain)).isValid_escape

/-! ### Numbered names -/

lemma isDigit_of_mem_toString {n : Nat} {c : Char} (h : c ∈ (toString n).toList) :
    c.isDigit = true := by
  change c ∈ n.repr.toList at h
  rw [Nat.toList_repr] at h
  exact Nat.isDigit_of_mem_toDigits (by decide) (by decide) h

lemma isWord_toString (n : Nat) : IsWord (toString n) := by
  intro c hc
  simp [Char.isAlphanum, isDigit_of_mem_toString hc]

lemma isPlain_numbered {base joint : String} (hbase : IsPlain base) (hjoint : IsWord joint)
    (n : Nat) : IsPlain (numbered base joint n) := by
  cases n with
  | zero => exact hbase
  | succ n => exact (hbase.append hjoint).append (isWord_toString _)

lemma isReserved_numbered {base joint : String} (hbase : isReserved base = false) (n : Nat) :
    isReserved (numbered base joint n) = false := by
  cases n with
  | zero => exact hbase
  | succ n =>
    obtain ⟨c, hc⟩ : ∃ c, c ∈ (toString (n + 2)).toList := by
      refine List.exists_mem_of_ne_nil _ ?_
      change (n + 2).repr.toList ≠ []
      rw [Nat.toList_repr]
      exact Nat.toDigits_ne_nil
    have hdigit := isDigit_of_mem_toString hc
    refine isReserved_eq_false (c := c) ?_ (isLower_of_isDigit hdigit) ?_
    · rw [numbered, String.toList_append]
      exact List.mem_append_right _ hc
    · rintro rfl
      cases hdigit

lemma exists_firstFree (taken : List String) (spell : Nat → String) :
    ∃ n, firstFree taken spell = spell n := by
  unfold firstFree
  cases hfind : ((List.range (taken.length + 1)).map spell).find? (!taken.contains ·) with
  | none => exact ⟨0, rfl⟩
  | some name =>
    obtain ⟨n, _, rfl⟩ := List.mem_map.mp (List.mem_of_find?_eq_some hfind)
    exact ⟨n, rfl⟩

lemma isValid_next (namer : FieldNamer) (wireName : String) :
    IsValid (namer.next wireName).1 := by
  have hbase : IsPlain (withFallback "field" (snakeCase wireName)) :=
    isPlain_withFallback (by decide +kernel) (isWord_snakeCase wireName)
  have hwanted : IsPlain (namer.wanted wireName) := by
    unfold FieldNamer.wanted
    dsimp only
    split
    · exact hbase.append (by decide +kernel)
    · exact hbase
  obtain ⟨n, hn⟩ := exists_firstFree namer.taken (numbered (namer.wanted wireName) "_")
  simp only [FieldNamer.next, hn]
  exact (isPlain_numbered hwanted isWord_underscore n).isValid_escape

/-! ### Capitalised names -/

lemma isAlphanum_of_mem_capitalise {cs : List Char} (h : ∀ c ∈ cs, c.isAlphanum = true) :
    ∀ c ∈ capitalise cs, c.isAlphanum = true := by
  cases cs with
  | nil => simp [capitalise]
  | cons d rest =>
    intro c hc
    rcases List.mem_cons.mp hc with rfl | hc
    · exact isAlphanum_toUpper (h d List.mem_cons_self)
    · exact h c (List.mem_cons_of_mem _ hc)

lemma isWord_pascalCase (s : String) : IsWord (pascalCase s) := by
  intro c hc
  rw [pascalCase, String.toList_ofList] at hc
  obtain ⟨piece, hpiece, hc⟩ := List.mem_flatten.mp hc
  obtain ⟨word, hword, rfl⟩ := List.mem_map.mp hpiece
  refine .inl (isAlphanum_of_mem_capitalise (fun c hc => ?_) c hc)
  simpa using not_of_mem_splitChars hword c hc

lemma capitalised_spec {fallback lead : String} (hfallback : IsPlain fallback)
    (hunreserved : isReserved fallback = false) (hlead : IsPlain lead) (name : String) :
    IsPlain (capitalised fallback lead name) ∧
      isReserved (capitalised fallback lead name) = false := by
  have hword := isWord_pascalCase name
  unfold capitalised
  dsimp only
  split
  · exact ⟨hfallback, hunreserved⟩
  rename_i hnonempty
  have hne : pascalCase name ≠ "" := by simpa using hnonempty
  split
  · rename_i hdigit
    obtain ⟨c, hc⟩ := exists_head hne
    have hisdigit : c.isDigit = true := by simpa [startsWithDigit, hc] using hdigit
    refine ⟨hlead.append hword,
      isReserved_eq_false (c := c) ?_ (isLower_of_isDigit hisdigit) ?_⟩
    · rw [String.toList_append]
      exact List.mem_append_right _ (List.mem_of_mem_head? hc)
    · rintro rfl
      cases hisdigit
  · rename_i hletter
    have hplain : IsPlain (pascalCase name) := ⟨hword, hne, by simpa using hletter⟩
    split
    · exact ⟨hplain.append isWord_underscore,
        isReserved_eq_false (c := '_') (by simp) (by decide) (by decide)⟩
    · rename_i hplainword
      exact ⟨hplain, by simpa using hplainword⟩

lemma typeName_spec (name : String) :
    IsPlain (typeName name) ∧ isReserved (typeName name) = false :=
  capitalised_spec (by decide +kernel) (by decide +kernel) (by decide +kernel) name

lemma isValid_typeName (name : String) : IsValid (typeName name) :=
  (typeName_spec name).1.isValid (typeName_spec name).2

lemma isValid_variant (namer : VariantNamer) (value : String) : IsValid (namer.next value).1 := by
  obtain ⟨hplain, hunreserved⟩ :
      IsPlain (variantName value) ∧ isReserved (variantName value) = false :=
    capitalised_spec (by decide +kernel) (by decide +kernel) (by decide +kernel) value
  obtain ⟨n, hn⟩ := exists_firstFree namer.taken (numbered (variantName value) "")
  simp only [VariantNamer.next, hn]
  exact (isPlain_numbered hplain (by decide) n).isValid (isReserved_numbered hunreserved n)

lemma isValid_of_mem_nameAll {namer : VariantNamer} {values : List String} {ident : String}
    (h : ident ∈ namer.nameAll values) : IsValid ident := by
  induction values generalizing namer with
  | nil => cases h
  | cons value rest ih =>
    rcases List.mem_cons.mp h with rfl | hlater
    · exact isValid_variant namer value
    · exact ih hlater

/-! ### Method constants -/

lemma isLower_of_mem_screamingCase {c : Char} (h : c ∈ (screamingCase s).toList) :
    c.isLower = false := by
  rw [screamingCase, upperCase, String.toList_ofList] at h
  obtain ⟨d, _, rfl⟩ := List.mem_map.mp h
  exact isLower_toUpper d

lemma isWord_screamingCase (s : String) : IsWord (screamingCase s) := by
  intro c hc
  rw [screamingCase, upperCase, String.toList_ofList] at hc
  obtain ⟨d, hd, rfl⟩ := List.mem_map.mp hc
  rcases isWord_snakeCase s d hd with hword | rfl
  · exact .inl (isAlphanum_toUpper hword)
  · exact .inr rfl

lemma suffix_breakWord (out : List Char) : out <:+ breakWord out := by
  unfold breakWord
  split
  · exact List.suffix_rfl
  · exact List.suffix_rfl
  · exact List.suffix_cons _ _

lemma suffix_snakeFrom (previous : Option Char) (out cs : List Char) :
    out <:+ snakeFrom previous out cs := by
  induction cs generalizing previous out with
  | nil => exact List.suffix_rfl
  | cons c rest ih =>
    refine List.IsSuffix.trans ?_ (ih (some c) _)
    split
    · exact suffix_breakWord out
    · split
      · exact (suffix_breakWord out).trans (List.suffix_cons _ _)
      · exact List.suffix_cons _ _

lemma getLast?_snakeFrom (previous : Option Char) (cs : List Char) :
    (snakeFrom previous [] cs).getLast? = (cs.find? Char.isAlphanum).map Char.toLower := by
  induction cs generalizing previous with
  | nil => rfl
  | cons c rest ih =>
    by_cases hc : c.isAlphanum = true
    · have hfirst : snakeFrom previous [] (c :: rest) = snakeFrom (some c) [c.toLower] rest := by
        simp [snakeFrom, hc, breakWord]
      obtain ⟨before, hbefore⟩ := suffix_snakeFrom (some c) [c.toLower] rest
      rw [hfirst, ← hbefore, List.find?_cons_of_pos hc]
      simp
    · have hskip : snakeFrom previous [] (c :: rest) = snakeFrom (some c) [] rest := by
        simp [snakeFrom, hc, breakWord]
      rw [hskip, ih, List.find?_cons_of_neg hc]

lemma getLast?_dropWhile {p : Char → Bool} {cs : List Char} {c : Char}
    (h : cs.getLast? = some c) (hc : p c = false) : (cs.dropWhile p).getLast? = some c := by
  obtain ⟨before, rfl⟩ := List.getLast?_eq_some_iff.mp h
  rw [List.dropWhile_append]
  split <;> simp [hc]

lemma head?_snakeCase (s : String) :
    (snakeCase s).toList.head? = (leading? s).map Char.toLower := by
  have hlast : (snakeFrom none [] s.toList).getLast? = (leading? s).map Char.toLower :=
    getLast?_snakeFrom none s.toList
  rw [snakeCase, String.toList_ofList, List.head?_reverse]
  cases hleading : leading? s with
  | none =>
    rw [hleading] at hlast
    simp [List.getLast?_eq_none_iff.mp hlast]
  | some c =>
    rw [hleading] at hlast
    have hword : c.toLower.isAlphanum = true := isAlphanum_toLower (List.find?_some hleading)
    refine getLast?_dropWhile hlast ?_
    simpa using fun heq : c.toLower = '_' => by simp [heq] at hword

lemma head?_screamingCase (s : String) :
    (screamingCase s).toList.head? = (leading? s).map fun c => c.toLower.toUpper := by
  rw [screamingCase, upperCase, String.toList_ofList, List.head?_map, head?_snakeCase,
    Option.map_map]
  rfl

lemma any_isDigit_capitals (o : Option Char) :
    (o.map fun c => c.toLower.toUpper).any Char.isDigit = o.any Char.isDigit := by
  cases o with
  | none => rfl
  | some c => exact (isDigit_toUpper c.toLower).trans (isDigit_toLower c)

/-- The constant of a method without a suffix is an identifier if its name starts with a letter, as
far as letters and digits go. -/
lemma isValid_screamingCase (s : String) :
    IsValid (screamingCase s) ↔ ∃ c, leading? s = some c ∧ c.isDigit = false := by
  have hhead := head?_screamingCase s
  rw [isValid_iff (isWord_screamingCase s)
    (isReserved_eq_false_of_capitals fun _ => isLower_of_mem_screamingCase)]
  cases hleading : leading? s with
  | none =>
    have hempty : screamingCase s = "" := by simpa [hleading] using hhead
    simp [hempty]
  | some c =>
    have hne : screamingCase s ≠ "" := fun hempty => by simp [hempty, hleading] at hhead
    rw [startsWithDigit, hhead, any_isDigit_capitals, hleading]
    simp [hne]

lemma isValid_screamingCase_append (s t : String) :
    IsValid (screamingCase s ++ "_" ++ screamingCase t) ↔
      ∀ c, leading? s = some c → c.isDigit = false := by
  have hhead := head?_screamingCase s
  have hcapitals : ∀ c ∈ (screamingCase s ++ "_" ++ screamingCase t).toList, c.isLower = false := by
    intro c hc
    simp only [String.toList_append, List.mem_append] at hc
    rcases hc with (hc | hc) | hc
    · exact isLower_of_mem_screamingCase hc
    · obtain rfl : c = '_' := by simpa using hc
      rfl
    · exact isLower_of_mem_screamingCase hc
  rw [isValid_iff (((isWord_screamingCase s).append isWord_underscore).append
    (isWord_screamingCase t)) (isReserved_eq_false_of_capitals hcapitals)]
  have hlead : startsWithDigit (screamingCase s ++ "_" ++ screamingCase t) =
      ((leading? s).map fun c => c.toLower.toUpper).any Char.isDigit := by
    simp only [startsWithDigit, String.toList_append, List.head?_append, hhead]
    cases leading? s <;> rfl
  rw [hlead, any_isDigit_capitals]
  cases leading? s <;> simp

end Identifier

open Identifier

/-- All names in a binding are identifiers. -/
structure Binding.HasValidNames (b : Binding) : Prop where
  name : IsValid b.name
  fields : ∀ f ∈ b.fields, IsValid f.ident
  variants : ∀ v ∈ b.variants, IsValid v.ident

namespace Draft

variable {settings : Settings} {c : Catalogue} {domain owner : String}

lemma fields_valid {properties : List Property} {fs : List Field} {records : List InlineRecord}
    (h : fields c domain owner properties = .ok (fs, records)) : ∀ f ∈ fs, IsValid f.ident := by
  intro f hf
  obtain ⟨p, _, hfield⟩ := Bindings.exists_left_of_mem (fieldsFrom_fieldOf h) hf
  cases hfield with
  | mk namer => exact isValid_next namer p.name

lemma hasValidNames_of_fields {properties : List Property} {records : List InlineRecord}
    {b : Binding} (hname : IsValid b.name) (hvariants : b.variants = [])
    (h : fields c domain owner properties = .ok (b.fields, records)) : b.HasValidNames :=
  ⟨hname, fields_valid h, by simp [hvariants]⟩

lemma inlineBindings_valid {queue : List InlineRecord} {bindings : List Binding}
    (h : inlineBindings c domain queue = .ok bindings) : ∀ b ∈ bindings, b.HasValidNames := by
  intro b hb
  obtain ⟨order, _, hbuilds⟩ := recordBindings_spec (Nat.le_refl _) h
  obtain ⟨r, _, fs, records, hfields, rfl⟩ := Bindings.exists_left_of_mem hbuilds hb
  refine hasValidNames_of_fields ?_ rfl hfields
  simpa only using isValid_typeName r.name

lemma variants_valid (values : List String) : ∀ v ∈ variants values, IsValid v.ident := by
  intro v hv
  rw [variants, ← List.map_uncurry_zip_eq_zipWith] at hv
  obtain ⟨⟨ident, value⟩, hpair, rfl⟩ := List.mem_map.mp hv
  exact isValid_of_mem_nameAll (List.of_mem_zip hpair).1

lemma typeBinding_valid {type : TypeDecl} {binding : Binding} {records : List InlineRecord}
    (h : typeBinding settings c domain type = .ok (binding, records)) : binding.HasValidNames := by
  have hbinds := bindsType_of_typeBinding h
  have hname := isValid_typeName type.name
  generalize typeName type.name = name at hbinds hname
  cases hbinds with
  | replaced | array | plain => exact ⟨hname, by simp, by simp⟩
  | values => exact ⟨hname, by simp, variants_valid _⟩
  | record _ _ _ _ hfields => exact hasValidNames_of_fields hname rfl hfields

lemma isValid_stem (domain item tail : String) (htail : IsWord tail) {c : Char}
    (hc : c ∈ tail.toList) (hlower : c.isLower = false) (hne : c ≠ 'S') :
    IsValid (typeName domain ++ typeName item ++ tail) := by
  have hplain := ((typeName_spec domain).1.append (typeName_spec item).1.word).append htail
  refine hplain.isValid (isReserved_eq_false (c := c) ?_ hlower hne)
  rw [String.toList_append]
  exact List.mem_append_right _ hc

lemma attempt_valid {x : Declaration} {draft : Draft}
    (h : x.attempt settings c domain = .ok draft) : (∀ b ∈ draft.bindings, b.HasValidNames) ∧
      ∀ m ∈ draft.methods, m.ident = screamingCase x.name ∧ m.method = domain ++ "." ++ x.name := by
  cases made_of_attempt h with
  | type hbinding hinline =>
    refine ⟨fun b hb => ?_, by simp [ofBindings]⟩
    rcases List.mem_cons.mp hb with rfl | hlater
    · obtain ⟨hname, hfields, hvariants⟩ := typeBinding_valid hbinding
      exact ⟨hname, hfields, hvariants⟩
    · exact inlineBindings_valid hinline b hlater
  | @command decl _ _ _ _ _ _ _ hrequest hresponse hparameters hreturns hinline =>
    refine ⟨fun b hb => ?_, fun m hm => ?_⟩
    · rcases List.mem_cons.mp hb with rfl | hrest
      · refine hasValidNames_of_fields ?_ rfl hparameters
        rw [hrequest]
        exact isValid_stem domain decl.name "Request" (by decide +kernel) (c := 'R') (by decide)
          (by decide) (by decide)
      rcases List.mem_cons.mp hrest with rfl | hlater
      · refine hasValidNames_of_fields ?_ rfl hreturns
        rw [hresponse]
        exact isValid_stem domain decl.name "Response" (by decide +kernel) (c := 'R') (by decide)
          (by decide) (by decide)
      · exact inlineBindings_valid hinline b hlater
    · rw [List.mem_singleton.mp hm]
      exact ⟨rfl, rfl⟩
  | @event decl _ _ _ _ hpayload hparameters hinline =>
    refine ⟨fun b hb => ?_, fun m hm => ?_⟩
    · rcases List.mem_cons.mp hb with rfl | hlater
      · refine hasValidNames_of_fields ?_ rfl hparameters
        rw [hpayload]
        exact isValid_stem domain decl.name "Payload" (by decide +kernel) (c := 'P') (by decide)
          (by decide) (by decide)
      · exact inlineBindings_valid hinline b hlater
    · rw [List.mem_singleton.mp hm]
      exact ⟨rfl, rfl⟩

end Draft

namespace Bindings

variable {settings : Settings} {description : Description}

lemma exists_of_mem_nameConstants {taken : List String}
    {constants : List (ItemKind × MethodConstant)} {m : MethodConstant}
    (h : m ∈ nameConstants taken constants) : ∃ kind c, (kind, c) ∈ constants ∧
      m.method = c.method ∧
      (m.ident = c.ident ∨ m.ident = c.ident ++ "_" ++ screamingCase kind.name) := by
  induction constants generalizing taken with
  | nil => cases h
  | cons constant rest ih =>
    obtain ⟨kind, c⟩ := constant
    simp only [nameConstants] at h
    rcases List.mem_cons.mp h with rfl | hlater
    · refine ⟨kind, c, List.mem_cons_self, rfl, ?_⟩
      dsimp only
      split
      · exact .inr rfl
      · exact .inl rfl
    · obtain ⟨kind', c', hmem, hspec⟩ := ih hlater
      exact ⟨kind', c', List.mem_cons_of_mem _ hmem, hspec⟩

lemma boxed_valid {o : DomainDrafts} {b : Binding} (h : b.HasValidNames) :
    (boxed settings description o b).HasValidNames := by
  refine ⟨h.name, fun f hf => ?_, h.variants⟩
  rw [boxed, Boxing.fields_box] at hf
  obtain ⟨f', hf', rfl⟩ := List.mem_map.mp hf
  rw [Boxing.boxField_eq]
  exact h.fields f' hf'

/-- The names of modules, bindings, fields and variants are identifiers. The constant of a method is
made of the name of its command or event, and is an identifier exactly if this starts with a letter
as far as letters and digits go; one that has got a suffix may also have none. -/
theorem names_are_identifiers (settings : Settings) (description : Description) :
    ∀ d ∈ (generate settings description).domains,
      IsValid d.module ∧ (∀ b ∈ d.bindings, b.HasValidNames) ∧
      ∀ m ∈ d.methods, ∃ name, m.method = d.name ++ "." ++ name ∧
        (m.ident = screamingCase name ∧
            (IsValid m.ident ↔ ∃ c, leading? name = some c ∧ c.isDigit = false) ∨
          ∃ kind : ItemKind, m.ident = screamingCase name ++ "_" ++ screamingCase kind.name ∧
            (IsValid m.ident ↔ ∀ c, leading? name = some c → c.isDigit = false)) := by
  intro d hd
  obtain ⟨o, ho, hname, hmethods, hbindings⟩ := exists_assembled_of_mem hd
  refine ⟨module_of_mem_generate hd ▸ isValid_moduleName d.name, fun b hb => ?_, fun m hm => ?_⟩
  · rw [hbindings] at hb
    obtain ⟨b', hb', rfl⟩ := List.mem_map.mp hb
    obtain ⟨draft, hdraft, hmem⟩ := mem_assemble.mp hb'
    obtain ⟨x, _, hattempt⟩ := exists_item_of_draft ho hdraft
    exact boxed_valid ((Draft.attempt_valid hattempt).1 b' hmem)
  · rw [hmethods] at hm
    obtain ⟨kind, c, hc, hmethod, hident⟩ := exists_of_mem_nameConstants hm
    obtain ⟨constants, hconstants, hc⟩ := List.mem_flatten.mp hc
    obtain ⟨draft, hdraft, rfl⟩ := List.mem_map.mp hconstants
    obtain ⟨c', hc', heq⟩ := List.mem_map.mp hc
    obtain ⟨rfl, rfl⟩ : draft.kind = kind ∧ c' = c := by simpa using heq
    obtain ⟨x, _, hattempt⟩ := exists_item_of_draft ho hdraft
    obtain ⟨hscreaming, hmethod'⟩ := (Draft.attempt_valid hattempt).2 c' hc'
    refine ⟨x.name, by rw [hmethod, hmethod', hname], ?_⟩
    rw [hscreaming] at hident
    rcases hident with hident | hident
    · exact .inl ⟨hident, hident ▸ isValid_screamingCase x.name⟩
    · exact .inr ⟨draft.kind, hident, hident ▸ isValid_screamingCase_append x.name _⟩

/-- A domain, a command and parameters with names of keywords and numbers. -/
def awkwardNames : Description :=
  { domains :=
      [{ name := "type"
         commands :=
          [{ name := "self"
             parameters :=
              [{ name := "crate", kind := some .string },
                { name := "2", kind := some .string }] }] }] }

theorem awkward_names_are_identifiers :
    ∃ d ∈ (generate {} awkwardNames).domains, d.module = "r#type" ∧ IsValid d.module ∧
      ∃ b ∈ d.bindings, b.name = "TypeSelf_Request" ∧
        b.fields.map (·.ident) = ["crate_", "_2"] ∧ b.HasValidNames := by
  have hgenerated : (generate {} awkwardNames).domains.map (fun d =>
      (d.module, d.bindings.map fun b => (b.name, b.fields.map (·.ident)))) =
      [("r#type", [("TypeSelf_Request", ["crate_", "_2"]), ("TypeSelf_Response", [])])] := rfl
  obtain ⟨d, hd, hnames⟩ := List.mem_map.mp (hgenerated ▸ List.mem_singleton_self _)
  obtain ⟨hmodule, hbindings⟩ := Prod.mk.inj hnames
  obtain ⟨b, hb, hbinding⟩ := List.mem_map.mp (hbindings ▸ List.mem_cons_self)
  obtain ⟨hname, hfields⟩ := Prod.mk.inj hbinding
  obtain ⟨hvalid, hvalids, _⟩ := names_are_identifiers {} awkwardNames d hd
  exact ⟨d, hd, hmodule, hvalid, b, hb, hname, hfields, hvalids b hb⟩

/-- A command whose name starts with a digit. -/
def digitFirst : Description :=
  { domains := [{ name := "D", commands := [{ name := "2d" }] }] }

/-- Its constant starts with the digit. -/
theorem constant_starts_with_a_digit :
    ∃ d ∈ (generate {} digitFirst).domains, ∃ m ∈ d.methods,
      m.ident = "2D" ∧ ¬ IsValid m.ident := by
  have hmethods : (generate {} digitFirst).domains.map (·.methods.map (·.ident)) = [["2D"]] := rfl
  obtain ⟨d, hd, hidents⟩ := List.mem_map.mp (hmethods ▸ List.mem_singleton_self _)
  obtain ⟨m, hm, hident⟩ := List.mem_map.mp (hidents ▸ List.mem_singleton_self "2D")
  refine ⟨d, hd, m, hm, hident, ?_⟩
  rw [hident]
  decide +kernel

end Bindings

end InspectorProtocol

import InspectorProtocol.Proofs.Pieces
import InspectorProtocol.Source.Rendering
import Mathlib.Data.List.Basic

/-!
# Members as source declares them

The codec of a type is derived from its source: from the attributes, the identifiers and the types
that stand between the head of its declaration and the closing brace. Read off the lines that are
rendered for a binding, they are those that the values of the binding are encoded by.
-/

namespace InspectorProtocol

open Text

namespace Source

/-- A member of a struct, or a variant of an enumeration. -/
structure Member where
  attributes : List Attribute
  ident : String
  /-- the type, for a member of a struct -/
  type : Option String
  deriving DecidableEq, Repr

/-- A struct or an enumeration. -/
structure Item where
  name : String
  members : List Member
  deriving DecidableEq, Repr

/-! ### Reading source -/

/-- What stands behind `lead`. -/
def behind? (lead : String) (cs : List Char) : Option (List Char) := lead.toList.isPrefixOf? cs

/-- What stands before `tail`. -/
def before? (tail : String) (cs : List Char) : Option (List Char) := tail.toList.isSuffixOf? cs

/-- An attribute; in a name no character may be escaped. -/
def attribute? (cs : List Char) : Option Attribute :=
  if cs = "default".toList then some .default
  else if cs = "skip_serializing_if = \"Option::is_none\"".toList then some .skipIfNone
  else do
    let name ← before? "\"" (← behind? "rename = \"" cs)
    if name.any fun c => c = '"' || c = '\\' then none else some (.rename (String.ofList name))

/-- The attributes between the commas. -/
def attributesIn? (cs : List Char) : Option (List Attribute) :=
  (splitChars (· = ',') cs).mapM fun piece => attribute? (piece.dropWhile (· = ' '))

def attributes? (cs : List Char) : Option (List Attribute) := do
  attributesIn? (← before? ")]" (← behind? "#[serde(" cs))

/-- The member on a line without attributes. -/
def member? (attributes : List Attribute) (cs : List Char) : Option Member := do
  let inside ← before? "," cs
  match behind? "pub " inside with
  | none => return ⟨attributes, String.ofList inside, none⟩
  | some rest =>
    let type ← behind? ": " (rest.dropWhile (· ≠ ':'))
    return ⟨attributes, String.ofList (rest.takeWhile (· ≠ ':')), some (String.ofList type)⟩

/-- Whether a line is a comment, or says which variant is the default. -/
def isAside (cs : List Char) : Bool := (behind? "///" cs).isSome || cs = "#[default]".toList

/-- The members up to the closing brace; `attributes` were read for the first of them. -/
def members? (attributes : List Attribute) : List (List Char) → Option (List Member)
  | [] => none
  | cs :: rest =>
    if cs = ['}'] then some []
    else if isAside cs then members? attributes rest
    else match attributes? cs with
      | some more => members? (attributes ++ more) rest
      | none => do return (← member? attributes cs) :: (← members? [] rest)

/-- The declaration that starts with a line. -/
def declared? : List (List Char) → Option Item
  | [] => none
  | cs :: rest => do
    let head ← (behind? "pub struct " cs).or (behind? "pub enum " cs)
    match before? " \x7b\x7d" head with
    | some name => return ⟨String.ofList name, []⟩
    | none => return ⟨String.ofList (← before? " \x7b" head), ← members? [] rest⟩

/-- The declaration that stands below its derives, if a codec is among them. -/
def item? : List (List Char) → Option Item
  | [] => none
  | cs :: rest =>
    match behind? "#[derive(" cs with
    | none => item? rest
    | some derives => do
      let _ ← before? "serde::Serialize, serde::Deserialize)]" derives
      declared? rest

def texts (lines : List Line) : List (List Char) := lines.map (·.text.toList)

end Source

def Field.member (here : String) (f : Field) : Source.Member :=
  ⟨f.attributes, f.ident, some (f.source here)⟩

def Variant.member (v : Variant) : Source.Member := ⟨v.attributes, v.ident, none⟩

/-- What a codec is derived from. -/
def Binding.item (here : String) (b : Binding) : Source.Item :=
  ⟨b.name, if b.kind = .enumeration then b.variants.map (·.member)
    else b.fields.map (·.member here)⟩

namespace Source

/-! ### Pieces of lines -/

section Pieces

variable {lead tail : String} {cs : List Char}

lemma behind?_append : behind? lead (lead.toList ++ cs) = some cs :=
  List.isPrefixOf?_eq_some_iff_append_eq.mpr rfl

lemma before?_append : before? tail (cs ++ tail.toList) = some cs :=
  List.isSuffixOf?_eq_some_iff_append_eq.mpr rfl

lemma behind?_eq_none {c : Char} (hc : c ∈ lead.toList) (h : c ∉ cs) : behind? lead cs = none := by
  refine Option.eq_none_iff_forall_ne_some.mpr fun rest hsome => h ?_
  rw [← List.isPrefixOf?_eq_some_iff_append_eq.mp hsome]
  exact List.mem_append_left _ hc

end Pieces

/-! ### Plain names -/

/-- A letter, a digit or an underscore. -/
def isPlain (c : Char) : Bool := c.isAlphanum || c = '_'

/-- Whether a name stands in source as it is. -/
def isWord (s : String) : Bool := s.toList.all isPlain

section Plain

variable {c : Char} {s : String}

lemma toNat_of_isPlain (h : isPlain c = true) : 48 ≤ c.toNat ∧ c.toNat < 123 := by
  have hrange : (48 ≤ c.toNat ∧ c.toNat ≤ 57) ∨ (65 ≤ c.toNat ∧ c.toNat ≤ 90) ∨
      (97 ≤ c.toNat ∧ c.toNat ≤ 122) ∨ c.toNat = 95 := by
    delta isPlain Char.isAlphanum Char.isAlpha Char.isUpper Char.isLower Char.isDigit at h
    simp only [Bool.or_eq_true, Bool.and_eq_true, decide_eq_true_eq, ge_iff_le,
      UInt32.le_iff_toNat_le] at h
    rcases h with ((h | h) | h) | rfl
    · exact .inr (.inl h)
    · exact .inr (.inr (.inl h))
    · exact .inl h
    · decide
  omega

lemma ne_of_isPlain (h : isPlain c = true) {d : Char} (hd : isPlain d = false) : c ≠ d := by
  rintro rfl
  simp [h] at hd

lemma quoteChar_of_isPlain (h : isPlain c = true) : quoteChar c = [c] := by
  have hne : ∀ {d}, isPlain d = false → c ≠ d := ne_of_isPlain h
  obtain ⟨hlower, hupper⟩ := toNat_of_isPlain h
  rw [quoteChar, if_neg, if_neg (hne (by decide)), if_neg (hne (by decide)),
    if_neg (hne (by decide)), if_neg (by omega), if_pos (by omega), if_neg (by omega)]
  simpa using ⟨hne (by decide), hne (by decide)⟩

lemma toList_quoted (h : isWord s = true) :
    (quoted s).toList = "\"".toList ++ (s.toList ++ "\"".toList) := by
  have hchars : s.toList.flatMap quoteChar = s.toList.flatMap fun c => [c] :=
    List.flatMap_congr fun c hc => quoteChar_of_isPlain (List.all_eq_true.mp h c hc)
  rw [quoted, String.toList_ofList, ← List.flatMap_def, hchars, List.flatMap_singleton']
  rfl

end Plain

/-! ### Attributes -/

/-- Whether what an attribute says is written as it is. -/
def isLiteral (a : Attribute) : Bool := a.name?.all isWord

section Attributes

variable {a : Attribute} {attributes : List Attribute}

lemma attributeText_rename {name : String} (h : isWord name = true) :
    (attributeText (.rename name)).toList =
      "rename = \"".toList ++ (name.toList ++ "\"".toList) := by
  rw [attributeText, String.toList_append, toList_quoted h, ← List.append_assoc]
  rfl

lemma attribute?_text (h : isLiteral a = true) : attribute? (attributeText a).toList = some a := by
  cases a with
  | default | skipIfNone => decide
  | rename name =>
    have hclean : (name.toList.any fun c => c = '"' || c = '\\') = false := by
      refine List.any_eq_false.mpr fun c hc => ?_
      have hplain : isPlain c = true := List.all_eq_true.mp h c hc
      simpa using ⟨ne_of_isPlain hplain (by decide), ne_of_isPlain hplain (by decide)⟩
    rw [attributeText_rename h, attribute?, if_neg (by simp), if_neg (by simp)]
    rw [behind?_append, Option.bind_eq_bind, Option.bind_some, before?_append, Option.bind_some,
      hclean]
    simp

lemma comma_notMem (h : isLiteral a = true) : ',' ∉ (attributeText a).toList := by
  cases a with
  | default | skipIfNone => decide
  | rename name =>
    have hname : ',' ∉ name.toList := fun hmem =>
      absurd (List.all_eq_true.mp h _ hmem) (by decide)
    rw [attributeText_rename h, List.mem_append, List.mem_append]
    rintro (hlead | hmem | htail)
    · exact absurd hlead (by decide)
    · exact hname hmem
    · exact absurd htail (by decide)

lemma dropWhile_attributeText (h : isLiteral a = true) {blanks : List Char}
    (hblanks : ∀ c ∈ blanks, decide (c = ' ') = true) :
    (blanks ++ (attributeText a).toList).dropWhile (· = ' ') = (attributeText a).toList := by
  rw [List.dropWhile_append_of_pos hblanks]
  cases a with
  | default | skipIfNone => decide
  | rename name =>
    rw [attributeText_rename h]
    rfl

/-- Attributes are read one by one, each of them behind some blanks. -/
lemma attributesIn?_text (h : ∀ a ∈ attributes, isLiteral a = true) (hne : attributes ≠ [])
    {blanks : List Char} (hblanks : ∀ c ∈ blanks, decide (c = ' ') = true) :
    attributesIn? (blanks ++ (", ".intercalate (attributes.map attributeText)).toList) =
      some attributes := by
  induction attributes generalizing blanks with
  | nil => exact absurd rfl hne
  | cons a rest ih =>
    have ha : isLiteral a = true := h a List.mem_cons_self
    have hfree : ∀ c ∈ blanks ++ (attributeText a).toList, decide (c = ',') = false := by
      refine List.forall_mem_append.mpr ⟨fun c hc => ?_, fun c hc => ?_⟩
      · rw [of_decide_eq_true (hblanks c hc)]
        decide
      · exact decide_eq_false fun heq => comma_notMem ha (heq ▸ hc)
    have hread := attribute?_text ha
    rw [← dropWhile_attributeText ha hblanks] at hread
    cases rest with
    | nil =>
      rw [List.map_singleton, String.intercalate_singleton, attributesIn?,
        splitChars_of_forall hfree, List.mapM_cons, hread]
      rfl
    | cons b rest =>
      have hblank : ∀ c ∈ [' '], decide (c = ' ') = true := by simp
      have hlater := ih (fun b hb => h b (List.mem_cons_of_mem _ hb)) (by simp) hblank
      have hcut : blanks ++ (", ".intercalate ((a :: b :: rest).map attributeText)).toList =
          (blanks ++ (attributeText a).toList) ++ ',' ::
            ([' '] ++ (", ".intercalate ((b :: rest).map attributeText)).toList) := by
        rw [List.map_cons, List.map_cons, String.intercalate_cons_cons, String.toList_append,
          String.toList_append]
        simp
      rw [attributesIn?] at hlater
      rw [hcut, attributesIn?, splitChars_append (by decide), splitChars_of_forall hfree,
        List.singleton_append, List.mapM_cons, hread, hlater]
      rfl

lemma attributes?_line (h : ∀ a ∈ attributes, isLiteral a = true) (hne : attributes ≠ []) :
    attributes? ("#[serde(" ++ ", ".intercalate (attributes.map attributeText) ++ ")]").toList =
      some attributes := by
  have hnone : ∀ c ∈ ([] : List Char), decide (c = ' ') = true := by simp
  rw [String.toList_append, String.toList_append, List.append_assoc, attributes?, behind?_append,
    Option.bind_eq_bind, Option.bind_some, before?_append]
  exact attributesIn?_text h hne hnone

end Attributes

/-! ### Members -/

section Members

variable {attributes : List Attribute} {cs : List Char} {rest : List (List Char)}

lemma texts_docs (lead : String) (description : Option String) (deprecated experimental : Bool) :
    ∃ behind : List (List Char),
      texts (docs lead description deprecated experimental) = behind.map (lead.toList ++ ·) := by
  obtain ⟨lines, hlines⟩ : ∃ lines : List String, docs lead description deprecated experimental =
      lines.map fun text => line (if text.isEmpty then lead else lead ++ " " ++ text) := ⟨_, rfl⟩
  refine ⟨lines.map fun text => if text.isEmpty then [] else (" " ++ text).toList, ?_⟩
  rw [hlines, texts, List.map_map, List.map_map]
  refine List.map_congr_left fun text _ => ?_
  simp only [Function.comp_apply, line]
  split
  · rw [List.append_nil]
  · rw [String.append_assoc, String.toList_append]

lemma members?_docs (description : Option String) (deprecated experimental : Bool) :
    members? attributes (texts (docs "///" description deprecated experimental) ++ rest) =
      members? attributes rest := by
  obtain ⟨behind, hbehind⟩ := texts_docs "///" description deprecated experimental
  rw [hbehind]
  clear hbehind
  induction behind with
  | nil => rfl
  | cons more behind ih =>
    have haside : isAside ("///".toList ++ more) = true := by
      rw [isAside, behind?_append]
      rfl
    rw [List.map_cons, List.cons_append, members?, if_neg (by simp), if_pos haside, ih]

lemma members?_attributeLines (h : ∀ a ∈ attributes, isLiteral a = true) :
    members? [] (texts (attributeLines attributes) ++ rest) = members? attributes rest := by
  rw [attributeLines]
  split
  · rename_i hempty
    rw [List.isEmpty_iff.mp hempty]
    rfl
  · rename_i hempty
    have hne : attributes ≠ [] := fun heq => hempty (by rw [heq]; rfl)
    have hread := attributes?_line h hne
    obtain ⟨more, hmore⟩ : ∃ more,
        ("#[serde(" ++ ", ".intercalate (attributes.map attributeText) ++ ")]").toList =
          "#[serde(".toList ++ more :=
      ⟨_, by rw [String.toList_append, String.toList_append, List.append_assoc]⟩
    have haside : isAside ("#[serde(".toList ++ more) = false := rfl
    rw [texts, List.map_singleton, List.singleton_append, line, hmore, members?, if_neg,
      haside, ← hmore, hread]
    · rfl
    · simp

/-- What stands for a member: it is read as it, and what follows it is read after it. -/
def Declares (lines : List Line) (m : Member) : Prop :=
  ∀ rest, members? [] (texts lines ++ rest) = (members? [] rest).map (m :: ·)

lemma members?_line {m : Member} (hbrace : cs ≠ ['}']) (haside : isAside cs = false)
    (hattributes : attributes? cs = none) (hmember : member? attributes cs = some m) :
    members? attributes (cs :: rest) = (members? [] rest).map (m :: ·) := by
  rw [members?, if_neg hbrace, haside, hattributes, hmember]
  cases members? [] rest <;> rfl

lemma member?_field {ident type : String} (hident : ':' ∉ ident.toList) :
    member? attributes ("pub " ++ ident ++ ": " ++ type ++ ",").toList =
      some ⟨attributes, ident, some type⟩ := by
  have hfree : ∀ c ∈ ident.toList, decide (c ≠ ':') = true := fun c hc =>
    decide_eq_true fun heq => hident (heq ▸ hc)
  have hcut : ("pub " ++ ident ++ ": " ++ type ++ ",").toList =
      "pub ".toList ++ (ident.toList ++ (": ".toList ++ type.toList)) ++ ",".toList := by
    simp only [String.toList_append, List.append_assoc]
  have hbefore : (ident.toList ++ (": ".toList ++ type.toList)).takeWhile (· ≠ ':') =
      ident.toList := by
    rw [List.takeWhile_append_of_pos hfree]
    exact List.append_nil _
  have hbehind : (ident.toList ++ (": ".toList ++ type.toList)).dropWhile (· ≠ ':') =
      ": ".toList ++ type.toList := List.dropWhile_append_of_pos hfree
  rw [hcut, member?, before?_append, Option.bind_eq_bind, Option.bind_some]
  simp only [behind?_append, hbefore, hbehind, Option.bind_some, String.ofList_toList]
  rfl

lemma declares_field {here : String} {withDocs : Bool} {f : Field}
    (h : ∀ a ∈ f.attributes, isLiteral a = true) (hident : ':' ∉ f.ident.toList) :
    Declares (fieldLines here withDocs f) (f.member here) := by
  intro rest
  have hlead : ("pub " ++ f.ident ++ ": " ++ f.source here ++ ",").toList =
      'p' :: ("ub " ++ f.ident ++ ": " ++ f.source here ++ ",").toList := by
    simp [String.toList_append]
  have hline : members? f.attributes
      (("pub " ++ f.ident ++ ": " ++ f.source here ++ ",").toList :: rest) =
        (members? [] rest).map (f.member here :: ·) :=
    members?_line (by simp [hlead]) (by rw [hlead]; rfl) (by rw [hlead]; rfl) (member?_field hident)
  rw [fieldLines, texts, List.map_append, List.map_append, List.append_assoc, List.append_assoc]
  split
  · rw [← texts, members?_docs, ← texts, members?_attributeLines h]
    exact hline
  · rw [List.map_nil, List.nil_append, ← texts, members?_attributeLines h]
    exact hline

lemma declares_variant {v : Variant} (h : ∀ a ∈ v.attributes, isLiteral a = true)
    (hident : isWord v.ident = true) : Declares (variantLines v) v.member := by
  intro rest
  have hplain : ∀ {c}, isPlain c = false → c ∉ v.ident.toList := fun hc hmem =>
    Bool.false_ne_true (hc.symm.trans (List.all_eq_true.mp hident _ hmem))
  have hcut : (v.ident ++ ",").toList = v.ident.toList ++ ",".toList := String.toList_append
  have hnot : ∀ {c}, isPlain c = false → c ≠ ',' → c ∉ (v.ident ++ ",").toList := by
    intro c hc hcomma
    rw [hcut, List.mem_append]
    exact fun hmem => hmem.elim (hplain hc) fun hmem => hcomma (List.mem_singleton.mp hmem)
  have hmember : member? v.attributes (v.ident ++ ",").toList = some v.member := by
    have hstruct : behind? "pub " v.ident.toList = none :=
      behind?_eq_none (c := ' ') (by decide) (hplain (by decide))
    rw [hcut, member?, before?_append, Option.bind_eq_bind, Option.bind_some]
    simp only [hstruct, String.ofList_toList]
    rfl
  have hline : members? v.attributes ((v.ident ++ ",").toList :: rest) =
      (members? [] rest).map (v.member :: ·) := by
    have hhash : '#' ∉ (v.ident ++ ",").toList := hnot (by decide) (by decide)
    have hbrace : '}' ∉ (v.ident ++ ",").toList := hnot (by decide) (by decide)
    have hslash : '/' ∉ (v.ident ++ ",").toList := hnot (by decide) (by decide)
    refine members?_line ?_ ?_ ?_ hmember
    · exact fun heq => hbrace (heq ▸ List.mem_singleton_self _)
    · rw [isAside, behind?_eq_none (by decide) hslash]
      exact decide_eq_false fun heq => hhash (heq ▸ by decide)
    · rw [attributes?, behind?_eq_none (by decide) hhash]
      rfl
  rw [variantLines, texts, List.map_append, List.append_assoc, ← texts, members?_attributeLines h]
  exact hline

lemma members?_flatMap {α : Type} {lines : α → List Line} {member : α → Member} {xs : List α}
    (h : ∀ x ∈ xs, Declares (lines x) (member x)) :
    members? [] (texts (xs.flatMap lines) ++ ['}'] :: rest) = some (xs.map member) := by
  induction xs with
  | nil => rfl
  | cons x xs ih =>
    rw [List.flatMap_cons, texts, List.map_append, List.append_assoc, ← texts,
      h x List.mem_cons_self, ← texts, ih fun y hy => h y (List.mem_cons_of_mem _ hy)]
    rfl

end Members

/-! ### Items -/

section Items

variable {b : Binding}

/-- Whether the names in a binding stand in its source as they are. -/
def isReadable (b : Binding) : Bool :=
  b.fields.all (fun f => f.attributes.all isLiteral && !f.ident.toList.contains ':') &&
    b.variants.all fun v => v.attributes.all isLiteral && isWord v.ident

lemma field_of_isReadable (h : isReadable b = true) {f : Field} (hf : f ∈ b.fields) :
    (∀ a ∈ f.attributes, isLiteral a = true) ∧ ':' ∉ f.ident.toList := by
  simpa using List.all_eq_true.mp (Bool.and_eq_true_iff.mp h).1 f hf

lemma variant_of_isReadable (h : isReadable b = true) {v : Variant} (hv : v ∈ b.variants) :
    (∀ a ∈ v.attributes, isLiteral a = true) ∧ isWord v.ident = true := by
  simpa using List.all_eq_true.mp (Bool.and_eq_true_iff.mp h).2 v hv

lemma texts_indented (lines : List Line) : texts (indented lines) = texts lines := by
  rw [texts, indented, List.map_map]
  rfl

lemma declared?_block {keyword name : String} {body : List Line} {members : List Member}
    {rest : List (List Char)} (hkeyword : keyword = "pub struct " ∨ keyword = "pub enum ")
    (hmembers : members? [] (texts body ++ ['}'] :: rest) = some members) :
    declared? (texts (block (keyword ++ name ++ " \x7b") body "\x7d") ++ rest) =
      some ⟨name, members⟩ := by
  have hhead : (behind? "pub struct " (keyword ++ name ++ " \x7b").toList).or
      (behind? "pub enum " (keyword ++ name ++ " \x7b").toList) =
        some (name.toList ++ " \x7b".toList) := by
    rw [String.toList_append, String.toList_append, List.append_assoc]
    rcases hkeyword with rfl | rfl
    · rw [behind?_append]
      rfl
    · rw [behind?_append]
      rfl
  have hopen : before? " \x7b\x7d" (name.toList ++ " \x7b".toList) = none := by
    refine Option.eq_none_iff_forall_ne_some.mpr fun cs hsome => ?_
    have hlast := congrArg List.getLast? (List.isSuffixOf?_eq_some_iff_append_eq.mp hsome)
    simp at hlast
  have hlines : texts (block (keyword ++ name ++ " \x7b") body "\x7d") ++ rest =
      (keyword ++ name ++ " \x7b").toList :: (texts body ++ ['}'] :: rest) := by
    rw [← texts_indented body, block, texts, texts]
    simp [line]
  rw [hlines, declared?, hhead, Option.bind_eq_bind, Option.bind_some]
  simp only [hopen, before?_append, hmembers, Option.bind_eq_bind, Option.bind_some,
    String.ofList_toList]
  rfl

lemma item?_recordLines {here : String} {withDocs : Bool} (h : isReadable b = true)
    (rest : List (List Char)) :
    item? (texts (recordLines here withDocs b) ++ rest) =
      some ⟨b.name, b.fields.map (·.member here)⟩ := by
  have hderives (more : List (List Char)) :
      item? (recordDerives.toList :: more) = declared? more := rfl
  rw [recordLines, texts, List.map_cons, List.cons_append, line, hderives, ← texts]
  split
  · rename_i hempty
    have hcut : ("pub struct " ++ b.name ++ " \x7b\x7d").toList =
        "pub struct ".toList ++ (b.name.toList ++ " \x7b\x7d".toList) := by
      rw [String.toList_append, String.toList_append, List.append_assoc]
    rw [texts, List.map_singleton, List.singleton_append, line, hcut, declared?, behind?_append,
      List.isEmpty_iff.mp hempty]
    simp only [Option.some_or, Option.bind_eq_bind, Option.bind_some, before?_append,
      String.ofList_toList]
    rfl
  · refine declared?_block (.inl rfl) ?_
    rw [← List.flatMap_def]
    refine members?_flatMap fun f hf => ?_
    obtain ⟨hattributes, hident⟩ := field_of_isReadable h hf
    exact declares_field hattributes hident

lemma item?_enumerationLines (h : isReadable b = true) (rest : List (List Char)) :
    item? (texts (enumerationLines b) ++ rest) =
      some ⟨b.name, b.variants.map (·.member)⟩ := by
  have hderives (more : List (List Char)) :
      item? (enumerationDerives.toList :: more) = declared? more := rfl
  rw [enumerationLines, texts, List.map_cons, List.cons_append, line, hderives, ← texts]
  refine declared?_block (.inr rfl) ?_
  split
  · rename_i hempty
    rw [List.isEmpty_iff.mp hempty]
    rfl
  · rw [texts, List.map_cons, List.cons_append, ← List.flatMap_def]
    refine (members?_flatMap fun v hv => ?_ :)
    obtain ⟨hattributes, hident⟩ := variant_of_isReadable h hv
    exact declares_variant hattributes hident

/-- The members of what is rendered for a binding are the members that its values have. -/
theorem item?_bindingLines (d : DomainBindings) (withDocs : Bool) (hkind : b.kind ≠ .alias)
    (h : isReadable b = true) :
    item? (texts (bindingLines d withDocs b)) = some (b.item d.name) := by
  have hdocs (more : List (List Char)) : item? (texts
      (if withDocs then docs "///" b.description b.deprecated b.experimental else []) ++ more) =
        item? more := by
    split
    · obtain ⟨behind, hbehind⟩ := texts_docs "///" b.description b.deprecated b.experimental
      rw [hbehind]
      clear hbehind
      induction behind with
      | nil => rfl
      | cons cs behind ih => exact ih
    · rfl
  rw [bindingLines, texts, List.map_append, List.map_append, List.map_cons, List.append_assoc,
    ← texts, ← texts, ← texts, List.cons_append]
  refine (hdocs _).trans ?_
  rw [Binding.item]
  split
  · rename_i hkind
    rw [if_pos hkind, item?_enumerationLines h]
  · rename_i halias
    exact absurd halias hkind
  · rename_i hkind _
    rw [if_neg hkind, item?_recordLines h]

end Items

end Source
end InspectorProtocol

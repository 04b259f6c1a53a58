import InspectorProtocol.Binding.Generation
import InspectorProtocol.Proofs.Pieces
import InspectorProtocol.Source.Rendering
import Mathlib.Data.List.Flatten
import Mathlib.Data.List.Forall2

/-!
# Free text in comments

Descriptions are cut into lines before they become comments, so each of their lines is one. Versions
and the names of domains are put into a comment as they are: what stands behind a line break in one
of them is a line of source of its own.
-/

namespace InspectorProtocol

open Text

namespace Source

/-- The characters of a line without the break at its end. -/
def Line.body (l : Line) : List Char :=
  if l.text.isEmpty then [] else List.replicate (4 * l.indent) ' ' ++ l.text.toList

/-- The lines of output that come from a line: more than one if there are breaks in its text. -/
def Line.outputLines (l : Line) : List (List Char) := splitChars (· == '\n') l.body

def File.outputLines (f : File) : List (List Char) := splitChars (· == '\n') f.contents.toList

/-- A line of output that is blank or starts with two slashes, after its indentation. -/
def IsComment (line : List Char) : Prop :=
  (∀ c ∈ line, isBlank c = true) ∨ ['/', '/'] <+: line.dropWhile (· == ' ')

instance (line : List Char) : Decidable (IsComment line) :=
  decidable_of_iff (line.all isBlank = true ∨ ['/', '/'] <+: line.dropWhile (· == ' '))
    (or_congr_left List.all_eq_true)

/-- All that becomes of some lines is comments. -/
def AreComments (lines : List Line) : Prop :=
  ∀ l ∈ lines, ∀ out ∈ l.outputLines, IsComment out

instance (lines : List Line) : Decidable (AreComments lines) :=
  inferInstanceAs (Decidable (∀ l ∈ lines, ∀ out ∈ l.outputLines, IsComment out))

/-- A text of which every line but the first is a comment by itself. -/
def StaysInComment (text : String) : Prop :=
  ∀ line ∈ (splitChars (· == '\n') text.toList).tail, IsComment line

/-! ### The comments of the files -/

def rootComments (b : Bindings) : List Line :=
  header b ++ [line ("//! Bindings for protocol version " ++ b.version.text)]

def fieldComments (withDocs : Bool) (f : Field) : List Line :=
  if withDocs then docs "///" f.description f.deprecated f.experimental else []

/-- The descriptions of a binding and its fields; enumerations and aliases have no fields. -/
def bindingComments (withDocs : Bool) (b : Binding) : List Line :=
  (if withDocs then docs "///" b.description b.deprecated b.experimental else []) ++
    match b.kind with
    | .enumeration | .alias => []
    | _ => indented (b.fields.flatMap (fieldComments withDocs))

def domainComments (b : Bindings) (withDocs : Bool) (d : DomainBindings) : List Line :=
  header b ++ domainTitle withDocs d ++ d.bindings.flatMap (bindingComments withDocs)

/-- For each file, the lines that versions, names of domains and descriptions go into. -/
def comments (b : Bindings) (withDocs : Bool) : List (List Line) :=
  rootComments b :: header b :: b.domains.map (domainComments b withDocs)

lemma splitChars_render (lines : List Line) :
    splitChars (· == '\n') (render lines).toList = lines.flatMap Line.outputLines ++ [[]] := by
  rw [render, String.toList_ofList]
  induction lines with
  | nil => rfl
  | cons l rest ih =>
    have hchars : l.chars = l.body ++ ['\n'] := by
      rw [Line.chars, Line.body]
      split <;> simp
    rw [List.map_cons, List.flatten_cons, hchars, List.append_assoc, List.singleton_append,
      splitChars_append (by simp), ih, List.flatMap_cons, List.append_assoc]
    rfl

lemma bindingComments_sublist (d : DomainBindings) (withDocs : Bool) (b : Binding) :
    (bindingComments withDocs b).Sublist (bindingLines d withDocs b) := by
  have hfields : (indented (b.fields.flatMap (fieldComments withDocs))).Sublist
      (recordLines d.name withDocs b) := by
    rw [recordLines]
    split
    · rename_i hempty
      rw [List.isEmpty_iff.mp hempty]
      exact List.nil_sublist _
    · rw [block, ← List.flatMap_def]
      refine .cons _ (.cons _ (.trans (.map _ ?_) (List.sublist_append_left _ _)))
      refine List.Sublist.flatMap_right _ fun f _ => ?_
      rw [fieldComments, fieldLines, List.append_assoc]
      exact List.sublist_append_left _ _
  refine .trans (.append (.cons blank (.refl _)) ?_) (List.sublist_append_left _ _)
  cases b.kind with
  | enumeration | «alias» => exact List.nil_sublist _
  | record | request | response | payload => exact hfields

lemma outputLines_sublist {contained all : List Line} (h : contained.Sublist all) (name : String) :
    (contained.flatMap Line.outputLines).Sublist (File.outputLines ⟨name, render all⟩) := by
  rw [File.outputLines, splitChars_render]
  exact (h.flatMap _).trans (List.sublist_append_left _ _)

lemma comments_sublist (b : Bindings) (withDocs : Bool) :
    List.Forall₂ (fun lines file => (lines.flatMap Line.outputLines).Sublist file.outputLines)
      (comments b withDocs) (files b withDocs) := by
  refine .cons (outputLines_sublist ?_ _) (.cons (outputLines_sublist ?_ _) ?_)
  · simp only [rootComments, rootLines, List.append_assoc]
    exact (List.Sublist.refl _).append (.cons_cons _ (List.nil_sublist _))
  · simp only [methodLines, List.append_assoc]
    exact List.sublist_append_left _ _
  · rw [List.forall₂_map_left_iff, List.forall₂_map_right_iff, List.forall₂_same]
    intro d _
    refine outputLines_sublist ?_ _
    rw [domainComments, domainLines, ← List.flatMap_def]
    exact (List.Sublist.refl _).append
      (List.Sublist.flatMap_right _ fun e _ => bindingComments_sublist d withDocs e)

/-! ### Descriptions -/

lemma mem_of_mem_dropReturn {cs : List Char} {c : Char} (h : c ∈ dropReturn cs) : c ∈ cs := by
  unfold dropReturn at h
  split at h
  · exact (List.dropLast_sublist cs).subset h
  · exact h

lemma notMem_linesFrom {current cs l : List Char} (hcurrent : '\n' ∉ current)
    (h : l ∈ linesFrom current cs) : '\n' ∉ l := by
  fun_induction linesFrom current cs with
  | case1 => cases h
  | case2 current =>
    rw [List.mem_singleton.mp h]
    simpa using hcurrent
  | case3 current rest ih =>
    rcases List.mem_cons.mp h with rfl | h
    · exact fun hmem => hcurrent (List.mem_reverse.mp (mem_of_mem_dropReturn hmem))
    · exact ih List.not_mem_nil h
  | case4 current c rest hbreak ih =>
    refine ih ?_ h
    rintro (_ | hmem)
    · exact hbreak rfl
    · exact hcurrent ‹_›

lemma notMem_lines {s : String} {l : List Char} (h : l ∈ lines s) : '\n' ∉ l :=
  notMem_linesFrom List.not_mem_nil h

/-- A line that begins with two slashes and holds no break. -/
structure IsCommentLine (l : Line) : Prop where
  slashes : ['/', '/'] <+: l.text.toList
  whole : '\n' ∉ l.text.toList

lemma IsCommentLine.outputLines {l : Line} (h : IsCommentLine l) :
    ∀ out ∈ l.outputLines, IsComment out := by
  obtain ⟨rest, hrest⟩ := h.slashes
  have hne : l.text.isEmpty = false := by
    rw [Bool.eq_false_iff]
    intro hempty
    simp [String.isEmpty_iff.mp hempty] at hrest
  have hbody : l.body = List.replicate (4 * l.indent) ' ' ++ l.text.toList := by
    rw [Line.body, hne]
    rfl
  have hwhole : '\n' ∉ l.body := by
    rw [hbody]
    simp [h.whole]
  intro out hout
  rw [Line.outputLines, splitChars_of_notMem hwhole, List.mem_singleton] at hout
  refine .inr ⟨rest, ?_⟩
  rw [hout, hbody, ← hrest, List.dropWhile_append_of_pos]
  · rfl
  · simp

lemma notMem_described {description : Option String} {text : String}
    (h : text ∈ match description with
      | none => []
      | some given => (lines given).map fun cs => String.ofList (trimEnd cs)) :
    '\n' ∉ text.toList := by
  cases description with
  | none => cases h
  | some given =>
    obtain ⟨cs, hcs, rfl⟩ := List.mem_map.mp h
    rw [String.toList_ofList, trimEnd, List.mem_reverse]
    intro hmem
    exact notMem_lines hcs (List.mem_reverse.mp ((List.dropWhile_sublist _).subset hmem))

lemma notMem_withNotes {described notes : List String} {text : String}
    (hdescribed : ∀ text ∈ described, '\n' ∉ text.toList)
    (hnotes : '\n' ∉ (" ".intercalate notes).toList)
    (h : text ∈ if notes.isEmpty then described
      else if described.isEmpty then [" ".intercalate notes]
      else described ++ ["", " ".intercalate notes]) : '\n' ∉ text.toList := by
  split at h
  · exact hdescribed text h
  · split at h
    · rw [List.mem_singleton.mp h]
      exact hnotes
    · rcases List.mem_append.mp h with h | h
      · exact hdescribed text h
      · rcases List.mem_pair.mp h with rfl | rfl
        · exact List.not_mem_nil
        · exact hnotes

lemma isCommentLine_docs {lead : String} (hslashes : ['/', '/'] <+: lead.toList)
    (hwhole : '\n' ∉ lead.toList) (description : Option String) (deprecated experimental : Bool) :
    ∀ l ∈ docs lead description deprecated experimental, IsCommentLine l := by
  have hnotes : '\n' ∉ (" ".intercalate ((if deprecated then ["Deprecated."] else []) ++
      (if experimental then ["Experimental."] else []))).toList := by
    cases deprecated <;> cases experimental <;> decide
  intro l hl
  obtain ⟨text, htext, rfl⟩ := List.mem_map.mp hl
  have htextWhole := notMem_withNotes (fun text => notMem_described) hnotes htext
  split
  · exact ⟨hslashes, hwhole⟩
  · refine ⟨?_, ?_⟩
    · simp only [line, String.toList_append, List.append_assoc]
      exact hslashes.trans (List.prefix_append _ _)
    · simp [line, hwhole, htextWhole]

/-! ### Versions and names -/

/-- Behind two slashes, a text stays in comments exactly if its further lines are comments. -/
lemma areComments_line_iff {lead : String} (hslashes : ['/', '/'] <+: lead.toList)
    (hwhole : '\n' ∉ lead.toList) (free : String) :
    AreComments [line (lead ++ free)] ↔ StaysInComment free := by
  obtain ⟨first, rest, hfree, hsplit⟩ := exists_splitChars_append (p := (· == '\n'))
    (fun c hc => beq_false_of_ne fun heq => hwhole (heq ▸ hc)) free.toList
  have hlines : (line (lead ++ free)).outputLines = (lead.toList ++ first) :: rest := by
    have hbody : (line (lead ++ free)).body = lead.toList ++ free.toList := by
      rw [Line.body]
      split
      · rename_i hempty
        have hnone : lead ++ free = "" := String.isEmpty_iff.mp hempty
        rw [← String.toList_append, hnone]
        rfl
      · simp [line]
    rw [Line.outputLines, hbody, hsplit]
  have hfirst : IsComment (lead.toList ++ first) := by
    obtain ⟨more, hmore⟩ := hslashes
    refine .inr ⟨more ++ first, ?_⟩
    rw [← hmore]
    rfl
  rw [AreComments, List.forall_mem_singleton, hlines, StaysInComment, hfree, List.forall_mem_cons]
  exact and_iff_right hfirst

lemma areComments_append {lines more : List Line} :
    AreComments (lines ++ more) ↔ AreComments lines ∧ AreComments more :=
  List.forall_mem_append

lemma areComments_header_iff (b : Bindings) :
    AreComments (header b) ↔ StaysInComment (b.version.text ++ ". Do not edit.") := by
  have hblank : AreComments [blank] := by decide
  have htext : marker ++ " from protocol " ++ b.version.text ++ ". Do not edit." =
      (marker ++ " from protocol ") ++ (b.version.text ++ ". Do not edit.") := by
    rw [String.append_assoc]
  rw [header, htext, ← List.singleton_append, areComments_append,
    areComments_line_iff (by decide) (by decide)]
  exact and_iff_left hblank

lemma areComments_docs_indented {lead : String} (hlead : lead ∈ ["//!", "///"])
    (description : Option String) (deprecated experimental : Bool) (indent : Line → Nat) :
    AreComments ((docs lead description deprecated experimental).map fun l =>
      { l with indent := indent l }) := by
  have hslashes : ['/', '/'] <+: lead.toList ∧ '\n' ∉ lead.toList := by
    rcases List.mem_pair.mp hlead with rfl | rfl <;> decide
  intro l hl
  obtain ⟨l', hl', rfl⟩ := List.mem_map.mp hl
  have hcomment := isCommentLine_docs hslashes.1 hslashes.2 _ _ _ l' hl'
  exact IsCommentLine.outputLines ⟨hcomment.slashes, hcomment.whole⟩

lemma areComments_docs {lead : String} (hlead : lead ∈ ["//!", "///"])
    (description : Option String) (deprecated experimental : Bool) :
    AreComments (docs lead description deprecated experimental) := by
  simpa using areComments_docs_indented hlead description deprecated experimental (·.indent)

lemma areComments_title_iff (withDocs : Bool) (d : DomainBindings) :
    AreComments (domainTitle withDocs d) ↔ StaysInComment (d.name ++ " domain") := by
  have htitle : AreComments [line ("//! " ++ (d.name ++ " domain"))] ↔
      StaysInComment (d.name ++ " domain") := areComments_line_iff (by decide) (by decide) _
  rw [← String.append_assoc] at htitle
  rw [domainTitle, ← List.singleton_append, areComments_append, htitle]
  refine and_iff_left ?_
  split
  · intro l hl
    rcases List.mem_cons.mp hl with rfl | hl
    · exact (by decide : AreComments [line "//!"]) _ List.mem_cons_self
    · exact areComments_docs (by decide) _ _ _ l hl
  · exact fun _ hl => absurd hl List.not_mem_nil

lemma areComments_bindingComments (withDocs : Bool) (b : Binding) :
    AreComments (bindingComments withDocs b) := by
  have hfields : AreComments (indented (b.fields.flatMap (fieldComments withDocs))) := by
    rw [indented, List.map_flatMap]
    intro l hl
    obtain ⟨f, _, hl⟩ := List.mem_flatMap.mp hl
    rw [fieldComments] at hl
    split at hl
    · exact areComments_docs_indented (by decide) _ _ _ (·.indent + 1) l hl
    · cases hl
  rw [bindingComments, areComments_append]
  constructor
  · split
    · exact areComments_docs (by decide) _ _ _
    · exact fun _ hl => absurd hl List.not_mem_nil
  · cases b.kind with
    | enumeration | «alias» => exact fun _ hl => absurd hl List.not_mem_nil
    | record | request | response | payload => exact hfields

lemma areComments_domainComments_iff (b : Bindings) (withDocs : Bool) (d : DomainBindings) :
    AreComments (domainComments b withDocs d) ↔
      AreComments (header b) ∧ StaysInComment (d.name ++ " domain") := by
  have hbindings : AreComments (d.bindings.flatMap (bindingComments withDocs)) := by
    intro l hl
    obtain ⟨e, _, hl⟩ := List.mem_flatMap.mp hl
    exact areComments_bindingComments withDocs e l hl
  rw [domainComments, areComments_append, areComments_append, areComments_title_iff]
  exact and_iff_left hbindings

end Source

open Source

/-- Versions, names of domains and descriptions stand in comments of the files. What becomes of a
description is comments always. What becomes of the others is comments exactly if the lines behind
the breaks in them are, with the text that follows them. -/
theorem breaks_in_names_leave_comments (settings : Settings) (d : Description) (withDocs : Bool) :
    let b := Bindings.generate settings d
    List.Forall₂ (fun lines file => (lines.flatMap Line.outputLines).Sublist file.outputLines)
        (comments b withDocs) (files b withDocs) ∧
      (∀ lead ∈ ["//!", "///"], ∀ description deprecated experimental indent,
        AreComments ((docs lead description deprecated experimental).map fun l =>
          { l with indent })) ∧
      ((∀ lines ∈ comments b withDocs, AreComments lines) ↔
        StaysInComment (d.version.text ++ ". Do not edit.") ∧ StaysInComment d.version.text ∧
          ∀ e ∈ b.domains, StaysInComment (e.name ++ " domain")) := by
  intro b
  have hversion : AreComments [line ("//! Bindings for protocol version " ++ b.version.text)] ↔
      StaysInComment d.version.text := areComments_line_iff (by decide) (by decide) _
  refine ⟨comments_sublist b withDocs, ?_, ?_⟩
  · intro lead hlead description deprecated experimental indent
    exact areComments_docs_indented hlead description deprecated experimental fun _ => indent
  · simp only [comments, List.forall_mem_cons, List.forall_mem_map, rootComments,
      areComments_append, areComments_header_iff, hversion, areComments_domainComments_iff]
    constructor
    · rintro ⟨⟨hheader, htext⟩, _, hdomains⟩
      exact ⟨hheader, htext, fun e he => (hdomains e he).2⟩
    · rintro ⟨hheader, htext, hdomains⟩
      exact ⟨⟨hheader, htext⟩, hheader, fun e he => ⟨hheader, hdomains e he⟩⟩

/-- A version with a line break, behind which a module is declared. -/
def forged : Description := { version := ⟨"1\npub mod forged; //", "3"⟩ }

theorem version_becomes_code :
    ∃ file ∈ files (Bindings.generate {} forged) true, ∃ line ∈ file.outputLines,
      line = "pub mod forged; //.3. Do not edit.".toList ∧ ¬ IsComment line := by
  have hroot := (List.forall₂_cons.mp (comments_sublist (Bindings.generate {} forged) true)).1
  have hversion : (Bindings.generate {} forged).version = forged.version := rfl
  refine ⟨_, List.mem_cons_self, "pub mod forged; //.3. Do not edit.".toList, hroot.subset ?_, rfl,
    by decide⟩
  rw [rootComments, header, hversion]
  decide +kernel

end InspectorProtocol

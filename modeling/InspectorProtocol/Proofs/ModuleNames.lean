import InspectorProtocol.Proofs.BindingNames
import InspectorProtocol.Proofs.Directories
import InspectorProtocol.Source.Rendering

/-!
# Names of modules and their files

The name of a module is a word: small letters, digits and underscores, with no underscore at its
end. Keeping clear of the reserved words adds the raw marker, which the name of the file leaves out
again, or an underscore. So two domains share a file exactly if their words are the same.
-/

namespace InspectorProtocol

open Text

namespace Identifier

/-- Whether a text has only letters, digits and underscores. -/
def IsWord (s : String) : Prop := ∀ c ∈ s.toList, c.isAlphanum = true ∨ c = '_'

instance (s : String) : Decidable (IsWord s) :=
  List.decidableBAll (fun c : Char => c.isAlphanum = true ∨ c = '_') s.toList

/-- The word of a domain, before it is kept clear of the reserved words. -/
def moduleWord (domain : String) : String := withFallback "domain" (snakeCase domain)

/-- What the name of a domain's file starts with. -/
def fileStem (domain : String) : String := bare (moduleName domain)

lemma isAlphanum_toLower {c : Char} (h : c.isAlphanum = true) : c.toLower.isAlphanum = true := by
  delta Char.isAlphanum Char.isAlpha Char.isUpper Char.isLower Char.isDigit Char.toLower at h ⊢
  simp only [Bool.or_eq_true, Bool.and_eq_true, decide_eq_true_eq] at h ⊢
  split <;> grind

section Words

variable {s t : String}

lemma IsWord.append (hs : IsWord s) (ht : IsWord t) : IsWord (s ++ t) := by
  intro c hc
  rw [String.toList_append] at hc
  rcases List.mem_append.mp hc with hc | hc
  · exact hs c hc
  · exact ht c hc

lemma isWord_underscore : IsWord "_" := by decide

lemma IsWord.notMem (h : IsWord s) {c : Char} (hc : c.isAlphanum = false) (hne : c ≠ '_') :
    c ∉ s.toList := by
  intro hmem
  rcases h c hmem with hword | hword
  · simp [hword] at hc
  · exact hne hword

lemma mem_breakWord {out : List Char} {c : Char} (h : c ∈ breakWord out) : c ∈ out ∨ c = '_' := by
  unfold breakWord at h
  split at h
  · exact .inl h
  · exact .inl h
  · exact (List.mem_cons.mp h).symm

lemma snakeFrom_chars (previous : Option Char) {out : List Char} (cs : List Char)
    (hout : ∀ c ∈ out, c.isAlphanum = true ∨ c = '_') :
    ∀ c ∈ snakeFrom previous out cs, c.isAlphanum = true ∨ c = '_' := by
  induction cs generalizing previous out with
  | nil => exact hout
  | cons d rest ih =>
    have hbroken : ∀ c ∈ breakWord out, c.isAlphanum = true ∨ c = '_' := fun c hc =>
      (mem_breakWord hc).elim (hout c) .inr
    refine ih (some d) ?_
    by_cases hd : d.isAlphanum = true
    · have hlower := isAlphanum_toLower hd
      simp only [hd, Bool.not_true, Bool.false_eq_true, if_false]
      intro c hc
      split at hc
      · rcases List.mem_cons.mp hc with rfl | hc
        · exact .inl hlower
        · exact hbroken c hc
      · rcases List.mem_cons.mp hc with rfl | hc
        · exact .inl hlower
        · exact hout c hc
    · simpa [hd] using hbroken

lemma isWord_snakeCase (s : String) : IsWord (snakeCase s) := by
  intro c hc
  rw [snakeCase, String.toList_ofList, List.mem_reverse] at hc
  exact snakeFrom_chars none s.toList (by simp) c ((List.dropWhile_sublist _).subset hc)

lemma getLast?_snakeCase (s : String) : (snakeCase s).toList.getLast? ≠ some '_' := by
  rw [snakeCase, String.toList_ofList, List.getLast?_reverse]
  intro h
  have hdropped := List.head?_dropWhile_not (· == '_') (snakeFrom none [] s.toList)
  simp [h] at hdropped

lemma moduleWord_eq (domain : String) : moduleWord domain = "domain" ∨
    moduleWord domain = snakeCase domain ∧ snakeCase domain ≠ "" ∨
    moduleWord domain = "_" ++ snakeCase domain ∧ snakeCase domain ≠ "" := by
  unfold moduleWord withFallback
  by_cases hempty : snakeCase domain = ""
  · simp [hempty]
  · rw [if_neg (by simpa using hempty)]
    split
    · exact .inr (.inr ⟨rfl, hempty⟩)
    · exact .inr (.inl ⟨rfl, hempty⟩)

lemma isWord_moduleWord (domain : String) : IsWord (moduleWord domain) := by
  have hsnake := isWord_snakeCase domain
  rcases moduleWord_eq domain with heq | ⟨heq, _⟩ | ⟨heq, _⟩
  · rw [heq]
    decide
  · exact heq ▸ hsnake
  · exact heq ▸ isWord_underscore.append hsnake

lemma getLast?_moduleWord (domain : String) : (moduleWord domain).toList.getLast? ≠ some '_' := by
  have hlast := getLast?_snakeCase domain
  rcases moduleWord_eq domain with heq | ⟨heq, _⟩ | ⟨heq, hnonempty⟩
  · rw [heq]
    decide
  · rwa [heq]
  · have hne : (snakeCase domain).toList ≠ [] := by simpa using hnonempty
    rw [heq, String.toList_append, List.getLast?_append_of_ne_nil _ hne]
    exact hlast

lemma moduleWord_ne_empty (domain : String) : moduleWord domain ≠ "" := by
  rcases moduleWord_eq domain with heq | ⟨heq, hnonempty⟩ | ⟨heq, _⟩
  · rw [heq]
    decide
  · rwa [heq]
  · rw [heq]
    intro hempty
    simpa using congrArg String.toList hempty

lemma bare_of_isWord (h : IsWord s) : bare s = s := by
  have hmark : '#' ∉ s.toList := h.notMem (by decide) (by decide)
  unfold bare
  split
  · rename_i heq
    simp [heq] at hmark
  · rfl

lemma bare_raw (s : String) : bare ("r#" ++ s) = s := by
  have hchars : ("r#" ++ s).toList = 'r' :: '#' :: s.toList := by simp
  simp [bare, hchars]

lemma bare_escape (h : IsWord s) :
    bare (escape s) = if neverRaw.contains s then s ++ "_" else s := by
  unfold escape
  by_cases hnever : neverRaw.contains s = true
  · rw [if_pos hnever, if_pos hnever, bare_of_isWord (h.append isWord_underscore)]
  rw [if_neg hnever, if_neg hnever]
  by_cases hreserved : isReserved s = true
  · rw [if_pos hreserved, bare_raw]
  · rw [if_neg hreserved, bare_of_isWord h]

end Words

lemma fileStem_eq (domain : String) :
    fileStem domain = moduleWord domain ∨ fileStem domain = moduleWord domain ++ "_" := by
  have hescape : fileStem domain = _ := bare_escape (isWord_moduleWord domain)
  rw [hescape]
  split
  · exact .inr rfl
  · exact .inl rfl

lemma isWord_fileStem (domain : String) : IsWord (fileStem domain) := by
  have hword := isWord_moduleWord domain
  rcases fileStem_eq domain with heq | heq
  · exact heq ▸ hword
  · exact heq ▸ hword.append isWord_underscore

lemma fileStem_ne_empty (domain : String) : fileStem domain ≠ "" := by
  have hword := moduleWord_ne_empty domain
  rcases fileStem_eq domain with heq | heq
  · rwa [heq]
  · rw [heq]
    intro hempty
    simpa using congrArg String.toList hempty

lemma fileStem_inj {a b : String} : fileStem a = fileStem b ↔ moduleWord a = moduleWord b := by
  have ne_underscored : ∀ x y, moduleWord x ≠ moduleWord y ++ "_" := by
    intro x y heq
    have hlast := getLast?_moduleWord x
    rw [heq, String.toList_append] at hlast
    exact hlast (by simp)
  constructor
  · intro h
    rcases fileStem_eq a with ha | ha <;> rcases fileStem_eq b with hb | hb <;> rw [ha, hb] at h
    · exact h
    · exact absurd h (ne_underscored a b)
    · exact absurd h.symm (ne_underscored b a)
    · exact (String.append_left_inj "_").mp h
  · intro h
    have hdomain : ∀ domain, fileStem domain =
        if neverRaw.contains (moduleWord domain) then moduleWord domain ++ "_"
        else moduleWord domain := fun domain => bare_escape (isWord_moduleWord domain)
    rw [hdomain, hdomain, h]

end Identifier

namespace Source

open Identifier

lemma fileName_toList (stem : String) :
    (stem ++ ".rs").toList = stem.toList ++ ['.', 'r', 's'] := by
  simp

lemma isName_fileName {stem : String} (h : IsWord stem) : Path.IsName (stem ++ ".rs") := by
  have hslash := h.notMem (c := '/') (by decide) (by decide)
  have hnul := h.notMem (c := '\x00') (by decide) (by decide)
  have hlast : (stem ++ ".rs").toList.getLast? = some 's' := by simp
  refine ⟨?_, ?_, ?_, ?_, ?_⟩
  · intro heq
    simp [heq] at hlast
  · simpa [fileName_toList] using hslash
  · simpa [fileName_toList] using hnul
  · intro heq
    simp [heq] at hlast
  · intro heq
    simp [heq] at hlast

lemma hasExtension_fileName {stem : String} (h : stem ≠ "") :
    Path.hasExtension (stem ++ ".rs") "rs" = true := by
  have hlength : 0 < stem.length := Nat.pos_of_ne_zero fun hzero => h (by simpa using hzero)
  have hdot : ("." ++ "rs" : String) = ".rs" := rfl
  have hend : endsWith (stem ++ ".rs") ".rs" = true := by
    simp [endsWith]
  have hlong : "rs".length + 1 < (stem ++ ".rs").length := by
    rw [String.length_append]
    have htail : (".rs" : String).length = 3 := rfl
    have hrs : ("rs" : String).length = 2 := rfl
    omega
  simp only [Path.hasExtension, hdot, hend, hlong, decide_true, Bool.and_true]

end Source

namespace Bindings

variable {settings : Settings} {description : Description}

lemma module_of_mem_generate {d : DomainBindings}
    (h : d ∈ (generate settings description).domains) :
    d.module = Identifier.moduleName d.name := by
  rw [domains_generate, Boxing.mem_boxAll] at h
  obtain ⟨d', hd', rfl⟩ := h
  obtain ⟨o, _, rfl⟩ := List.mem_map.mp hd'
  simp only [assemble]

end Bindings

namespace Source

open Identifier

variable {settings : Settings} {description : Description}

lemma domainFileName_of_mem {d : DomainBindings}
    (h : d ∈ (Bindings.generate settings description).domains) :
    domainFileName d = fileStem d.name ++ ".rs" := by
  rw [domainFileName, Bindings.module_of_mem_generate h]
  rfl

/-- The names of the files of a description: two that are always there, and one for each domain. -/
lemma names_files (withDocs : Bool) :
    (files (Bindings.generate settings description) withDocs).map (·.name) =
      ("mod" :: "methods" :: (Bindings.generate settings description).domains.map
        (fileStem ·.name)).map (· ++ ".rs") := by
  have hdomains : (Bindings.generate settings description).domains.map domainFileName =
      (Bindings.generate settings description).domains.map (fileStem ·.name ++ ".rs") :=
    List.map_congr_left fun d hd => domainFileName_of_mem hd
  simp only [files, List.map_cons, List.map_map, Function.comp_def, hdomains]
  rfl

lemma exists_stem {withDocs : Bool} {file : File}
    (h : file ∈ files (Bindings.generate settings description) withDocs) :
    ∃ stem, IsWord stem ∧ stem ≠ "" ∧ file.name = stem ++ ".rs" := by
  have hname := List.mem_map_of_mem (f := (·.name)) h
  rw [names_files] at hname
  obtain ⟨stem, hstem, heq⟩ := List.mem_map.mp hname
  refine ⟨stem, ?_, ?_, heq.symm⟩
  · rcases List.mem_cons.mp hstem with rfl | hstem
    · decide
    rcases List.mem_cons.mp hstem with rfl | hstem
    · decide
    obtain ⟨d, _, rfl⟩ := List.mem_map.mp hstem
    exact isWord_fileStem d.name
  · rcases List.mem_cons.mp hstem with rfl | hstem
    · decide
    rcases List.mem_cons.mp hstem with rfl | hstem
    · decide
    obtain ⟨d, _, rfl⟩ := List.mem_map.mp hstem
    exact fileStem_ne_empty d.name

end Source

end InspectorProtocol

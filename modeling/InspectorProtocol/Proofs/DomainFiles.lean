import InspectorProtocol.Proofs.StaleFiles

/-!
# One file per domain

The root file declares a module for the wire methods and one for each domain, and each has a file.
Files are apart as long as the words of the domains are apart and none of them is `mod` or
`methods`, the words of the two files that are always there. Nothing sees to that, so a domain can
write over another or over one of the two.
-/

namespace InspectorProtocol

open Text Source Identifier

namespace Compilation

/-- The words of the domains that are emitted. -/
def words (c : Compilation) : List String := c.bindings.domains.map (moduleWord ·.name)

/-- The domains have different words, which differ from those of the other two files. -/
structure WordsApart (c : Compilation) : Prop where
  distinct : c.words.Nodup
  root : "mod" ∉ c.words
  methods : "methods" ∉ c.words

variable {c : Compilation}

lemma names_of_files (c : Compilation) :
    c.files.map (·.name) =
      ("mod" :: "methods" :: c.bindings.domains.map (fileStem ·.name)).map (· ++ ".rs") :=
  names_files _

lemma fileStem_eq_iff {domain word : String} (hlast : word.toList.getLast? ≠ some '_')
    (hplain : neverRaw.contains word = false) :
    fileStem domain = word ↔ moduleWord domain = word := by
  have hstem : fileStem domain = if neverRaw.contains (moduleWord domain) then
      moduleWord domain ++ "_" else moduleWord domain := bare_escape (isWord_moduleWord domain)
  constructor
  · intro h
    rcases fileStem_eq domain with heq | heq
    · rw [← heq, h]
    · rw [heq] at h
      rw [← h, String.toList_append] at hlast
      exact absurd (by simp) hlast
  · intro h
    rw [hstem, h, hplain]
    rfl

lemma nodup_names_iff : (c.files.map (·.name)).Nodup ↔ c.WordsApart := by
  have happend : Function.Injective (· ++ ".rs") := fun a b heq =>
    (String.append_left_inj ".rs").mp heq
  have hmem : ∀ word, word.toList.getLast? ≠ some '_' → neverRaw.contains word = false →
      (word ∈ c.bindings.domains.map (fileStem ·.name) ↔ word ∈ c.words) := by
    intro word hlast hplain
    simp only [words, List.mem_map]
    exact exists_congr fun d => and_congr_right fun _ => fileStem_eq_iff hlast hplain
  have hstems : (c.bindings.domains.map (fileStem ·.name)).Nodup ↔ c.words.Nodup := by
    rw [words, List.nodup_iff_pairwise_ne, List.nodup_iff_pairwise_ne, List.pairwise_map,
      List.pairwise_map]
    exact List.Pairwise.iff fun a b => not_congr fileStem_inj
  rw [names_of_files, List.nodup_map_iff happend, List.nodup_cons, List.nodup_cons, hstems,
    List.mem_cons, hmem "mod" (by decide) (by decide), hmem "methods" (by decide) (by decide)]
  constructor
  · rintro ⟨hroot, hmethods, hdistinct⟩
    exact ⟨hdistinct, fun h => hroot (.inr h), hmethods⟩
  · rintro ⟨hdistinct, hroot, hmethods⟩
    exact ⟨fun h => h.elim (by decide) hroot, hmethods, hdistinct⟩

end Compilation

namespace Source

variable {b : Bindings}

/-- The modules that the root file declares. -/
def modules (b : Bindings) : List String := "methods" :: b.domains.map (·.module)

/-- Whether a line declares a module with a file of its own. -/
def declaresModule (l : Line) : Bool := startsWith l.text "pub mod "

lemma not_declaresModule {l : Line} {c : Char} {cs : List Char} (hchars : l.text.toList = c :: cs)
    (hc : c ≠ 'p') : declaresModule l = false := by
  have hlead : ("pub mod " : String).toList = 'p' :: "ub mod ".toList := by decide
  have hne : ('p' == c) = false := by simpa using hc.symm
  rw [declaresModule, startsWith, hlead, hchars, List.isPrefixOf, hne]
  rfl

lemma declaresModule_module (name : String) :
    declaresModule (line ("pub mod " ++ name ++ ";")) = true := by
  rw [declaresModule, startsWith, List.isPrefixOf_iff_prefix]
  simp only [line, String.toList_append, List.append_assoc]
  exact List.prefix_append _ _

lemma not_declaresModule_builder {l : Line} (h : l ∈ line "MethodTypeMap::builder()" ::
    indented ((b.domains.map fun d => d.methods.map (registration d)).flatten ++
      [line ".build()"])) : declaresModule l = false := by
  rcases List.mem_cons.mp h with rfl | h
  · decide
  obtain ⟨l', hl', rfl⟩ := List.mem_map.mp h
  rcases List.mem_append.mp hl' with hl' | hl'
  · obtain ⟨lines, hlines, hmem⟩ := List.mem_flatten.mp hl'
    obtain ⟨d, _, rfl⟩ := List.mem_map.mp hlines
    obtain ⟨m, _, rfl⟩ := List.mem_map.mp hmem
    have hchars : (registration d m).text.toList = '.' ::
        (m.kind.name ++ "::<" ++ d.module ++ "::" ++ m.type ++ ">()").toList := by
      simp [registration, line]
    exact not_declaresModule hchars (by decide)
  · obtain rfl := List.mem_singleton.mp hl'
    decide

lemma filter_rootLines (b : Bindings) :
    (rootLines b).filter declaresModule =
      (modules b).map fun name => line ("pub mod " ++ name ++ ";") := by
  have hmarked : declaresModule
      (line (marker ++ " from protocol " ++ b.version.text ++ ". Do not edit.")) = false := by
    have hchars : (line (marker ++ " from protocol " ++ b.version.text ++
        ". Do not edit.")).text.toList = '/' :: (marker.toList.tail ++
          (" from protocol " ++ b.version.text ++ ". Do not edit.").toList) := by
      simp [line, marker]
    exact not_declaresModule hchars (by decide)
  have htitle : declaresModule (line ("//! Bindings for protocol version " ++ b.version.text)) =
      false := by
    have hchars : (line ("//! Bindings for protocol version " ++ b.version.text)).text.toList =
        '/' :: ("/! Bindings for protocol version ".toList ++ b.version.text.toList) := by
      simp [line]
    exact not_declaresModule hchars (by decide)
  have hdomains : (b.domains.map fun d => line ("pub mod " ++ d.module ++ ";")).filter
      declaresModule = b.domains.map fun d => line ("pub mod " ++ d.module ++ ";") := by
    refine List.filter_eq_self.mpr fun l hl => ?_
    obtain ⟨d, _, rfl⟩ := List.mem_map.mp hl
    exact declaresModule_module d.module
  have hbuilder : (indented (line "MethodTypeMap::builder()" ::
      indented ((b.domains.map fun d => d.methods.map (registration d)).flatten ++
        [line ".build()"]))).filter declaresModule = [] := by
    refine List.filter_eq_nil_iff.mpr fun l hl => ?_
    obtain ⟨l', hl', rfl⟩ := List.mem_map.mp hl
    have hnot : declaresModule l' = false := not_declaresModule_builder hl'
    exact ne_true_of_eq_false hnot
  have hblank : declaresModule blank = false := by decide
  have hmethods : declaresModule (line "pub mod methods;") = true := by decide
  have huse : declaresModule (line "use debugwire_protocol::MethodTypeMap;") = false := by decide
  have hdoc : declaresModule
      (line "/// Every command and event of this protocol version, keyed by wire method") = false :=
    by decide
  have hopening : declaresModule (line "pub fn method_type_map() -> MethodTypeMap \x7b") = false :=
    by decide
  have hclosing : declaresModule (line "\x7d") = false := by decide
  simp only [rootLines, header, block, List.filter_append, List.filter_cons, List.filter_nil,
    hmarked, htitle, hdomains, hbuilder, hblank, hmethods, huse, hdoc, hopening, hclosing,
    Bool.false_eq_true, if_false, if_true, List.nil_append, List.append_nil, modules,
    List.map_cons, List.map_map, Function.comp_def, List.singleton_append]
  rfl

end Source

namespace Compilation

variable {c : Compilation}

lemma files_of_modules (c : Compilation) :
    c.files.map (·.name) = "mod.rs" :: (modules c.bindings).map (bare · ++ ".rs") := by
  simp only [files, Source.files, modules, List.map_cons, List.map_map, Function.comp_def]
  rfl

lemma lastText?_of_nodup {files : List File} (h : (files.map (·.name)).Nodup) {file : File}
    (hmem : file ∈ files) : lastText? files file.name = some file.contents := by
  have hname : file.name ∈ files.map (·.name) := List.mem_map_of_mem hmem
  obtain ⟨text, htext⟩ := Option.isSome_iff_exists.mp (lastText?_isSome.mpr hname)
  have hfound := mem_of_lastText? htext
  have hsame := List.inj_on_of_nodup_map h hfound hmem rfl
  rw [htext, ← hsame]

/-- Whatever words the domains have, a run that succeeds leaves the last file of every name. -/
lemma entryAt?_of_last {dir name : String} {loc : Location} {m : Machine} {text : String}
    (hopen : m.disk.OpenDirectory dir loc) (hok : (c.run dir m).1.isOk = true)
    (hlast : lastText? c.files name = some text) :
    (c.run dir m).2.disk.entryAt? (loc ++ [name]) = some (.file (Utf8.encode text)) := by
  have hmarked := (marked_after_run hopen hok).mpr ⟨text, hlast, rfl⟩
  exact hmarked.entry

/-- The root file declares its modules in order, each by the name of a file behind it. No two files
have one name exactly if the words of the domains are apart; if they are, a run that succeeds leaves
the text of every file. -/
theorem files_are_apart_as_words_are (c : Compilation) :
    ((rootLines c.bindings).filter declaresModule =
      (modules c.bindings).map fun name => line ("pub mod " ++ name ++ ";")) ∧
    c.files.map (·.name) = "mod.rs" :: (modules c.bindings).map (bare · ++ ".rs") ∧
    ((c.files.map (·.name)).Nodup ↔ c.WordsApart) ∧
    (c.WordsApart → ((modules c.bindings).map (bare · ++ ".rs")).Nodup) ∧
    ∀ (dir : String) (loc : Location) (m : Machine), m.disk.OpenDirectory dir loc →
      (c.run dir m).1.isOk = true →
      (∀ name text, lastText? c.files name = some text →
        (c.run dir m).2.disk.entryAt? (loc ++ [name]) = some (.file (Utf8.encode text))) ∧
      (c.WordsApart → ∀ file ∈ c.files, (c.run dir m).2.disk.entryAt? (loc ++ [file.name]) =
        some (.file (Utf8.encode file.contents))) := by
  have hnames := files_of_modules c
  refine ⟨filter_rootLines _, hnames, nodup_names_iff, fun hapart => ?_, ?_⟩
  · have hnodup := nodup_names_iff.mpr hapart
    rw [hnames] at hnodup
    exact (List.nodup_cons.mp hnodup).2
  intro dir loc m hopen hok
  refine ⟨fun name text hlast => entryAt?_of_last hopen hok hlast, fun hapart file hfile => ?_⟩
  have hlast := lastText?_of_nodup (nodup_names_iff.mpr hapart) hfile
  exact entryAt?_of_last hopen hok hlast

/-- A compilation of one domain with the name of the other module of the root file. -/
def ofMethods : Compilation := { description := { domains := [{ name := "Methods" }] } }

/-- The file of the domain has the name of the file of wire methods. -/
theorem domain_overwrites_the_wire_methods :
    ofMethods.files.map (·.name) = ["mod.rs", "methods.rs", "methods.rs"] ∧
    modules ofMethods.bindings = ["methods", "methods"] ∧
    (ofMethods.run "out" (.ofOut [])).1.isOk = true ∧
    (ofMethods.run "out" (.ofOut [])).2.disk.entryAt? ["out", "methods.rs"] ≠
      some (.file (Utf8.encode (render (methodLines ofMethods.bindings)))) := by
  have hnames : ofMethods.files.map (·.name) = ["mod.rs", "methods.rs", "methods.rs"] := by decide
  have hopen : (Machine.ofOut []).disk.OpenDirectory "out" ["out"] :=
    isOpen_ofOut (by simp) (by simp)
  have hok : (ofMethods.run "out" (.ofOut [])).1.isOk = true := by
    refine (isOk_run_iff hopen).mpr fun file hfile => ⟨?_, by rw [entryAt?_ofOut]; simp⟩
    have hname := hnames ▸ List.mem_map_of_mem hfile
    have hfits : ∀ name ∈ ["mod.rs", "methods.rs", "methods.rs"], Disk.Fits "out" name := by decide
    exact hfits _ hname
  refine ⟨hnames, by decide, hok, fun hwire => ?_⟩
  obtain ⟨text, hlast, hother⟩ : ∃ text, lastText? ofMethods.files "methods.rs" = some text ∧
      text ≠ render (methodLines ofMethods.bindings) := ⟨_, rfl, by decide +kernel⟩
  have hdomain := entryAt?_of_last hopen hok hlast
  have hsame : Utf8.encode text = Utf8.encode (render (methodLines ofMethods.bindings)) := by
    have heq := hdomain.symm.trans hwire
    exact Entry.file.inj (Option.some.inj heq)
  have hdecoded := congrArg Utf8.decode hsame
  rw [Utf8.decode_encode, Utf8.decode_encode] at hdecoded
  exact hother (Except.ok.inj hdecoded)

end Compilation

end InspectorProtocol

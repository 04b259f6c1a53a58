import InspectorProtocol.Proofs.OutputDirectory

/-!
# No stale output

Runs of the compiler into one directory, some of which fail. What a failed run leaves behind is
marked, so the next run that succeeds either writes it anew or removes it. What is not marked and
has never been written is not touched.
-/

namespace InspectorProtocol

open Text Source

/-- What a run of the compiler is given. -/
structure Compilation where
  settings : Settings := {}
  description : Description := {}

namespace Compilation

def bindings (c : Compilation) : Bindings := Bindings.generate c.settings c.description

/-- The files of a run, in the order in which they are written. -/
def files (c : Compilation) : List File := Source.files c.bindings c.settings.docComments

def run (dir : String) (c : Compilation) (m : Machine) :
    Except Failure (Report × Written) × Machine :=
  Machine.run (compileTo c.settings c.description dir) m

/-- The machine after runs of the compiler, failed ones included. -/
def after (dir : String) (runs : List Compilation) (m : Machine) : Machine :=
  runs.foldl (fun m c => (c.run dir m).2) m

/-- The names under which runs of the compiler write files. -/
def written (dir : String) : List Compilation → Machine → List String
  | [], _ => []
  | c :: rest, m =>
    (writable dir m.disk c.files).map (·.name) ++ written dir rest (c.run dir m).2

variable {dir name : String} {loc place : Location} {m : Machine} {c : Compilation}
  {contents : Utf8.Bytes}

lemma isName_of_mem_files {file : File} (h : file ∈ c.files) : Path.IsName file.name := by
  obtain ⟨stem, hword, _, heq⟩ := exists_stem h
  exact heq ▸ isName_fileName hword

lemma isGenerated_of_mem {file : File} (h : file ∈ c.files) :
    isGenerated (Utf8.encode file.contents) = true :=
  isGenerated_of_mem_files h

section Run

variable (hopen : m.disk.OpenDirectory dir loc)
include hopen

/-- A run writes all its files and cleans up, or writes some of them and fails. -/
lemma run_cases :
    (writable dir m.disk c.files = c.files ∧ (c.run dir m).1.isOk = true ∧
      (c.run dir m).2.disk = cleaned dir loc c.files (m.disk.putAll loc c.files)) ∨
    (writable dir m.disk c.files ≠ c.files ∧ (c.run dir m).1.isOk = false ∧
      (c.run dir m).2.disk = m.disk.putAll loc (writable dir m.disk c.files)) := by
  have hrun := run_writeTo hopen fun file hfile => isName_of_mem_files (c := c) hfile
  have hbind : c.run dir m = Machine.run (writeTo dir c.files >>= fun summary =>
      pure (c.bindings.report, summary)) m := rfl
  rw [Machine.run_bind] at hbind
  rcases hrun with ⟨hall, hok⟩ | ⟨hnot, failure, herror⟩
  · left
    rw [hbind, hok]
    exact ⟨hall, rfl, rfl⟩
  · right
    rw [hbind, herror]
    exact ⟨hnot, rfl, rfl⟩

lemma isOk_run_iff : (c.run dir m).1.isOk = true ↔
    ∀ file ∈ c.files,
      Disk.Fits dir file.name ∧ m.disk.entryAt? (loc ++ [file.name]) ≠ some .directory := by
  have hall := writable_eq_self_iff hopen fun file hfile => isName_of_mem_files (c := c) hfile
  rw [← hall]
  rcases run_cases (c := c) hopen with ⟨heq, hok, _⟩ | ⟨hne, hok, _⟩
  · simp [heq, hok]
  · simp [hne, hok]

lemma isOpen_written : (m.disk.putAll loc (writable dir m.disk c.files)).OpenDirectory dir loc :=
  isOpen_putAll_writable hopen fun _ hfile => isName_of_mem_files hfile

lemma isOpen_run : (c.run dir m).2.disk.OpenDirectory dir loc := by
  have hwritten := isOpen_written (c := c) hopen
  rcases run_cases (c := c) hopen with ⟨hall, _, hdisk⟩ | ⟨_, _, hdisk⟩
  · rw [hall] at hwritten
    exact hdisk ▸ isOpen_cleaned hwritten
  · exact hdisk ▸ hwritten

lemma changed_by_run (hchanged : (c.run dir m).2.disk.entryAt? place ≠ m.disk.entryAt? place) :
    ∃ name, place = loc ++ [name] ∧
      (name ∈ (writable dir m.disk c.files).map (·.name) ∨
        ∃ contents, Marked m.disk dir loc name contents) := by
  have hopen' := isOpen_written (c := c) hopen
  have hput : ∀ files : List File, (m.disk.putAll loc files).entryAt? place ≠
      m.disk.entryAt? place → ∃ name, place = loc ++ [name] ∧ name ∈ files.map (·.name) := by
    intro files hne
    by_cases hplace : ∃ name, place = loc ++ [name]
    · obtain ⟨name, rfl⟩ := hplace
      refine ⟨name, rfl, ?_⟩
      by_contra hnew
      exact hne (entryAt?_putAll_of_notMem hnew)
    · exact absurd (entryAt?_putAll_of_ne fun name heq => hplace ⟨name, heq⟩) hne
  rcases run_cases (c := c) hopen with ⟨hall, _, hdisk⟩ | ⟨_, _, hdisk⟩
  · rw [hall] at hopen' ⊢
    rw [hdisk, entryAt?_cleaned] at hchanged
    split at hchanged
    · rename_i hstale
      obtain ⟨name, hmem, rfl⟩ := hstale
      obtain ⟨hnew, contents, hmarked⟩ := (mem_staleIn hopen').mp hmem
      refine ⟨name, rfl, .inr ⟨contents, (marked_iff hopen).mpr ?_⟩⟩
      have hsame : (m.disk.putAll loc c.files).entryAt? (loc ++ [name]) =
          m.disk.entryAt? (loc ++ [name]) := entryAt?_putAll_of_notMem hnew
      obtain ⟨hextension, hentry, hfits, hgenerated⟩ := (marked_iff hopen').mp hmarked
      exact ⟨hextension, hsame ▸ hentry, hfits, hgenerated⟩
    · obtain ⟨name, hplace, hmem⟩ := hput c.files hchanged
      exact ⟨name, hplace, .inl hmem⟩
  · rw [hdisk] at hchanged
    obtain ⟨name, hplace, hmem⟩ := hput _ hchanged
    exact ⟨name, hplace, .inl hmem⟩

lemma marked_after_run (hok : (c.run dir m).1.isOk = true) :
    Marked (c.run dir m).2.disk dir loc name contents ↔
      ∃ text, lastText? c.files name = some text ∧ contents = Utf8.encode text := by
  have hwritten := isOpen_written (c := c) hopen
  have hafter := isOpen_run (c := c) hopen
  rcases run_cases (c := c) hopen with ⟨hall, _, hdisk⟩ | ⟨_, hfailed, _⟩
  swap
  · exact absurd hok (by simp [hfailed])
  rw [hall] at hwritten
  rw [hdisk] at hafter ⊢
  constructor
  · intro hmarked
    obtain ⟨hextension, hentry, hfits, hgenerated⟩ := (marked_iff hafter).mp hmarked
    rw [entryAt?_cleaned] at hentry
    split at hentry
    · cases hentry
    rename_i hnotStale
    cases hlast : lastText? c.files name with
    | some text =>
      rw [entryAt?_putAll, hlast] at hentry
      exact ⟨text, rfl, (Entry.file.inj (Option.some.inj hentry)).symm⟩
    | none =>
      refine absurd ⟨name, (mem_staleIn hwritten).mpr ⟨?_, contents, ?_⟩, rfl⟩ hnotStale
      · rw [← lastText?_isSome, hlast]
        simp
      · exact (marked_iff hwritten).mpr ⟨hextension, hentry, hfits, hgenerated⟩
  · rintro ⟨text, hlast, rfl⟩
    have hmem := mem_of_lastText? hlast
    have hname : name ∈ c.files.map (·.name) := lastText?_isSome.mp (by rw [hlast]; rfl)
    obtain ⟨stem, _, hstem, heq⟩ := exists_stem hmem
    have hfits := ((isOk_run_iff hopen).mp hok _ hmem).1
    have hgenerated := isGenerated_of_mem hmem
    refine (marked_iff hafter).mpr ⟨?_, ?_, hfits, hgenerated⟩
    · simp only at heq
      exact heq ▸ hasExtension_fileName hstem
    · rw [entryAt?_cleaned, if_neg, entryAt?_putAll, hlast]
      rintro ⟨other, hstale, hplace⟩
      obtain rfl : name = other := by simpa using hplace
      exact ((mem_staleIn hwritten).mp hstale).1 hname

lemma entryAt?_after_run (hok : (c.run dir m).1.isOk = true)
    (hempty : ∀ name, m.disk.entryAt? (loc ++ [name]) = none) :
    (c.run dir m).2.disk.entryAt? (loc ++ [name]) =
      (lastText? c.files name).map (.file <| Utf8.encode ·) := by
  have hwritten := isOpen_written (c := c) hopen
  have hput : (m.disk.putAll loc c.files).entryAt? (loc ++ [name]) =
      (lastText? c.files name).map (.file <| Utf8.encode ·) := by
    rw [entryAt?_putAll]
    cases lastText? c.files name with
    | some text => rfl
    | none => exact hempty name
  rcases run_cases (c := c) hopen with ⟨hall, _, hdisk⟩ | ⟨_, hfailed, _⟩
  swap
  · exact absurd hok (by simp [hfailed])
  rw [hall] at hwritten
  rw [hdisk, entryAt?_cleaned, if_neg, hput]
  rintro ⟨other, hstale, hplace⟩
  obtain rfl : name = other := by simpa using hplace
  obtain ⟨hnew, contents, hmarked⟩ := (mem_staleIn hwritten).mp hstale
  have hentry := hmarked.entry
  rw [hput] at hentry
  obtain ⟨text, hlast, _⟩ := Option.map_eq_some_iff.mp hentry
  exact hnew (lastText?_isSome.mp (by rw [hlast]; rfl))

lemma directory_of_run
    (h : (c.run dir m).2.disk.entryAt? (loc ++ [name]) = some .directory) :
    m.disk.entryAt? (loc ++ [name]) = some .directory := by
  have hput : ∀ files : List File,
      (m.disk.putAll loc files).entryAt? (loc ++ [name]) = some .directory →
        m.disk.entryAt? (loc ++ [name]) = some .directory := by
    intro files hentry
    rw [entryAt?_putAll] at hentry
    split at hentry
    · cases hentry
    · exact hentry
  rcases run_cases (c := c) hopen with ⟨_, _, hdisk⟩ | ⟨_, _, hdisk⟩
  · rw [hdisk, entryAt?_cleaned] at h
    split at h
    · cases h
    · exact hput _ h
  · exact hput _ (hdisk ▸ h)

end Run

section History

variable {runs : List Compilation}

lemma isOpen_after (hopen : m.disk.OpenDirectory dir loc) :
    (after dir runs m).disk.OpenDirectory dir loc := by
  induction runs generalizing m with
  | nil => exact hopen
  | cons c rest ih => exact ih (isOpen_run hopen)

/-- What a history of runs changes one of them has written, or it was marked at the start. -/
lemma changed_after (hopen : m.disk.OpenDirectory dir loc)
    (hchanged : (after dir runs m).disk.entryAt? place ≠ m.disk.entryAt? place) :
    ∃ name, place = loc ++ [name] ∧
      (name ∈ written dir runs m ∨ ∃ contents, Marked m.disk dir loc name contents) := by
  induction runs generalizing m with
  | nil => exact absurd rfl hchanged
  | cons c rest ih =>
    have hnext := isOpen_run (c := c) hopen
    by_cases hsame : (c.run dir m).2.disk.entryAt? place = m.disk.entryAt? place
    · have hlater : (after dir rest (c.run dir m).2).disk.entryAt? place ≠
          (c.run dir m).2.disk.entryAt? place := by
        rw [hsame]
        exact hchanged
      obtain ⟨name, rfl, hwritten | ⟨contents, hmarked⟩⟩ := ih hnext hlater
      · exact ⟨name, rfl, .inl (List.mem_append_right _ hwritten)⟩
      · obtain ⟨hextension, hentry, hfits, hgenerated⟩ := (marked_iff hnext).mp hmarked
        refine ⟨name, rfl, .inr ⟨contents, (marked_iff hopen).mpr ?_⟩⟩
        exact ⟨hextension, hsame ▸ hentry, hfits, hgenerated⟩
    · obtain ⟨name, hplace, hwritten | hmarked⟩ := changed_by_run hopen hsame
      · exact ⟨name, hplace, .inl (List.mem_append_left _ hwritten)⟩
      · exact ⟨name, hplace, .inr hmarked⟩

lemma directory_of_after (hopen : m.disk.OpenDirectory dir loc)
    (h : (after dir runs m).disk.entryAt? (loc ++ [name]) = some .directory) :
    m.disk.entryAt? (loc ++ [name]) = some .directory := by
  induction runs generalizing m with
  | nil => exact h
  | cons c rest ih => exact directory_of_run hopen (ih (isOpen_run hopen) h)

lemma hasExtension_of_mem_written (h : name ∈ written dir runs m) :
    Path.hasExtension name "rs" = true := by
  induction runs generalizing m with
  | nil => cases h
  | cons c rest ih =>
    rcases List.mem_append.mp h with h | h
    · obtain ⟨file, hfile, rfl⟩ := List.mem_map.mp h
      have hmem : file ∈ c.files := (List.takeWhile_sublist _).subset hfile
      obtain ⟨stem, _, hstem, heq⟩ := exists_stem hmem
      exact heq ▸ hasExtension_fileName hstem
    · exact ih h

end History

end Compilation

lemma isOpen_of_resolve {d : Disk} {dir : String} {loc : Location} (hsound : d.Sound)
    (hdir : d.resolve dir = .ok (.found loc .directory))
    (hplain : ∀ name target, d.entryAt? (loc ++ [name]) ≠ some (.link target)) :
    d.OpenDirectory dir loc :=
  ⟨hsound, Disk.reaches_of_resolve hdir, hplain⟩

open Compilation

/-- However a directory without links has been written to before, after a run that succeeds its
marked source files are those that the run leaves in an empty directory. And what has changed since
the start some run has written, or it was marked at the start. -/
theorem marked_files_are_those_of_the_last_run {dir : String} {loc : Location} {start : Machine}
    {runs : List Compilation} {last : Compilation} (hsound : start.disk.Sound)
    (hdir : start.disk.resolve dir = .ok (.found loc .directory))
    (hplain : ∀ name target, start.disk.entryAt? (loc ++ [name]) ≠ some (.link target))
    (hlast : (last.run dir (after dir runs start)).1.isOk = true) :
    let final := after dir (runs ++ [last]) start
    (∀ (fresh : Machine) (dir' : String) (loc' : Location), fresh.disk.Sound →
      fresh.disk.resolve dir' = .ok (.found loc' .directory) → fresh.disk.namesIn loc' = [] →
      (dir' = dir → (last.run dir' fresh).1.isOk = true) ∧
      ((last.run dir' fresh).1.isOk = true → ∀ name contents,
        Marked final.disk dir loc name contents ↔
          (last.run dir' fresh).2.disk.entryAt? (loc' ++ [name]) = some (.file contents))) ∧
    ∀ place, final.disk.entryAt? place ≠ start.disk.entryAt? place →
      ∃ name, place = loc ++ [name] ∧
        (name ∈ written dir (runs ++ [last]) start ∨
          ∃ contents, Marked start.disk dir loc name contents) := by
  intro final
  have hstart := isOpen_of_resolve hsound hdir hplain
  have hbefore : (after dir runs start).disk.OpenDirectory dir loc := isOpen_after hstart
  have hfinal : final = (last.run dir (after dir runs start)).2 := by
    simp [final, after]
  refine ⟨?_, fun place hchanged => changed_after hstart hchanged⟩
  intro fresh dir' loc' hsound' hdir' hnames
  have hempty : ∀ name, fresh.disk.entryAt? (loc' ++ [name]) = none := by
    intro name
    by_contra hentry
    obtain ⟨entry, hsome⟩ := Option.ne_none_iff_exists'.mp hentry
    have hmem : name ∈ fresh.disk.namesIn loc' := Disk.mem_namesIn.mpr ⟨entry, hsome⟩
    simp [hnames] at hmem
  have hfresh := isOpen_of_resolve hsound' hdir' fun name target => by simp [hempty name]
  constructor
  · rintro rfl
    refine (isOk_run_iff hfresh).mpr fun file hfile => ?_
    exact ⟨((isOk_run_iff hbefore).mp hlast file hfile).1, by simp [hempty]⟩
  · intro hok name contents
    rw [hfinal, marked_after_run hbefore hlast, entryAt?_after_run hfresh hok hempty]
    constructor
    · rintro ⟨text, htext, rfl⟩
      rw [htext]
      rfl
    · intro hentry
      obtain ⟨text, htext, hfile⟩ := Option.map_eq_some_iff.mp hentry
      exact ⟨text, htext, (Entry.file.inj hfile).symm⟩

/-- A machine with nothing but a directory `out` and some files in it. -/
def Machine.ofOut (files : List (String × Utf8.Bytes)) : Machine :=
  { disk :=
      { entries := (["out"], .directory) ::
          files.map fun (name, contents) => (["out", name], .file contents) } }

section Out

variable {files : List (String × Utf8.Bytes)}

lemma entryAt?_ofOut (name : String) :
    (Machine.ofOut files).disk.entryAt? (["out"] ++ [name]) = (files.lookup name).map .file := by
  have hskip : (Machine.ofOut files).disk.entryAt? (["out"] ++ [name]) =
      (files.map fun (name, contents) => (["out", name], Entry.file contents)).lookup
        ["out", name] := rfl
  rw [hskip]
  induction files with
  | nil => rfl
  | cons file rest ih =>
    obtain ⟨other, contents⟩ := file
    by_cases hname : name = other
    · subst hname
      simp
    · have hplace : (["out", name] == ["out", other]) = false := by simpa using hname
      have hother : (name == other) = false := by simpa using hname
      simp only [List.map_cons, List.lookup_cons, hplace, hother]
      exact ih rfl

lemma resolve_ofOut :
    (Machine.ofOut files).disk.resolve "out" = .ok (.found ["out"] .directory) := by
  have hentry : (Machine.ofOut files).disk.entryAt? ["out"] = some .directory := rfl
  have hsteps : Path.steps "out" = ["out"] := by decide
  have hlead : Path.isAbsolute "out" = false := by decide
  rw [Disk.resolve, Disk.locate, if_neg (by decide), if_neg (by decide), if_neg (by decide), hsteps,
    hlead]
  have hstart : (Machine.ofOut files).disk.current = [] := rfl
  simp only [Bool.false_eq_true, if_false, hstart]
  rw [Disk.walk_plain (by decide) (by decide), List.nil_append, hentry]
  simp only [Disk.walk]

lemma isOpen_ofOut (hnames : ∀ file ∈ files, Path.IsName file.1)
    (hdistinct : (files.map (·.1)).Nodup) :
    (Machine.ofOut files).disk.OpenDirectory "out" ["out"] := by
  refine isOpen_of_resolve ⟨?_, ?_⟩ resolve_ofOut fun name target => ?_
  · intro e he name hlast
    rcases List.mem_cons.mp he with rfl | he
    · obtain rfl : "out" = name := by simpa using hlast
      exact ⟨by decide, by decide, by decide, by decide, by decide⟩
    · obtain ⟨file, hfile, rfl⟩ := List.mem_map.mp he
      obtain rfl : file.1 = name := by simpa using hlast
      exact hnames file hfile
  · refine List.nodup_cons.mpr ⟨by simp, ?_⟩
    have hplaces : (files.map fun (name, contents) => (["out", name], Entry.file contents)).map
        (·.1) = (files.map (·.1)).map fun name => ["out", name] := by
      rw [List.map_map, List.map_map]
      rfl
    rw [hplaces]
    exact hdistinct.map fun a b heq => by simpa using heq
  · rw [entryAt?_ofOut]
    cases files.lookup name <;> simp

/-- A compilation of no domains. -/
def ofNothing : Compilation := {}

lemma names_of_nothing : ofNothing.files.map (·.name) = ["mod.rs", "methods.rs"] := by
  have hnames := @names_files {} {} true
  exact hnames

lemma isOk_of_nothing (hopen : m.disk.OpenDirectory "out" ["out"])
    (hfree : ∀ name ∈ ["mod.rs", "methods.rs"],
      m.disk.entryAt? (["out"] ++ [name]) ≠ some .directory) (runs : List Compilation) :
    (ofNothing.run "out" (after "out" runs m)).1.isOk = true := by
  refine (isOk_run_iff (isOpen_after hopen)).mpr fun file hfile => ?_
  have hname := names_of_nothing ▸ List.mem_map_of_mem hfile
  have hfits : ∀ name ∈ ["mod.rs", "methods.rs"], Disk.Fits "out" name := by decide
  exact ⟨hfits _ hname, fun hentry => hfree _ hname (directory_of_after hopen hentry)⟩

lemma ofOut_free (name : String) :
    (Machine.ofOut files).disk.entryAt? (["out"] ++ [name]) ≠ some .directory := by
  rw [entryAt?_ofOut]
  simp

lemma entryAt?_of_nothing (hname : name ∉ ["mod.rs", "methods.rs"]) :
    (ofNothing.run "out" (.ofOut [])).2.disk.entryAt? ["out", name] = none := by
  have hopen : (Machine.ofOut []).disk.OpenDirectory "out" ["out"] :=
    isOpen_ofOut (by simp) (by simp)
  have hlast : lastText? ofNothing.files name = none := by
    rw [← Option.not_isSome_iff_eq_none, lastText?_isSome, names_of_nothing]
    exact hname
  have hempty : ∀ name, (Machine.ofOut []).disk.entryAt? (["out"] ++ [name]) = none :=
    fun name => entryAt?_ofOut name
  have hentry : (ofNothing.run "out" (.ofOut [])).2.disk.entryAt? (["out"] ++ [name]) = _ :=
    entryAt?_after_run hopen (isOk_of_nothing hopen (fun name _ => ofOut_free name) []) hempty
  rw [hlast] at hentry
  exact hentry

end Out

/-- A file that was generated once, and another. -/
def usedDirectory : Machine :=
  .ofOut [("old.rs", Utf8.encode (marker ++ "\n")), ("notes.txt", Utf8.encode "keep")]

/-- The same, and a directory. -/
def obstructedDirectory : Machine :=
  usedDirectory.withDisk (usedDirectory.disk.put ["out", "blocked.rs"] .directory)

/-- A compilation of two domains, for the files `old.rs` and `blocked.rs`. -/
def ofTwo : Compilation :=
  { description := { domains := [{ name := "Old" }, { name := "Blocked" }] } }

/-- A run that would write where the directory is fails. After one more without any domain the old
file is gone and the notes are there. -/
theorem old_file_goes_and_notes_stay :
    (ofTwo.run "out" obstructedDirectory).1.isOk = false ∧
    (ofNothing.run "out" (after "out" [ofTwo] obstructedDirectory)).1.isOk = true ∧
    (∀ contents, ¬ Marked (after "out" [ofTwo, ofNothing] obstructedDirectory).disk "out" ["out"]
      "old.rs" contents) ∧
    (after "out" [ofTwo, ofNothing] obstructedDirectory).disk.entryAt? ["out", "notes.txt"] =
      some (.file (Utf8.encode "keep")) := by
  have hused : usedDirectory.disk.OpenDirectory "out" ["out"] :=
    isOpen_ofOut (by decide) (by decide)
  have hopen : obstructedDirectory.disk.OpenDirectory "out" ["out"] :=
    hused.put (by decide) (by simp) (ofOut_free _)
  have hblocked : "blocked.rs" ∈ ofTwo.files.map (·.name) := by decide +kernel
  have hfails : (ofTwo.run "out" obstructedDirectory).1.isOk = false := by
    obtain ⟨file, hfile, hname⟩ := List.mem_map.mp hblocked
    refine Bool.eq_false_iff.mpr fun hok => ((isOk_run_iff hopen).mp hok file hfile).2 ?_
    rw [hname]
    rfl
  have hok := isOk_of_nothing hopen (by decide) [ofTwo]
  have hopen' : (Machine.ofOut []).disk.OpenDirectory "out" ["out"] :=
    isOpen_ofOut (by simp) (by simp)
  have hempty : (Machine.ofOut []).disk.namesIn ["out"] = [] := by decide
  obtain ⟨hfresh, hkept⟩ := marked_files_are_those_of_the_last_run hopen.sound
    hopen.reaches.resolve hopen.plain hok
  refine ⟨hfails, hok, fun contents hmarked => ?_, ?_⟩
  · obtain ⟨hsucceeds, hsame⟩ := hfresh _ "out" ["out"] hopen'.sound resolve_ofOut hempty
    have hentry := (hsame (hsucceeds rfl) "old.rs" contents).mp hmarked
    have hother : "old.rs" ∉ ["mod.rs", "methods.rs"] := by decide
    exact absurd ((entryAt?_of_nothing hother).symm.trans hentry) (by simp)
  · have hstart : obstructedDirectory.disk.entryAt? ["out", "notes.txt"] =
        some (.file (Utf8.encode "keep")) := rfl
    rw [← hstart]
    by_contra hchanged
    have hextension : ¬ Path.hasExtension "notes.txt" "rs" = true := by decide
    obtain ⟨name, hplace, hwritten | ⟨contents, hmarked⟩⟩ := hkept _ hchanged
    · obtain rfl : "notes.txt" = name := by simpa using hplace
      exact hextension (hasExtension_of_mem_written hwritten)
    · obtain rfl : "notes.txt" = name := by simpa using hplace
      exact hextension hmarked.extension

/-- What begins with the marker but is no text. -/
def undecodable : Utf8.Bytes := Utf8.encode marker ++ [0xFF, 10]

/-- A file whose first line begins with the bytes of the marker and is no text stays, although no
run writes it. -/
theorem undecodable_file_stays :
    (ofNothing.run "out" (.ofOut [("old.rs", undecodable)])).1.isOk = true ∧
    (ofNothing.run "out" (.ofOut [("old.rs", undecodable)])).2.disk.entryAt? ["out", "old.rs"] =
      some (.file undecodable) ∧
    Utf8.encode marker <+: firstLine undecodable ∧
    Path.hasExtension "old.rs" "rs" = true ∧
    (ofNothing.run "out" (.ofOut [])).1.isOk = true ∧
    (ofNothing.run "out" (.ofOut [])).2.disk.entryAt? ["out", "old.rs"] = none := by
  have hopen : (Machine.ofOut [("old.rs", undecodable)]).disk.OpenDirectory "out" ["out"] :=
    isOpen_ofOut (by decide) (by simp)
  have hopen' : (Machine.ofOut []).disk.OpenDirectory "out" ["out"] :=
    isOpen_ofOut (by simp) (by simp)
  have hstart : (Machine.ofOut [("old.rs", undecodable)]).disk.entryAt? ["out", "old.rs"] =
      some (.file undecodable) := rfl
  have hstays : (ofNothing.run "out" (.ofOut [("old.rs", undecodable)])).2.disk.entryAt?
      ["out", "old.rs"] = some (.file undecodable) := by
    rw [← hstart]
    by_contra hchanged
    have hodd : isGenerated undecodable = false := by decide
    obtain ⟨name, hplace, hwritten | ⟨contents, hmarked⟩⟩ := changed_by_run hopen hchanged
    · obtain rfl : "old.rs" = name := by simpa using hplace
      have hname : "old.rs" ∈ ofNothing.files.map (·.name) :=
        ((List.takeWhile_sublist _).map _).subset hwritten
      rw [names_of_nothing] at hname
      exact absurd hname (by decide)
    · obtain rfl : "old.rs" = name := by simpa using hplace
      have hentry := hstart.symm.trans hmarked.entry
      obtain rfl : undecodable = contents := by simpa using hentry
      exact absurd hmarked.generated (by simp [hodd])
  exact ⟨isOk_of_nothing hopen (fun name _ => ofOut_free name) [], hstays, by decide, by decide,
    isOk_of_nothing hopen' (fun name _ => ofOut_free name) [], entryAt?_of_nothing (by decide)⟩

end InspectorProtocol

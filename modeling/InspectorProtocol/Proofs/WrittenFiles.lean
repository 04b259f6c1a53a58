import InspectorProtocol.Proofs.StaleFiles

/-!
# What is left where files are written

Writing files into a directory replaces what has one of their names and removes the source files
among the others that were generated once and whose path is short enough to be looked into. Nothing
else changes, and doing the same again changes nothing at all.
-/

namespace InspectorProtocol

open Text

namespace Path

lemma exists_lead (base : String) :
    ∃ lead, ∀ name : String, '/' ∉ name.toList →
      (join base name).toList = lead ++ name.toList := by
  by_cases hbase : base = ""
  · exact ⟨[], fun name _ => by simp [join, hbase]⟩
  have hempty : base.isEmpty = false := by simpa using hbase
  by_cases hopen : endsOpen base = true
  · exact ⟨base.toList, fun name h => by simp [join, isAbsolute_name h, hempty, hopen]⟩
  · exact ⟨base.toList ++ ['/'], fun name h => by simp [join, isAbsolute_name h, hempty, hopen]⟩

lemma join_lt_join {base a b : String} (ha : '/' ∉ a.toList) (hb : '/' ∉ b.toList) (h : a < b) :
    join base a < join base b := by
  obtain ⟨lead, hlead⟩ := exists_lead base
  rw [String.lt_iff, hlead a ha, hlead b hb]
  exact List.append_left_lt (String.lt_iff.mp h)

end Path

namespace Source

variable {dir name : String} {loc place : Location} {d : Disk} {m : Machine} {files : List File}

/-- A source file that none of `files` replaces, whose path can be followed and whose first line is
a text that begins with the marker. -/
structure Superseded (d : Disk) (dir : String) (loc : Location) (files : List File)
    (name : String) : Prop where
  unlisted : name ∉ files.map (·.name)
  extension : Path.hasExtension name "rs" = true
  fits : Disk.Fits dir name
  generated : ∃ contents line, d.entryAt? (loc ++ [name]) = some (.file contents) ∧
    Utf8.decode (firstLine contents) = .ok line ∧ marker.toList <+: line.toList

lemma isGenerated_iff {contents : Utf8.Bytes} :
    isGenerated contents = true ↔
      ∃ line, Utf8.decode (firstLine contents) = .ok line ∧ marker.toList <+: line.toList := by
  rw [isGenerated]
  cases Utf8.decode (firstLine contents) with
  | error fault => simp
  | ok line => simp [startsWith]

/-- What is left of a disk once all of `files` are written and what is stale is removed. -/
def rewritten (dir : String) (loc : Location) (files : List File) (d : Disk) : Disk :=
  cleaned dir loc files (d.putAll loc files)

section Entries

variable (hput : (d.putAll loc files).OpenDirectory dir loc)
include hput

lemma mem_staleIn_putAll :
    name ∈ staleIn dir loc files (d.putAll loc files) ↔ Superseded d dir loc files name := by
  rw [mem_staleIn hput]
  constructor
  · rintro ⟨hnew, contents, hmarked⟩
    obtain ⟨hextension, hentry, hfits, hgenerated⟩ := (marked_iff hput).mp hmarked
    rw [entryAt?_putAll_of_notMem hnew] at hentry
    obtain ⟨line, hline, hlead⟩ := isGenerated_iff.mp hgenerated
    exact ⟨hnew, hextension, hfits, contents, line, hentry, hline, hlead⟩
  · rintro ⟨hnew, hextension, hfits, contents, line, hentry, hline, hlead⟩
    refine ⟨hnew, contents, (marked_iff hput).mpr ⟨hextension, ?_, hfits, ?_⟩⟩
    · rw [entryAt?_putAll_of_notMem hnew, hentry]
    · exact isGenerated_iff.mpr ⟨line, hline, hlead⟩

lemma entryAt?_rewritten_of_superseded (h : Superseded d dir loc files name) :
    (rewritten dir loc files d).entryAt? (loc ++ [name]) = none := by
  rw [rewritten, entryAt?_cleaned, if_pos ⟨name, (mem_staleIn_putAll hput).mpr h, rfl⟩]

lemma entryAt?_rewritten_of_notSuperseded (h : ¬ Superseded d dir loc files name) :
    (rewritten dir loc files d).entryAt? (loc ++ [name]) =
      (d.putAll loc files).entryAt? (loc ++ [name]) := by
  rw [rewritten, entryAt?_cleaned, if_neg]
  rintro ⟨other, hstale, hplace⟩
  obtain rfl : name = other := by simpa using hplace
  exact h ((mem_staleIn_putAll hput).mp hstale)

lemma entryAt?_rewritten_of_listed {text : String} (h : lastText? files name = some text) :
    (rewritten dir loc files d).entryAt? (loc ++ [name]) = some (.file (Utf8.encode text)) := by
  have hlisted : name ∈ files.map (·.name) := lastText?_isSome.mp (by rw [h]; rfl)
  rw [entryAt?_rewritten_of_notSuperseded hput fun hold => hold.unlisted hlisted,
    entryAt?_putAll, h]

lemma entryAt?_rewritten_of_other (h : ∀ name, place = loc ++ [name] →
      name ∉ files.map (·.name) ∧ ¬ Superseded d dir loc files name) :
    (rewritten dir loc files d).entryAt? place = d.entryAt? place := by
  by_cases hplace : ∃ name, place = loc ++ [name]
  · obtain ⟨name, rfl⟩ := hplace
    obtain ⟨hunlisted, hkept⟩ := h name rfl
    rw [entryAt?_rewritten_of_notSuperseded hput hkept, entryAt?_putAll_of_notMem hunlisted]
  · have hne : ∀ name, place ≠ loc ++ [name] := fun name heq => hplace ⟨name, heq⟩
    rw [rewritten, entryAt?_cleaned, if_neg fun ⟨name, _, heq⟩ => hne name heq,
      entryAt?_putAll_of_ne hne]

lemma superseded_of_gone (hthere : d.entryAt? (loc ++ [name]) ≠ none)
    (hgone : (rewritten dir loc files d).entryAt? (loc ++ [name]) = none) :
    Superseded d dir loc files name := by
  by_contra hkept
  cases hlast : lastText? files name with
  | some text =>
    rw [entryAt?_rewritten_of_listed hput hlast] at hgone
    cases hgone
  | none =>
    have hunlisted : name ∉ files.map (·.name) := by
      rw [← lastText?_isSome, hlast]
      simp
    rw [entryAt?_rewritten_of_notSuperseded hput hkept, entryAt?_putAll_of_notMem hunlisted]
      at hgone
    exact hthere hgone

lemma not_superseded_rewritten : ¬ Superseded (rewritten dir loc files d) dir loc files name := by
  rintro ⟨hunlisted, hextension, hfits, contents, line, hentry, hgenerated⟩
  by_cases hold : Superseded d dir loc files name
  · rw [entryAt?_rewritten_of_superseded hput hold] at hentry
    cases hentry
  · rw [entryAt?_rewritten_of_notSuperseded hput hold, entryAt?_putAll_of_notMem hunlisted]
      at hentry
    exact hold ⟨hunlisted, hextension, hfits, contents, line, hentry, hgenerated⟩

lemma entryAt?_rewritten_rewritten
    (hagain : ((rewritten dir loc files d).putAll loc files).OpenDirectory dir loc) :
    (rewritten dir loc files (rewritten dir loc files d)).entryAt? place =
      (rewritten dir loc files d).entryAt? place := by
  by_cases hlisted : ∃ name, place = loc ++ [name] ∧ name ∈ files.map (·.name)
  · obtain ⟨name, rfl, hmem⟩ := hlisted
    obtain ⟨text, hlast⟩ := Option.isSome_iff_exists.mp (lastText?_isSome.mpr hmem)
    rw [entryAt?_rewritten_of_listed hput hlast, entryAt?_rewritten_of_listed hagain hlast]
  · refine entryAt?_rewritten_of_other hagain fun name hplace => ⟨?_, ?_⟩
    · exact fun hmem => hlisted ⟨name, hplace, hmem⟩
    · exact not_superseded_rewritten hput

lemma removed_sorted :
    ((staleIn dir loc files (d.putAll loc files)).map (Path.join dir)).Pairwise (· < ·) := by
  have hsorted : (staleIn dir loc files (d.putAll loc files)).Pairwise (· < ·) :=
    (mergeSort_ascending (hput.sound.nodup_namesIn loc)).filter _
  refine List.pairwise_map.mpr (hsorted.imp_of_mem fun {a b} ha hb hlt => ?_)
  have hname : ∀ {name}, name ∈ staleIn dir loc files (d.putAll loc files) →
      Path.IsName name := fun hmem => (readable_of_mem_staleIn hput hmem).1
  exact Path.join_lt_join (hname ha).slash (hname hb).slash hlt

lemma mem_removed {path : String} :
    path ∈ (staleIn dir loc files (d.putAll loc files)).map (Path.join dir) ↔
      ∃ name, path = Path.join dir name ∧ d.entryAt? (loc ++ [name]) ≠ none ∧
        (rewritten dir loc files d).entryAt? (loc ++ [name]) = none := by
  rw [List.mem_map]
  constructor
  · rintro ⟨name, hstale, rfl⟩
    have hold := (mem_staleIn_putAll hput).mp hstale
    obtain ⟨contents, line, hentry, -⟩ := hold.generated
    exact ⟨name, rfl, by simp [hentry], entryAt?_rewritten_of_superseded hput hold⟩
  · rintro ⟨name, rfl, hthere, hgone⟩
    exact ⟨name, (mem_staleIn_putAll hput).mpr (superseded_of_gone hput hthere hgone), rfl⟩

end Entries

section Runs

variable (hopen : m.disk.OpenDirectory dir loc)
include hopen

lemma isName_of_run_writeFiles (hslash : ∀ file ∈ files, '/' ∉ file.name.toList)
    {written : List String} {m' : Machine}
    (hrun : Machine.run (writeFiles dir files) m = (.ok written, m')) :
    ∀ file ∈ files, Path.IsName file.name := by
  induction files generalizing m written m' with
  | nil => simp
  | cons file rest ih =>
    obtain ⟨_, between, hhead, hlater⟩ := Machine.run_bind_inv hrun
    obtain ⟨_, _, htail, -⟩ := Machine.run_bind_inv hlater
    rw [run_writeFile] at hhead
    cases hwrite : m.disk.write (Path.join dir file.name) (Utf8.encode file.contents) with
    | error fault => simp [hwrite] at hhead
    | ok disk =>
      obtain rfl : m.withDisk disk = between := by simpa [hwrite] using hhead
      have hname := hopen.reaches.isName_of_write (hslash file List.mem_cons_self) hwrite
      have hok : (m.disk.write (Path.join dir file.name) (Utf8.encode file.contents)).isOk =
          true := by
        rw [hwrite]
        rfl
      have hdisk : disk = m.disk.put (loc ++ [file.name]) (.file (Utf8.encode file.contents)) :=
        Except.ok.inj (hwrite.symm.trans (hopen.write_of_isOk hname hok))
      have hnext : (m.withDisk disk).disk.OpenDirectory dir loc :=
        hdisk ▸ hopen.put hname (by simp) ((hopen.isOk_write_iff hname).mp hok).2
      have hrest := ih hnext (fun f hf => hslash f (List.mem_cons_of_mem _ hf)) htail
      exact List.forall_mem_cons.mpr ⟨hname, hrest⟩

/-- What a run that succeeds answers and leaves. -/
lemma run_writeTo_inv (hslash : ∀ file ∈ files, '/' ∉ file.name.toList) {summary : Written}
    {m' : Machine} (hrun : Machine.run (writeTo dir files) m = (.ok summary, m')) :
    (∀ file ∈ files, Path.IsName file.name) ∧ writable dir m.disk files = files ∧
      summary = ⟨files.map fun file => Path.join dir file.name,
        (staleIn dir loc files (m.disk.putAll loc files)).map (Path.join dir)⟩ ∧
      m' = m.withDisk (rewritten dir loc files m.disk) := by
  have hnames : ∀ file ∈ files, Path.IsName file.name := by
    obtain ⟨_, between, hmade, hlater⟩ := Machine.run_bind_inv hrun
    obtain ⟨_, _, hwritten, -⟩ := Machine.run_bind_inv hlater
    rw [run_createDirectories hopen] at hmade
    obtain rfl : m = between := (Prod.mk.inj hmade).2
    exact isName_of_run_writeFiles hopen hslash hwritten
  rcases run_writeTo hopen hnames with ⟨hall, hok⟩ | ⟨_, failure, hfailed⟩
  · obtain ⟨hsummary, hleft⟩ := Prod.mk.inj (hrun.symm.trans hok)
    exact ⟨hnames, hall, Except.ok.inj hsummary, hleft⟩
  · exact absurd (Prod.mk.inj (hrun.symm.trans hfailed)).1 (by simp)

end Runs

lemma writable_rewritten (hopen : d.OpenDirectory dir loc)
    (hnames : ∀ file ∈ files, Path.IsName file.name) (hall : writable dir d files = files) :
    writable dir (rewritten dir loc files d) files = files := by
  have hput := isOpen_putAll_writable hopen hnames
  rw [hall] at hput
  refine (writable_eq_self_iff (isOpen_cleaned hput) hnames).mpr fun file hfile => ?_
  have hfits := ((writable_eq_self_iff hopen hnames).mp hall file hfile).1
  have hlisted : file.name ∈ files.map (·.name) := List.mem_map_of_mem hfile
  obtain ⟨text, hlast⟩ := Option.isSome_iff_exists.mp (lastText?_isSome.mpr hlisted)
  refine ⟨hfits, ?_⟩
  have hentry := entryAt?_rewritten_of_listed hput hlast
  rw [rewritten] at hentry
  simp [hentry]

end Source

open Source

/-- Whatever files and directories there are in a directory without links: once files are written
into it, every name of theirs has the last contents listed for it, the generated source files among
the others are gone as far as their paths can be followed, and everything else is as before. The
answer lists what was written in the order given and what is gone in the order of the paths. Writing
the same again succeeds, removes nothing and changes nothing. -/
theorem written_files_replace_generated_ones {dir : String} {loc : Location} {files : List File}
    {start final : Machine} {summary : Written} (hsound : start.disk.Sound)
    (hdir : start.disk.resolve dir = .ok (.found loc .directory))
    (hplain : ∀ name target, start.disk.entryAt? (loc ++ [name]) ≠ some (.link target))
    (hslash : ∀ file ∈ files, '/' ∉ file.name.toList)
    (hrun : Machine.run (writeTo dir files) start = (.ok summary, final)) :
    (∀ name text, lastText? files name = some text →
      final.disk.entryAt? (loc ++ [name]) = some (.file (Utf8.encode text))) ∧
    (∀ name, Superseded start.disk dir loc files name →
      final.disk.entryAt? (loc ++ [name]) = none) ∧
    (∀ place, (∀ name, place = loc ++ [name] →
        name ∉ files.map (·.name) ∧ ¬ Superseded start.disk dir loc files name) →
      final.disk.entryAt? place = start.disk.entryAt? place) ∧
    summary.written = files.map (fun file => Path.join dir file.name) ∧
    summary.removed.Pairwise (· < ·) ∧
    (∀ path, path ∈ summary.removed ↔ ∃ name, path = Path.join dir name ∧
      start.disk.entryAt? (loc ++ [name]) ≠ none ∧ final.disk.entryAt? (loc ++ [name]) = none) ∧
    ∃ again, Machine.run (writeTo dir files) final = (.ok ⟨summary.written, []⟩, again) ∧
      ∀ place, again.disk.entryAt? place = final.disk.entryAt? place := by
  have hopen := isOpen_of_resolve hsound hdir hplain
  obtain ⟨hnames, hall, rfl, rfl⟩ := run_writeTo_inv hopen hslash hrun
  have hput := isOpen_putAll_writable hopen hnames
  rw [hall] at hput
  refine ⟨fun _ _ => entryAt?_rewritten_of_listed hput,
    fun _ => entryAt?_rewritten_of_superseded hput,
    fun _ => entryAt?_rewritten_of_other hput, rfl, removed_sorted hput,
    fun _ => mem_removed hput, ?_⟩
  have hleft : (rewritten dir loc files start.disk).OpenDirectory dir loc := isOpen_cleaned hput
  have hall' := writable_rewritten hopen hnames hall
  have hput' := isOpen_putAll_writable hleft hnames
  rw [hall'] at hput'
  have hnone : staleIn dir loc files ((rewritten dir loc files start.disk).putAll loc files) =
      [] := by
    refine List.eq_nil_iff_forall_not_mem.mpr fun name hstale => ?_
    exact not_superseded_rewritten hput ((mem_staleIn_putAll hput').mp hstale)
  rcases run_writeTo (m := start.withDisk (rewritten dir loc files start.disk)) hleft hnames with
      ⟨_, hagain⟩ | ⟨hnot, _⟩
  · refine ⟨start.withDisk (rewritten dir loc files (rewritten dir loc files start.disk)),
      hagain.trans ?_, fun place => entryAt?_rewritten_rewritten hput hput'⟩
    simp only [Machine.disk_withDisk, Machine.withDisk_withDisk, hnone, List.map_nil]
    rfl
  · exact absurd hall' hnot

/-- A file that is listed twice. -/
def listedTwice : List File := [⟨"a.rs", "first"⟩, ⟨"a.rs", "last"⟩]

/-- Of two contents for one name the last one stays, the old generated file is gone and the notes
are there. -/
theorem last_contents_stay_and_old_file_goes :
    ∃ summary final, Machine.run (writeTo "out" listedTwice) usedDirectory = (.ok summary, final) ∧
      summary.written = ["out/a.rs", "out/a.rs"] ∧ "out/old.rs" ∈ summary.removed ∧
      final.disk.entryAt? ["out", "a.rs"] = some (.file (Utf8.encode "last")) ∧
      final.disk.entryAt? ["out", "old.rs"] = none ∧
      final.disk.entryAt? ["out", "notes.txt"] = some (.file (Utf8.encode "keep")) := by
  have hopen : usedDirectory.disk.OpenDirectory "out" ["out"] :=
    isOpen_ofOut (by decide) (by decide)
  have hnames : ∀ file ∈ listedTwice, Path.IsName file.name := by decide
  have hall : writable "out" usedDirectory.disk listedTwice = listedTwice := by
    refine (writable_eq_self_iff hopen hnames).mpr fun file hfile => ⟨?_, ?_⟩
    · have hfits : ∀ file ∈ listedTwice, Disk.Fits "out" file.name := by decide
      exact hfits file hfile
    · rw [usedDirectory, entryAt?_ofOut]
      simp
  rcases run_writeTo hopen hnames with ⟨_, hrun⟩ | ⟨hnot, _⟩
  swap
  · exact absurd hall hnot
  obtain ⟨hlisted, hgone, hkept, hwritten, -, hremoved, -⟩ :=
    written_files_replace_generated_ones hopen.sound resolve_ofOut hopen.plain
      (fun file hfile => (hnames file hfile).slash) hrun
  have hentry : usedDirectory.disk.entryAt? (["out"] ++ ["old.rs"]) =
      some (.file (Utf8.encode (marker ++ "\n"))) := rfl
  have hold : Superseded usedDirectory.disk "out" ["out"] listedTwice "old.rs" := by
    obtain ⟨line, hline⟩ := isGenerated_iff.mp
      (by decide : isGenerated (Utf8.encode (marker ++ "\n")) = true)
    exact ⟨by decide, by decide, by decide, _, line, hentry, hline⟩
  have hnotes : ∀ name, ["out", "notes.txt"] = ["out"] ++ [name] →
      name ∉ listedTwice.map (·.name) ∧
        ¬ Superseded usedDirectory.disk "out" ["out"] listedTwice name := by
    intro name hplace
    obtain rfl : "notes.txt" = name := by simpa using hplace
    exact ⟨by decide, fun h => absurd h.extension (by decide)⟩
  refine ⟨_, _, hrun, hwritten.trans (by decide), ?_, hlisted "a.rs" "last" (by decide),
    hgone _ hold, hkept _ hnotes⟩
  refine (hremoved _).mpr ⟨"old.rs", by decide, ?_, hgone _ hold⟩
  rw [hentry]
  exact Option.some_ne_none _

/-! ### Paths that are too long -/

lemma Disk.Reaches.slash {d : Disk} {dir : String} {loc : Location} (h : d.Reaches dir loc)
    (hshort : (dir ++ "/").utf8ByteSize < pathLimit) : d.Reaches (dir ++ "/") loc := by
  have hchars : (dir ++ "/").toList = dir.toList ++ ['/'] := by simp
  have hnames : Path.names (dir ++ "/") = Path.names dir := by
    rw [Path.names, hchars, splitChars_append (by simp)]
    simp [Path.names, splitChars]
  have hne : dir.toList ≠ [] := by simpa using h.nonempty
  have hlead : Path.isAbsolute (dir ++ "/") = Path.isAbsolute dir := by
    rw [Path.isAbsolute, Path.isAbsolute, hchars, List.head?_append_of_ne_nil _ hne]
  refine ⟨by simp, by simp [hchars, h.nul], hshort, ?_⟩
  rw [hnames, hlead]
  exact h.leads

/-- The directory `out`, with slashes after it. -/
def outWithSlashes : Nat → String
  | 0 => "out"
  | count + 1 => outWithSlashes count ++ "/"

section Slashes

variable {count : Nat} {files : List (String × Utf8.Bytes)}

lemma utf8ByteSize_outWithSlashes : (outWithSlashes count).utf8ByteSize = count + 3 := by
  induction count with
  | zero => rfl
  | succ count ih =>
    have hslash : "/".utf8ByteSize = 1 := rfl
    rw [outWithSlashes, String.utf8ByteSize_append, ih, hslash]

lemma reaches_outWithSlashes (h : count + 3 < Disk.pathLimit) :
    (Machine.ofOut files).disk.Reaches (outWithSlashes count) ["out"] := by
  induction count with
  | zero => exact Disk.reaches_of_resolve resolve_ofOut
  | succ count ih =>
    refine (ih (by omega)).slash ?_
    rw [← outWithSlashes, utf8ByteSize_outWithSlashes]
    exact h

lemma not_fits_outWithSlashes {name : String} (hslash : '/' ∉ name.toList)
    (h : Disk.pathLimit ≤ count + 4 + name.utf8ByteSize) :
    ¬ Disk.Fits (outWithSlashes (count + 1)) name := by
  have hjoin : Path.join (outWithSlashes (count + 1)) name =
      outWithSlashes (count + 1) ++ name := by
    have hopen : Path.endsOpen (outWithSlashes (count + 1)) = true := by
      simp [outWithSlashes, Path.endsOpen]
    have hempty : (outWithSlashes (count + 1)).isEmpty = false := by simp [outWithSlashes]
    simp [Path.join, Path.isAbsolute_name hslash, hopen, hempty]
  rintro ⟨hpath, -⟩
  rw [hjoin, String.utf8ByteSize_append, utf8ByteSize_outWithSlashes] at hpath
  omega

end Slashes

/-- Nothing but an old generated file. -/
def oldDirectory : Machine := .ofOut [("old.rs", Utf8.encode (marker ++ "\n"))]

/-- Where the directory can be listed and the path of the file in it is too long to be followed, the
file stays although it begins with the marker and is not listed. -/
theorem file_out_of_reach_stays :
    oldDirectory.disk.Sound ∧
    oldDirectory.disk.resolve (outWithSlashes 4088) = .ok (.found ["out"] .directory) ∧
    (∀ name target, oldDirectory.disk.entryAt? (["out"] ++ [name]) ≠ some (.link target)) ∧
    Path.hasExtension "old.rs" "rs" = true ∧
    oldDirectory.disk.entryAt? ["out", "old.rs"] = some (.file (Utf8.encode (marker ++ "\n"))) ∧
    (∃ line, Utf8.decode (firstLine (Utf8.encode (marker ++ "\n"))) = .ok line ∧
      marker.toList <+: line.toList) ∧
    ∃ summary final,
      Machine.run (writeTo (outWithSlashes 4088) []) oldDirectory = (.ok summary, final) ∧
      final.disk.entryAt? ["out", "old.rs"] = some (.file (Utf8.encode (marker ++ "\n"))) := by
  have hout : oldDirectory.disk.OpenDirectory "out" ["out"] :=
    isOpen_ofOut (by decide) (by decide)
  have hreaches : oldDirectory.disk.Reaches (outWithSlashes 4088) ["out"] :=
    reaches_outWithSlashes (by decide)
  have hopen : oldDirectory.disk.OpenDirectory (outWithSlashes 4088) ["out"] :=
    ⟨hout.sound, hreaches, hout.plain⟩
  have hkept : ¬ Superseded oldDirectory.disk (outWithSlashes 4088) ["out"] [] "old.rs" :=
    fun h => not_fits_outWithSlashes (by decide) (by decide) h.fits
  refine ⟨hout.sound, hreaches.resolve, hout.plain, by decide, rfl,
    isGenerated_iff.mp (by decide), ?_⟩
  have hnames : ∀ file ∈ ([] : List File), Path.IsName file.name := by simp
  rcases run_writeTo hopen hnames with ⟨_, hrun⟩ | ⟨hnot, _⟩
  · exact ⟨_, _, hrun, entryAt?_rewritten_of_notSuperseded hopen hkept⟩
  · exact absurd rfl hnot

end InspectorProtocol

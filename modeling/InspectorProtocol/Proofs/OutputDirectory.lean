import InspectorProtocol.Proofs.ModuleNames
import InspectorProtocol.Proofs.Utf8
import InspectorProtocol.Source.Output
import Mathlib.Data.List.TakeWhile

/-!
# What compiling leaves in a directory

A run of the compiler writes its files one after another, up to the first that cannot be written,
and only then removes what is stale. All of this happens at the names of one directory, where every
run finds the directories it found before. So what is marked after a run that succeeds is what the
run has written, whatever the runs before it were.
-/

namespace InspectorProtocol

open Text

namespace Machine

open Host

variable {α β : Type} {m : Machine}

/-- The machine with another disk. -/
def withDisk (m : Machine) (disk : Disk) : Machine := { m with disk }

@[simp] lemma disk_withDisk (disk : Disk) : (m.withDisk disk).disk = disk := rfl

@[simp] lemma withDisk_withDisk (disk disk' : Disk) :
    (m.withDisk disk).withDisk disk' = m.withDisk disk' := rfl

lemma run_bind (action : Action (StateM Machine) α) (next : α → Action (StateM Machine) β) :
    run (action >>= next) m =
      match run action m with
      | (.ok a, m') => run (next a) m'
      | (.error failure, m') => (.error failure, m') := by
  unfold run
  simp only [ExceptT.run_bind, StateT.run_bind]
  cases h : (action.run).run m with
  | mk result m' => cases result <;> rfl

lemma run_bind_inv {action : Action (StateM Machine) α} {next : α → Action (StateM Machine) β}
    {b : β} {m' : Machine} (h : run (action >>= next) m = (.ok b, m')) :
    ∃ a between, run action m = (.ok a, between) ∧ run (next a) between = (.ok b, m') := by
  rw [run_bind] at h
  rcases hrun : run action m with ⟨result, between⟩
  cases result with
  | error failure => simp [hrun] at h
  | ok a => exact ⟨a, between, rfl, by simpa [hrun] using h⟩

lemma run_change (meaning : IoFault → Failure) (f : Disk → Except IoFault Disk) :
    run (attempt meaning (change f)) m =
      match f m.disk with
      | .ok disk => (.ok (), m.withDisk disk)
      | .error fault => (.error (meaning fault), m) := by
  cases h : f m.disk with
  | ok disk =>
    simp [run, attempt, change, h]
    rfl
  | error fault =>
    simp [run, attempt, change, h]
    rfl

lemma run_look (meaning : IoFault → Failure) (f : Disk → Except IoFault α) :
    run (attempt meaning (look f)) m = ((f m.disk).mapError meaning, m) := rfl

end Machine
namespace Disk

/-- Files written one after another into a directory. -/
def putAll (loc : Location) (d : Disk) (files : List Source.File) : Disk :=
  files.foldl (fun d file => d.put (loc ++ [file.name]) (.file (Utf8.encode file.contents))) d

/-- Files removed from a directory. -/
def eraseAll (loc : Location) (d : Disk) (names : List String) : Disk :=
  names.foldl (fun d name => d.erase (loc ++ [name])) d

variable {loc place : Location} {d : Disk} {name : String}

lemma entryAt?_eraseAll (names : List String) :
    (eraseAll loc d names).entryAt? place =
      if ∃ name ∈ names, place = loc ++ [name] then none else d.entryAt? place := by
  induction names generalizing d with
  | nil => simp [eraseAll]
  | cons name rest ih =>
    have hstep : (eraseAll loc d (name :: rest)).entryAt? place = _ := @ih (d.erase (loc ++ [name]))
    rw [hstep, entryAt?_erase (by simp)]
    by_cases hrest : ∃ name ∈ rest, place = loc ++ [name]
    · obtain ⟨other, hmem, heq⟩ := hrest
      rw [if_pos ⟨other, hmem, heq⟩, if_pos ⟨other, List.mem_cons_of_mem _ hmem, heq⟩]
    · by_cases hname : place = loc ++ [name]
      · rw [if_neg hrest, if_pos hname, if_pos ⟨name, List.mem_cons_self, hname⟩]
      · rw [if_neg hrest, if_neg hname, if_neg]
        rintro ⟨other, hmem, heq⟩
        rcases List.mem_cons.mp hmem with rfl | hmem
        · exact hname heq
        · exact hrest ⟨other, hmem, heq⟩

end Disk

namespace Source

/-- What is left under a name when files are written in order. -/
def lastText? (files : List File) (name : String) : Option String :=
  (files.reverse.find? (·.name == name)).map (·.contents)

/-- The files that are written when they are written in order, up to the first that cannot be. -/
def writable (dir : String) (d : Disk) (files : List File) : List File :=
  files.takeWhile fun file => (d.write (Path.join dir file.name) (Utf8.encode file.contents)).isOk

variable {dir name : String} {loc place : Location} {d : Disk} {m : Machine} {files : List File}

lemma lastText?_cons (file : File) (rest : List File) :
    lastText? (file :: rest) name =
      (lastText? rest name).or (if file.name = name then some file.contents else none) := by
  unfold lastText?
  rw [List.reverse_cons, List.find?_append]
  cases rest.reverse.find? (·.name == name) with
  | some found => rfl
  | none =>
    by_cases hname : file.name = name
    · simp [hname]
    · simp [hname]

lemma lastText?_isSome : (lastText? files name).isSome = true ↔ name ∈ files.map (·.name) := by
  simp [lastText?]

lemma mem_of_lastText? {text : String} (h : lastText? files name = some text) :
    ⟨name, text⟩ ∈ files := by
  obtain ⟨file, hfound, rfl⟩ := Option.map_eq_some_iff.mp h
  obtain rfl : file.name = name := by simpa using List.find?_some hfound
  exact List.mem_reverse.mp (List.mem_of_find?_eq_some hfound)

lemma entryAt?_putAll :
    (d.putAll loc files).entryAt? (loc ++ [name]) =
      match lastText? files name with
      | some text => some (.file (Utf8.encode text))
      | none => d.entryAt? (loc ++ [name]) := by
  induction files generalizing d with
  | nil => rfl
  | cons file rest ih =>
    have hstep : (d.putAll loc (file :: rest)).entryAt? (loc ++ [name]) = _ :=
      @ih (d.put (loc ++ [file.name]) (.file (Utf8.encode file.contents)))
    rw [hstep, lastText?_cons]
    cases lastText? rest name with
    | some text => rfl
    | none =>
      rw [Disk.entryAt?_put (by simp)]
      by_cases hname : file.name = name
      · simp [hname]
      · simp [hname, Ne.symm hname]

lemma entryAt?_putAll_of_notMem (h : name ∉ files.map (·.name)) :
    (d.putAll loc files).entryAt? (loc ++ [name]) = d.entryAt? (loc ++ [name]) := by
  have hnone : lastText? files name = none := by
    rw [← Option.not_isSome_iff_eq_none, lastText?_isSome]
    exact h
  rw [entryAt?_putAll, hnone]

lemma entryAt?_putAll_of_ne (h : ∀ name, place ≠ loc ++ [name]) :
    (d.putAll loc files).entryAt? place = d.entryAt? place := by
  induction files generalizing d with
  | nil => rfl
  | cons file rest ih =>
    have hstep : (d.putAll loc (file :: rest)).entryAt? place = _ :=
      @ih (d.put (loc ++ [file.name]) (.file (Utf8.encode file.contents)))
    rw [hstep, Disk.entryAt?_put (by simp), if_neg (h file.name)]

/-- The names of a directory that are to be removed once `files` are written. -/
def staleIn (dir : String) (loc : Location) (files : List File) (d : Disk) : List String :=
  ((d.namesIn loc).mergeSort fun a b => decide (a ≤ b)).filter fun name =>
    isStale files name (d.read (Path.join dir name))

/-- What is left once `files` are written. -/
def cleaned (dir : String) (loc : Location) (files : List File) (d : Disk) : Disk :=
  d.eraseAll loc (staleIn dir loc files d)

/-- Whether a source file of a directory can be read and begins with the marker. -/
structure Marked (d : Disk) (dir : String) (loc : Location) (name : String)
    (contents : Utf8.Bytes) : Prop where
  extension : Path.hasExtension name "rs" = true
  entry : d.entryAt? (loc ++ [name]) = some (.file contents)
  read : d.read (Path.join dir name) = .ok contents
  generated : isGenerated contents = true

lemma entryAt?_cleaned :
    (cleaned dir loc files d).entryAt? place =
      if ∃ name ∈ staleIn dir loc files d, place = loc ++ [name] then none
      else d.entryAt? place :=
  Disk.entryAt?_eraseAll _

section Stale

variable (hopen : d.OpenDirectory dir loc)
include hopen

lemma marked_iff {contents : Utf8.Bytes} :
    Marked d dir loc name contents ↔
      Path.hasExtension name "rs" = true ∧ d.entryAt? (loc ++ [name]) = some (.file contents) ∧
        Disk.Fits dir name ∧ isGenerated contents = true := by
  constructor
  · intro h
    have hname := hopen.sound.isName h.entry
    exact ⟨h.extension, h.entry, ((hopen.read_iff hname).mp h.read).1, h.generated⟩
  · rintro ⟨hextension, hentry, hfits, hgenerated⟩
    have hname := hopen.sound.isName hentry
    exact ⟨hextension, hentry, (hopen.read_iff hname).mpr ⟨hfits, hentry⟩, hgenerated⟩

lemma mem_staleIn :
    name ∈ staleIn dir loc files d ↔
      name ∉ files.map (·.name) ∧ ∃ contents, Marked d dir loc name contents := by
  have hwritten : files.any (·.name == name) = true ↔ name ∈ files.map (·.name) := by
    simp
  rw [staleIn, List.mem_filter, (List.mergeSort_perm _ _).mem_iff, Disk.mem_namesIn]
  constructor
  · rintro ⟨⟨entry, hentry⟩, hstale⟩
    have hname := hopen.sound.isName hentry
    cases hread : d.read (Path.join dir name) with
    | error fault => simp [isStale, hread] at hstale
    | ok contents =>
      simp only [isStale, hread, Bool.and_assoc, Bool.and_eq_true] at hstale
      obtain ⟨hextension, hnew, hgenerated⟩ := hstale
      obtain ⟨hfits, hfile⟩ := (hopen.read_iff hname).mp hread
      refine ⟨?_, contents, ⟨hextension, hfile, hread, hgenerated⟩⟩
      rw [← hwritten]
      simpa using hnew
  · rintro ⟨hnew, contents, h⟩
    refine ⟨⟨_, h.entry⟩, ?_⟩
    have hnone : files.any (·.name == name) = false := by
      rw [← Bool.not_eq_true, hwritten]
      exact hnew
    simp [isStale, h.extension, hnone, h.read, h.generated]

lemma isOpen_cleaned : (cleaned dir loc files d).OpenDirectory dir loc := by
  have hsound : ∀ names (d : Disk), d.Sound → (d.eraseAll loc names).Sound := by
    intro names
    induction names with
    | nil => exact fun d hd => hd
    | cons name rest ih => exact fun d hd => ih _ (hd.erase _)
  have hcurrent : ∀ names (d : Disk), (d.eraseAll loc names).current = d.current := by
    intro names
    induction names with
    | nil => exact fun d => rfl
    | cons name rest ih => exact fun d => ih _
  refine ⟨hsound _ d hopen.sound, hopen.reaches.mono (hcurrent _ d) ?_, ?_⟩
  · intro place entry hentry hnofile
    rw [entryAt?_cleaned, if_neg ?_]
    · exact hentry
    · rintro ⟨name, hstale, rfl⟩
      obtain ⟨_, contents, hmarked⟩ := (mem_staleIn hopen).mp hstale
      have heq := hmarked.entry
      rw [hentry] at heq
      exact hnofile contents (Option.some.inj heq)
  · intro other target
    rw [entryAt?_cleaned]
    split
    · simp
    · exact hopen.plain other target

end Stale

section Phases

lemma isOpen_putAll (hopen : d.OpenDirectory dir loc)
    (hnames : ∀ file ∈ files, Path.IsName file.name)
    (hfree : ∀ file ∈ files, d.entryAt? (loc ++ [file.name]) ≠ some .directory) :
    (d.putAll loc files).OpenDirectory dir loc := by
  induction files generalizing d with
  | nil => exact hopen
  | cons file rest ih =>
    have hhead : (d.put (loc ++ [file.name]) (.file (Utf8.encode file.contents))).OpenDirectory
        dir loc := hopen.put (hnames file List.mem_cons_self) (by simp)
          (hfree file List.mem_cons_self)
    refine ih hhead (fun f hf => hnames f (List.mem_cons_of_mem _ hf)) fun f hf => ?_
    rw [Disk.entryAt?_put (by simp)]
    split
    · simp
    · exact hfree f (List.mem_cons_of_mem _ hf)

lemma writable_put {name : String} {contents : Utf8.Bytes} (hopen : d.OpenDirectory dir loc)
    (hnames : ∀ file ∈ files, Path.IsName file.name) (hname : Path.IsName name)
    (hfree : d.entryAt? (loc ++ [name]) ≠ some .directory) :
    writable dir (d.put (loc ++ [name]) (.file contents)) files = writable dir d files := by
  have hput : (d.put (loc ++ [name]) (.file contents)).OpenDirectory dir loc :=
    hopen.put hname (by simp) hfree
  induction files with
  | nil => rfl
  | cons file rest ih =>
    have hfile := hnames file List.mem_cons_self
    have hrest := ih fun f hf => hnames f (List.mem_cons_of_mem _ hf)
    have hsame : ((d.put (loc ++ [name]) (.file contents)).write (Path.join dir file.name)
        (Utf8.encode file.contents)).isOk =
        (d.write (Path.join dir file.name) (Utf8.encode file.contents)).isOk := by
      rw [Bool.eq_iff_iff, hput.isOk_write_iff hfile, hopen.isOk_write_iff hfile,
        Disk.entryAt?_put (by simp)]
      by_cases heq : loc ++ [file.name] = loc ++ [name]
      · rw [if_pos heq, heq]
        simp [hfree]
      · rw [if_neg heq]
    unfold writable at hrest ⊢
    rw [List.takeWhile_cons, List.takeWhile_cons, hsame, hrest]

lemma free_of_mem_writable (hopen : d.OpenDirectory dir loc)
    (hnames : ∀ file ∈ files, Path.IsName file.name) {file : File}
    (h : file ∈ writable dir d files) :
    Disk.Fits dir file.name ∧ d.entryAt? (loc ++ [file.name]) ≠ some .directory := by
  have hmem : file ∈ files := (List.takeWhile_sublist _).subset h
  have hok := List.mem_takeWhile_imp (p := fun file : File =>
    (d.write (Path.join dir file.name) (Utf8.encode file.contents)).isOk) h
  exact (hopen.isOk_write_iff (hnames file hmem)).mp hok

lemma writable_eq_self_iff (hopen : d.OpenDirectory dir loc)
    (hnames : ∀ file ∈ files, Path.IsName file.name) :
    writable dir d files = files ↔ ∀ file ∈ files,
      Disk.Fits dir file.name ∧ d.entryAt? (loc ++ [file.name]) ≠ some .directory := by
  rw [writable, List.takeWhile_eq_self_iff]
  exact forall₂_congr fun file hfile => hopen.isOk_write_iff (hnames file hfile)

lemma isOpen_putAll_writable (hopen : d.OpenDirectory dir loc)
    (hnames : ∀ file ∈ files, Path.IsName file.name) :
    (d.putAll loc (writable dir d files)).OpenDirectory dir loc := by
  refine isOpen_putAll hopen (fun file hfile => ?_) fun file hfile => ?_
  · exact hnames file ((List.takeWhile_sublist _).subset hfile)
  · exact (free_of_mem_writable hopen hnames hfile).2

lemma run_createDirectories (hopen : m.disk.OpenDirectory dir loc) :
    Machine.run (Host.attempt (.fileWrite dir) (Host.createDirectories dir)) m = (.ok (), m) := by
  refine (Machine.run_change _ _).trans ?_
  rw [hopen.reaches.createDirectories]
  rfl

lemma run_writeFile (path : String) (contents : Utf8.Bytes) :
    Machine.run (Host.attempt (.fileWrite path) (Host.writeFile path contents)) m =
      match m.disk.write path contents with
      | .ok disk => (.ok (), m.withDisk disk)
      | .error fault => (.error (.fileWrite path fault), m) :=
  Machine.run_change _ _

lemma run_writeFiles (hopen : m.disk.OpenDirectory dir loc)
    (hnames : ∀ file ∈ files, Path.IsName file.name) :
    (writable dir m.disk files = files ∧
      Machine.run (writeFiles dir files) m =
        (.ok (files.map fun file => Path.join dir file.name),
          m.withDisk (m.disk.putAll loc files))) ∨
    (writable dir m.disk files ≠ files ∧ ∃ failure,
      Machine.run (writeFiles dir files) m =
        (.error failure, m.withDisk (m.disk.putAll loc (writable dir m.disk files)))) := by
  induction files generalizing m with
  | nil => exact .inl ⟨rfl, rfl⟩
  | cons file rest ih =>
    have hfile := hnames file List.mem_cons_self
    have hrest : ∀ f ∈ rest, Path.IsName f.name := fun f hf => hnames f (List.mem_cons_of_mem _ hf)
    rw [writeFiles, Machine.run_bind, run_writeFile]
    by_cases hok : (m.disk.write (Path.join dir file.name) (Utf8.encode file.contents)).isOk = true
    · have hfree := ((hopen.isOk_write_iff hfile).mp hok).2
      have hwritable : writable dir m.disk (file :: rest) =
          file :: writable dir (m.disk.put (loc ++ [file.name])
            (.file (Utf8.encode file.contents))) rest := by
        rw [writable_put hopen hrest hfile hfree, writable, List.takeWhile_cons, if_pos hok]
        rfl
      simp only [hopen.write_of_isOk hfile hok, hwritable, Machine.run_bind]
      have hlater := @ih (m.withDisk (m.disk.put (loc ++ [file.name])
        (.file (Utf8.encode file.contents)))) (hopen.put hfile (by simp) hfree) hrest
      rcases hlater with ⟨hall, hrun⟩ | ⟨hnot, failure, hrun⟩
      · exact .inl ⟨congrArg _ hall, by rw [hrun]; rfl⟩
      · refine .inr ⟨fun heq => hnot (List.cons.inj heq).2, failure, by rw [hrun]; rfl⟩
    · have hwritable : writable dir m.disk (file :: rest) = [] := by
        rw [writable, List.takeWhile_cons, if_neg hok]
      refine .inr ⟨by simp [hwritable], ?_⟩
      cases hwrite : m.disk.write (Path.join dir file.name) (Utf8.encode file.contents) with
      | ok disk => exact absurd (by rw [hwrite]; rfl) hok
      | error fault =>
        refine ⟨.fileWrite (Path.join dir file.name) fault, ?_⟩
        rw [hwritable]
        rfl

lemma run_staleNames (names : List String) :
    Machine.run (staleNames dir files names) m =
      (.ok (names.filter fun name => isStale files name (m.disk.read (Path.join dir name))),
        m) := by
  induction names with
  | nil => rfl
  | cons name rest ih =>
    have hread : Machine.run (ExceptT.lift (Host.readFile (Path.join dir name))) m =
        (.ok (m.disk.read (Path.join dir name)), m) := rfl
    rw [staleNames, Machine.run_bind, hread]
    simp only [Machine.run_bind, ih, List.filter_cons]
    rfl

lemma run_removeFiles (hopen : m.disk.OpenDirectory dir loc) (names : List String)
    (hdistinct : names.Nodup)
    (hfiles : ∀ name ∈ names, Path.IsName name ∧ ∃ contents,
      m.disk.read (Path.join dir name) = .ok contents) :
    Machine.run (removeFiles dir names) m =
      (.ok (names.map (Path.join dir)), m.withDisk (m.disk.eraseAll loc names)) := by
  induction names generalizing m with
  | nil => rfl
  | cons name rest ih =>
    obtain ⟨hname, contents, hread⟩ := hfiles name List.mem_cons_self
    obtain ⟨hfits, hfile⟩ := (hopen.read_iff hname).mp hread
    have hremove := hopen.reaches.remove_join hname (hopen.plain name) hfits hfile
    have herased : (m.withDisk (m.disk.erase (loc ++ [name]))).disk.OpenDirectory dir loc :=
      hopen.erase hfile
    obtain ⟨hnew, hrest⟩ := List.nodup_cons.mp hdistinct
    have hrun := ih herased hrest fun other hother => by
      obtain ⟨hname', contents', hread'⟩ := hfiles other (List.mem_cons_of_mem _ hother)
      obtain ⟨hfits', hfile'⟩ := (hopen.read_iff hname').mp hread'
      refine ⟨hname', contents', (herased.read_iff hname').mpr ⟨hfits', ?_⟩⟩
      have hne : loc ++ [other] ≠ loc ++ [name] := by
        intro heq
        have hsame : other = name := by simpa using heq
        exact hnew (hsame ▸ hother)
      rw [Machine.disk_withDisk, Disk.entryAt?_erase (by simp), if_neg hne]
      exact hfile'
    have hstep : Machine.run (Host.attempt (.fileWrite (Path.join dir name))
        (Host.removeFile (Path.join dir name))) m =
        (.ok (), m.withDisk (m.disk.erase (loc ++ [name]))) := by
      refine (Machine.run_change _ _).trans ?_
      rw [hremove]
    rw [removeFiles, Machine.run_bind, hstep]
    simp only [Machine.run_bind, hrun]
    rfl

lemma nodup_staleIn (h : d.OpenDirectory dir loc) : (staleIn dir loc files d).Nodup := by
  refine List.Nodup.filter _ ?_
  exact (List.mergeSort_perm _ _).nodup_iff.mpr (h.sound.nodup_namesIn loc)

lemma readable_of_mem_staleIn (h : d.OpenDirectory dir loc) {name : String}
    (hname : name ∈ staleIn dir loc files d) :
    Path.IsName name ∧ ∃ contents, d.read (Path.join dir name) = .ok contents := by
  obtain ⟨_, contents, hmarked⟩ := (mem_staleIn h).mp hname
  exact ⟨h.sound.isName hmarked.entry, contents, hmarked.read⟩

/-- All files are written and what is stale is removed, or files are written up to the first that
cannot be. -/
lemma run_writeTo (hopen : m.disk.OpenDirectory dir loc)
    (hnames : ∀ file ∈ files, Path.IsName file.name) :
    (writable dir m.disk files = files ∧
      Machine.run (writeTo dir files) m =
        (.ok ⟨files.map fun file => Path.join dir file.name,
            (staleIn dir loc files (m.disk.putAll loc files)).map (Path.join dir)⟩,
          m.withDisk (cleaned dir loc files (m.disk.putAll loc files)))) ∨
    (writable dir m.disk files ≠ files ∧ ∃ failure,
      Machine.run (writeTo dir files) m =
        (.error failure, m.withDisk (m.disk.putAll loc (writable dir m.disk files)))) := by
  rw [writeTo, Machine.run_bind, run_createDirectories hopen]
  simp only [Machine.run_bind]
  rcases run_writeFiles hopen hnames with ⟨hall, hrun⟩ | ⟨hnot, failure, hrun⟩
  · left
    refine ⟨hall, ?_⟩
    have hput := isOpen_putAll_writable hopen hnames
    rw [hall] at hput
    generalize hdisk : m.disk.putAll loc files = disk at hrun hput
    have hlist : Machine.run (Host.attempt (.fileRead dir) (Host.listDirectory dir))
        (m.withDisk disk) = (.ok (disk.namesIn loc), m.withDisk disk) := by
      refine (Machine.run_look _ _).trans ?_
      rw [Machine.disk_withDisk, hput.reaches.list]
      rfl
    have hremoved := run_removeFiles (m := m.withDisk disk) hput
      (staleIn dir loc files disk) (nodup_staleIn hput) fun name => readable_of_mem_staleIn hput
    have hstale : Machine.run (staleNames dir files
        ((disk.namesIn loc).mergeSort fun a b => decide (a ≤ b))) (m.withDisk disk) =
        (.ok (staleIn dir loc files disk), m.withDisk disk) := run_staleNames _
    rw [hrun]
    simp only [hlist, hstale, hremoved]
    rfl
  · right
    refine ⟨hnot, failure, ?_⟩
    rw [hrun]

end Phases

section Marks

lemma byte_of_encodeChar {c : Char} (hc : c ≠ '\n') :
    ∀ byte ∈ Utf8.encodeChar c, (byte != 10) = true := by
  have hn : c.toNat ≠ 10 := fun heq => hc (Char.toNat_inj.mp heq)
  have ne_ten : ∀ n < 256, n ≠ 10 → (UInt8.ofNat n != 10) = true := by
    intro n hlt hne
    refine bne_iff_ne.mpr fun heq => hne ?_
    have htoNat := congrArg UInt8.toNat heq
    rwa [Utf8.toNat_ofNat_of_lt hlt] at htoNat
  have hvalid := Utf8.toNat_valid c
  unfold Utf8.encodeChar
  generalize c.toNat = n at hn hvalid
  simp only
  split
  · simpa using ne_ten n (by omega) hn
  split
  · simp only [List.forall_mem_cons]
    exact ⟨ne_ten _ (by omega) (by omega), ne_ten _ (by omega) (by omega), by simp⟩
  split
  · simp only [List.forall_mem_cons]
    exact ⟨ne_ten _ (by omega) (by omega), ne_ten _ (by omega) (by omega),
      ne_ten _ (by omega) (by omega), by simp⟩
  · simp only [List.forall_mem_cons]
    exact ⟨ne_ten _ (by omega) (by omega), ne_ten _ (by omega) (by omega),
      ne_ten _ (by omega) (by omega), ne_ten _ (by omega) (by omega), by simp⟩

lemma firstLine_encode (cs : List Char) :
    firstLine (cs.flatMap Utf8.encodeChar) =
      (cs.takeWhile (· != '\n')).flatMap Utf8.encodeChar := by
  induction cs with
  | nil => rfl
  | cons c rest ih =>
    unfold firstLine at ih ⊢
    rw [List.flatMap_cons]
    by_cases hc : c = '\n'
    · subst hc
      rfl
    · have hkept : (c != '\n') = true := by simpa using hc
      rw [List.takeWhile_append_of_pos (byte_of_encodeChar hc), ih, List.takeWhile_cons,
        if_pos hkept, List.flatMap_cons]

lemma isGenerated_encode {cs : List Char} :
    isGenerated (Utf8.encode (String.ofList (marker.toList ++ cs))) = true := by
  have hmarker : ∀ c ∈ marker.toList, (c != '\n') = true := List.all_eq_true.mp (by decide)
  have hline : firstLine (Utf8.encode (String.ofList (marker.toList ++ cs))) =
      Utf8.encode (String.ofList (marker.toList ++ cs.takeWhile (· != '\n'))) := by
    rw [Utf8.encode, Utf8.encode, String.toList_ofList, String.toList_ofList, firstLine_encode,
      List.takeWhile_append_of_pos hmarker]
  rw [isGenerated, hline, Utf8.decode_encode]
  simp [startsWith]

lemma exists_render_header (b : Bindings) (rest : List Line) :
    ∃ cs, render (header b ++ rest) = String.ofList (marker.toList ++ cs) := by
  refine ⟨(" from protocol " ++ b.version.text ++ ". Do not edit.").toList ++ '\n' ::
    ((blank :: rest).map Line.chars).flatten, ?_⟩
  have hnonempty : (marker ++ " from protocol " ++ b.version.text ++ ". Do not edit.").isEmpty =
      false := by
    rw [String.isEmpty_eq_false_iff]
    intro heq
    simpa [marker] using congrArg String.toList heq
  have hfirst : (line (marker ++ " from protocol " ++ b.version.text ++ ". Do not edit.")).chars =
      marker.toList ++ (" from protocol " ++ b.version.text ++ ". Do not edit.").toList ++
        ['\n'] := by
    simp only [Line.chars, line, hnonempty, Bool.false_eq_true, if_false]
    simp
  simp only [render, header, List.cons_append, List.nil_append, List.map_cons, List.flatten_cons,
    hfirst, List.append_assoc]

lemma isGenerated_of_mem_files {b : Bindings} {withDocs : Bool} {file : File}
    (h : file ∈ Source.files b withDocs) : isGenerated (Utf8.encode file.contents) = true := by
  have hheader : ∃ lines, file.contents = render lines ∧ header b <+: lines := by
    rcases List.mem_cons.mp h with rfl | h
    · refine ⟨rootLines b, rfl, ?_⟩
      simp only [rootLines, List.append_assoc]
      exact List.prefix_append _ _
    rcases List.mem_cons.mp h with rfl | h
    · refine ⟨methodLines b, rfl, ?_⟩
      simp only [methodLines, List.append_assoc]
      exact List.prefix_append _ _
    obtain ⟨d, _, rfl⟩ := List.mem_map.mp h
    refine ⟨domainLines b withDocs d, rfl, ?_⟩
    simp only [domainLines, List.append_assoc]
    exact List.prefix_append _ _
  obtain ⟨_, hcontents, rest, rfl⟩ := hheader
  obtain ⟨cs, hcs⟩ := exists_render_header b rest
  rw [hcontents, hcs, isGenerated_encode]

end Marks

end Source

end InspectorProtocol

import InspectorProtocol.CommandLine.Command
import InspectorProtocol.Proofs.ModuleNames
import InspectorProtocol.Proofs.OutputDirectory

/-!
# Where the generator writes

`generate` writes its files below one directory, which is the base itself or has the name of the
version after it. The names of the files are those of modules and lead nowhere else. The name of the
version is free text: where slashes in it are followed by names, the directory is further down than
one level, or somewhere else.
-/

namespace InspectorProtocol

open Text Host CommandLine

/-! ### A host that notes where it writes -/

/-- A machine, and the paths at which it was asked to write files, last first. -/
def Noting (α : Type) : Type := StateT (List String) (StateM Machine) α

namespace Noting

variable {α β : Type}

instance : Monad Noting := inferInstanceAs (Monad (StateT (List String) (StateM Machine)))

def lift (operation : StateM Machine α) : Noting α :=
  (StateT.lift operation : StateT (List String) (StateM Machine) α)

def note (path : String) : Noting Unit :=
  (modify (path :: ·) : StateT (List String) (StateM Machine) Unit)

instance : Host Noting where
  pathExists path := lift (pathExists path)
  readFile path := lift (readFile path)
  listDirectory path := lift (listDirectory path)
  writeFile path contents := do
    note path
    lift (writeFile path contents)
  touchFile path := do
    note path
    lift (touchFile path)
  createDirectories path := lift (createDirectories path)
  removeFile path := lift (removeFile path)
  print text := lift (print text)
  printError text := lift (printError text)
  setLogFilter filter := lift (setLogFilter filter)
  logEvent e := lift (logEvent e)

/-- Run a program: its result, what has been noted by then, and the machine. -/
def run (action : Action Noting α) (notes : List String) (m : Machine) :
    (Except Failure α × List String) × Machine :=
  StateT.run (action.run notes) m

/-- A program does on a machine what it does with notes, and all that is noted further satisfies
`P`. -/
structure Follows (P : String → Prop) (noted : Action Noting α)
    (plain : Action (StateM Machine) α) : Prop where
  result : ∀ notes m, ((run noted notes m).1.1, (run noted notes m).2) = Machine.run plain m
  writes : ∀ notes m, ∀ path ∈ (run noted notes m).1.2, path ∈ notes ∨ P path

variable {P : String → Prop}

lemma run_bind (action : Action Noting α) (next : α → Action Noting β) (notes : List String)
    (m : Machine) :
    run (action >>= next) notes m =
      match run action notes m with
      | ((.ok a, notes'), m') => run (next a) notes' m'
      | ((.error failure, notes'), m') => ((.error failure, notes'), m') := by
  have hnext : run (action >>= next) notes m =
      (fun r : (Except Failure α × List String) × Machine =>
        StateT.run (ExceptT.bindCont next r.1.1 r.1.2) r.2) (run action notes m) := rfl
  rw [hnext]
  rcases run action notes m with ⟨⟨result, notes'⟩, m'⟩
  cases result <;> rfl

namespace Follows

lemma bind {action : Action Noting α} {next : α → Action Noting β}
    {action' : Action (StateM Machine) α} {next' : α → Action (StateM Machine) β}
    (h : Follows P action action') (hnext : ∀ a, Follows P (next a) (next' a)) :
    Follows P (action >>= next) (action' >>= next') := by
  constructor
  · intro notes m
    have haction := h.result notes m
    rw [run_bind, Machine.run_bind, ← haction]
    rcases run action notes m with ⟨⟨result, notes'⟩, m'⟩
    cases result with
    | ok a => exact (hnext a).result notes' m'
    | error failure => rfl
  · intro notes m path hpath
    have haction := h.writes notes m
    rw [run_bind] at hpath
    rcases hrun : run action notes m with ⟨⟨result, notes'⟩, m'⟩
    rw [hrun] at hpath haction
    cases result with
    | ok a => exact ((hnext a).writes notes' m' path hpath).elim (haction path) .inr
    | error failure => exact haction path hpath

lemma of_pure (a : α) : Follows P (pure a) (pure a) :=
  ⟨fun _ _ => rfl, fun _ _ _ => .inl⟩

lemma of_throw (failure : Failure) : Follows P (α := α) (throw failure) (throw failure) :=
  ⟨fun _ _ => rfl, fun _ _ _ => .inl⟩

lemma of_except (e : Except Failure α) : Follows P (liftM e) (liftM e) :=
  ⟨fun _ _ => by cases e <;> rfl, fun _ _ _ h => .inl (by cases e <;> exact h)⟩

lemma of_attempt (meaning : IoFault → Failure) (operation : StateM Machine (Except IoFault α)) :
    Follows P (attempt meaning (lift operation)) (attempt meaning operation) :=
  ⟨fun _ _ => rfl, fun _ _ _ => .inl⟩

lemma of_lift (operation : StateM Machine α) :
    Follows P (ExceptT.lift (lift operation)) (ExceptT.lift operation) :=
  ⟨fun _ _ => rfl, fun _ _ _ => .inl⟩

lemma of_writeFile (meaning : IoFault → Failure) {path : String} (contents : Utf8.Bytes)
    (h : P path) :
    Follows P (attempt meaning (writeFile path contents))
      (attempt meaning (writeFile path contents)) :=
  ⟨fun _ _ => rfl, fun notes m other hother => by
    rcases List.mem_cons.mp hother with rfl | hother
    · exact .inr h
    · exact .inl hother⟩

lemma of_forIn {σ : Type} {items : List β} {start : σ}
    {step : β → σ → Action Noting (ForInStep σ)}
    {step' : β → σ → Action (StateM Machine) (ForInStep σ)}
    (h : ∀ item state, Follows P (step item state) (step' item state)) :
    Follows P (forIn items start step) (forIn items start step') := by
  induction items generalizing start with
  | nil => exact of_pure _
  | cons item rest ih =>
    rw [List.forIn_cons, List.forIn_cons]
    refine (h item start).bind fun next => ?_
    cases next with
    | done state => exact of_pure _
    | yield state => exact ih

end Follows

end Noting

/-! ### The program -/

section Programs

open Noting Source CommandLine

variable {P : String → Prop}

lemma follows_log (e : Log.Event) : Follows P (log e) (log e) := .of_lift _

lemma follows_say (text : String) : Follows P (say text) (say text) := .of_attempt _ _

lemma follows_loadDescription (path : String) :
    Follows P (loadDescription path) (loadDescription path) := by
  refine (Follows.of_attempt _ _).bind fun bytes => ?_
  split
  · exact .of_throw _
  · exact .of_except _

lemma follows_mergeFiles (d : Description) (paths : List String) :
    Follows P (mergeFiles d paths) (mergeFiles d paths) := by
  induction paths generalizing d with
  | nil => exact .of_pure d
  | cons path rest ih => exact (follows_loadDescription path).bind fun other => ih _

lemma follows_loadInputs (inputs : List String) :
    Follows P (loadInputs inputs) (loadInputs inputs) := by
  cases inputs with
  | nil => exact .of_throw _
  | cons path rest =>
    refine (follows_loadDescription path).bind fun first => ?_
    refine (follows_mergeFiles first rest).bind fun d => ?_
    exact (follows_log _).bind fun _ => .of_pure d

lemma follows_logReport (d : Description) (r : Report) :
    Follows P (logReport d r) (logReport d r) := by
  refine (Follows.of_forIn fun item _ => ?_).bind fun _ => follows_log _
  exact (follows_log _).bind fun _ => .of_pure _

lemma follows_writeFiles {dir : String} {files : List File}
    (h : ∀ file ∈ files, P (Path.join dir file.name)) :
    Follows P (writeFiles dir files) (writeFiles dir files) := by
  induction files with
  | nil => exact .of_pure []
  | cons file rest ih =>
    refine (Follows.of_writeFile _ _ (h file List.mem_cons_self)).bind fun _ => ?_
    refine (ih fun other hother => h other (List.mem_cons_of_mem _ hother)).bind fun _ => ?_
    exact .of_pure _

lemma follows_staleNames (dir : String) (files : List File) (names : List String) :
    Follows P (staleNames dir files names) (staleNames dir files names) := by
  induction names with
  | nil => exact .of_pure []
  | cons name rest ih =>
    exact (Follows.of_lift _).bind fun _ => ih.bind fun _ => .of_pure _

lemma follows_removeFiles (dir : String) (names : List String) :
    Follows P (removeFiles dir names) (removeFiles dir names) := by
  induction names with
  | nil => exact .of_pure []
  | cons name rest ih =>
    exact (Follows.of_attempt _ _).bind fun _ => ih.bind fun _ => .of_pure _

lemma follows_writeTo {dir : String} {files : List File}
    (h : ∀ file ∈ files, P (Path.join dir file.name)) :
    Follows P (writeTo dir files) (writeTo dir files) := by
  refine (Follows.of_attempt _ _).bind fun _ => ?_
  refine (follows_writeFiles h).bind fun _ => ?_
  refine (Follows.of_attempt _ _).bind fun names => ?_
  refine (follows_staleNames dir files _).bind fun stale => ?_
  exact (follows_removeFiles dir stale).bind fun _ => .of_pure _

lemma follows_compileTo {settings : Settings} {d : Description} {dir : String}
    (h : ∀ file ∈ files (Bindings.generate settings d) settings.docComments,
      P (Path.join dir file.name)) :
    Follows P (compileTo settings d dir) (compileTo settings d dir) :=
  (follows_writeTo h).bind fun _ => .of_pure _

/-- What `generate` does once it has read its inputs. -/
def generateInto {m : Type → Type} [Monad m] [Host m] (settings : Settings) (d : Description)
    (dir : String) : Action m Nat := do
  log ⟨.info, "debugwire_codegen::commands",
    s!"Generating protocol {d.version.text} bindings into {dir}"⟩
  let (report, files) ← Source.compileTo settings d dir
  logReport d report
  say (reportText report)
  say s!"Wrote {files.written.length} files to {dir} ({files.removed.length} stale removed)\n"
  return 0

lemma generate_eq {m : Type → Type} [Monad m] [Host m] (settings : Settings)
    (inputs : List String) (out : Option String) (flat : Bool) :
    (generate settings inputs out flat : Action m Nat) = loadInputs inputs >>= fun d =>
      generateInto settings d (targetDir (out.getD settings.outputDir) flat d.version) := rfl

lemma follows_generateInto {settings : Settings} {d : Description} {dir : String}
    (h : ∀ file ∈ files (Bindings.generate settings d) settings.docComments,
      P (Path.join dir file.name)) :
    Follows P (generateInto settings d dir) (generateInto settings d dir) := by
  refine (follows_log _).bind fun _ => ?_
  refine (follows_compileTo h).bind fun compiled => ?_
  refine (follows_logReport d compiled.1).bind fun _ => ?_
  refine (follows_say _).bind fun _ => ?_
  exact (follows_say _).bind fun _ => .of_pure 0

lemma follows_generate (settings : Settings) (inputs : List String) (out : Option String)
    (flat : Bool) :
    Follows (fun _ => True) (generate settings inputs out flat)
      (generate settings inputs out flat) := by
  rw [generate_eq, generate_eq]
  exact (follows_loadInputs inputs).bind fun d => follows_generateInto fun _ _ => trivial

/-- `generate` writes nothing unless it has read a description, and then only files of its
bindings, in the directory that is the target for its version. -/
lemma written_by_generate (settings : Settings) (inputs : List String) (out : Option String)
    (flat : Bool) (m : Machine) :
    (run (generate settings inputs out flat) [] m).1.2 = [] ∨
      ∃ d, (Machine.run (loadInputs inputs) m).1 = .ok d ∧
        ∀ path ∈ (run (generate settings inputs out flat) [] m).1.2,
          ∃ file ∈ files (Bindings.generate settings d) settings.docComments,
            path =
              Path.join (targetDir (out.getD settings.outputDir) flat d.version) file.name := by
  have hload : ∀ path ∈ (run (loadInputs inputs) [] m).1.2, path ∈ [] ∨ False :=
    (follows_loadInputs inputs).writes [] m
  have hplain := (follows_loadInputs (P := fun _ => False) inputs).result [] m
  rw [generate_eq, run_bind, ← hplain]
  rcases hrun : run (loadInputs inputs) [] m with ⟨⟨result, notes⟩, m'⟩
  rw [hrun] at hload
  have hnotes : notes = [] := List.eq_nil_iff_forall_not_mem.mpr fun path hpath => by
    simpa using hload path hpath
  subst hnotes
  cases result with
  | error failure => exact .inl rfl
  | ok d =>
    refine .inr ⟨d, rfl, fun path hpath => ?_⟩
    have hwrites := (follows_generateInto fun file hfile => ⟨file, hfile, rfl⟩ : Follows
      (fun path => ∃ file ∈ files (Bindings.generate settings d) settings.docComments,
        path = Path.join (targetDir (out.getD settings.outputDir) flat d.version) file.name)
      _ _).writes [] m' path hpath
    exact hwrites.resolve_left List.not_mem_nil

end Programs

/-! ### Components of a path -/

namespace Path

/-- A part of a path: the root, the place a relative path starts from, the directory above, or a
name. -/
inductive Component where
  | root
  | here
  | above
  | ordinary (name : String)
  deriving DecidableEq, Repr

/-- A name in a path; a dot within a path counts for nothing. -/
def Component.ofName? (name : String) : Option Component :=
  if name = "." then none else if name = ".." then some .above else some (.ordinary name)

def components (path : String) : List Component :=
  let inner := (names path).filterMap Component.ofName?
  if isAbsolute path then .root :: inner
  else if (names path).head? = some "." then .here :: inner
  else inner

/-- A path that goes on from a directory by one name. -/
def IsChild (dir path : String) : Prop :=
  ∃ name, components path = components dir ++ [.ordinary name]

variable {name : String}

lemma components_join (base : String) (hrelative : isAbsolute name = false)
    (hhere : (names name).head? ≠ some ".") :
    components (join base name) = components base ++ (names name).filterMap Component.ofName? := by
  by_cases hbase : base = ""
  · have hjoin : join base name = name := by simp [join, hbase]
    have hempty : components base = [] := by rw [hbase]; rfl
    rw [hjoin, hempty, components]
    simp [hrelative, hhere]
  have hhead : ((names base ++ names name).head? = some ".") ↔ (names base).head? = some "." := by
    cases names base with
    | nil => simpa using hhere
    | cons first rest => simp
  unfold components
  rw [names_join_of_relative hbase hrelative, isAbsolute_join hbase hrelative]
  simp only [hhead, List.filterMap_append]
  split
  · rfl
  · split <;> rfl

lemma components_join_name (base : String) (h : IsName name) :
    components (join base name) = components base ++ [.ordinary name] := by
  have hnames := names_name h.nonempty h.slash
  have hcomponent : Component.ofName? name = some (.ordinary name) := by
    rw [Component.ofName?, if_neg h.here, if_neg h.above]
  rw [components_join base (isAbsolute_name h.slash) (by simpa [hnames] using h.here), hnames]
  simp [hcomponent]

lemma ofName?_eq_none : Component.ofName? name = none ↔ name = "." := by
  unfold Component.ofName?
  split
  · simp [*]
  · split <;> simp [*]

end Path

open InspectorProtocol.Path

lemma exists_components_targetDir (base : String) (v : Description.Version) :
    ∃ first rest, splitChars (· == '/') v.moduleName.toList = first :: rest ∧
      components (targetDir base false v) = components base ++
        .ordinary (String.ofList first) ::
          ((rest.filter (!·.isEmpty)).map String.ofList).filterMap Component.ofName? := by
  have htext : v.moduleName.toList = ['v'] ++ (v.major ++ "_" ++ v.minor).toList := by
    simp [Description.Version.moduleName]
  obtain ⟨lead, rest, -, hsplit⟩ := exists_splitChars_append (p := (· == '/'))
    (by simp : ∀ c ∈ ['v'], (c == '/') = false) (v.major ++ "_" ++ v.minor).toList
  rw [← htext] at hsplit
  have hnames : names v.moduleName =
      String.ofList ('v' :: lead) :: (rest.filter (!·.isEmpty)).map String.ofList := by
    rw [names, hsplit]
    simp
  have hne (s : String) (hs : s.toList.head? ≠ some 'v') : String.ofList ('v' :: lead) ≠ s := by
    rintro rfl
    simp at hs
  have hhere := hne "." (by decide)
  have hfirst : Component.ofName? (String.ofList ('v' :: lead)) =
      some (.ordinary (String.ofList ('v' :: lead))) := by
    rw [Component.ofName?, if_neg hhere, if_neg (hne ".." (by decide))]
  refine ⟨'v' :: lead, rest, hsplit, ?_⟩
  rw [targetDir, if_neg Bool.false_ne_true,
    components_join base (by simp [isAbsolute, htext]) (by simpa [hnames] using hhere), hnames,
    List.filterMap_cons_some hfirst]

lemma isChild_targetDir_iff (base : String) (v : Description.Version) :
    IsChild base (targetDir base false v) ↔
      ∀ piece ∈ (splitChars (· == '/') v.moduleName.toList).tail, piece = [] ∨ piece = ['.'] := by
  obtain ⟨first, rest, hsplit, htarget⟩ := exists_components_targetDir base v
  have hdot (piece : List Char) : String.ofList piece = "." ↔ piece = ['.'] := by
    rw [← String.toList_inj, String.toList_ofList]
    rfl
  have hnothing : ((rest.filter (!·.isEmpty)).map String.ofList).filterMap Component.ofName? = [] ↔
      ∀ piece ∈ rest, piece = [] ∨ piece = ['.'] := by
    simp [List.filterMap_eq_nil_iff, ofName?_eq_none, hdot, or_iff_not_imp_left]
  rw [IsChild, htarget, hsplit, List.tail_cons, ← hnothing]
  constructor
  · rintro ⟨name, hname⟩
    exact (List.cons.inj (List.append_cancel_left hname)).2
  · intro hrest
    exact ⟨_, by rw [hrest]⟩

/-- Without `--flat` the files go to a directory one level below the base exactly if no name follows
a slash in the name of the version. Whatever `generate` writes is a file in the target directory,
and it writes nothing unless it has read a description. -/
theorem files_are_in_the_target_directory (settings : Settings) (inputs : List String)
    (out : Option String) (flat : Bool) (v : Description.Version) (m : Machine) :
    let base := out.getD settings.outputDir
    let noted := Noting.run (generate settings inputs out flat) [] m
    (IsChild base (targetDir base false v) ↔
      ∀ piece ∈ (splitChars (· == '/') v.moduleName.toList).tail, piece = [] ∨ piece = ['.']) ∧
    ('/' ∉ v.major.toList ∧ '/' ∉ v.minor.toList →
      components (targetDir base false v) = components base ++ [.ordinary v.moduleName]) ∧
    (noted.1.1, noted.2) = Machine.run (generate settings inputs out flat) m ∧
    (noted.1.2 = [] ∨ ∃ d, (Machine.run (loadInputs inputs) m).1 = .ok d ∧
      ∀ path ∈ noted.1.2, IsChild (targetDir base flat d.version) path) := by
  intro base noted
  refine ⟨isChild_targetDir_iff base v, ?plain, ?same, ?below⟩
  case plain =>
    rintro ⟨hmajor, hminor⟩
    have hslash : '/' ∉ v.moduleName.toList := by
      simp [Description.Version.moduleName, hmajor, hminor]
    obtain ⟨first, rest, hsplit, htarget⟩ := exists_components_targetDir base v
    rw [splitChars_of_notMem hslash] at hsplit
    cases hsplit
    simpa using htarget
  case same => exact (follows_generate settings inputs out flat).result [] m
  case below =>
    refine (written_by_generate settings inputs out flat m).imp_right ?_
    rintro ⟨d, hload, hpaths⟩
    refine ⟨d, hload, fun path hpath => ?_⟩
    obtain ⟨file, hfile, rfl⟩ := hpaths path hpath
    obtain ⟨stem, hword, -, hname⟩ := Source.exists_stem hfile
    exact ⟨file.name, components_join_name _ (hname ▸ Source.isName_fileName hword)⟩

/-- A version that leads past the base directory. -/
def climbing : Description.Version := ⟨"1", "3/../../x"⟩

theorem version_leads_elsewhere :
    components (targetDir "out" false climbing) =
      [.ordinary "out", .ordinary "v1_3", .above, .above, .ordinary "x"] ∧
    ¬ IsChild "out" (targetDir "out" false climbing) := by
  have htarget : components (targetDir "out" false climbing) =
      [.ordinary "out", .ordinary "v1_3", .above, .above, .ordinary "x"] := by decide +kernel
  refine ⟨htarget, fun ⟨name, hname⟩ => ?_⟩
  have hlength := congrArg List.length hname
  have hbase : components "out" = [.ordinary "out"] := by decide +kernel
  rw [htarget, hbase] at hlength
  simp at hlength

end InspectorProtocol

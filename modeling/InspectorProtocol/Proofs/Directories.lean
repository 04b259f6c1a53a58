import InspectorProtocol.Files.Disk
import InspectorProtocol.Proofs.Lookup
import InspectorProtocol.Proofs.Pieces
import Mathlib.Data.List.Nodup

/-!
# Files in a directory

A path that leads to a directory leads on to every name in it. What is done under such a path to a
file of the directory is done at one place of the disk, and the path still leads to the directory
afterwards, since it passes directories and links only.
-/

namespace InspectorProtocol

open Text (Utf8.Bytes)

namespace Path

/-- What an entry of a directory may be called. -/
structure IsName (name : String) : Prop where
  nonempty : name ≠ ""
  slash : '/' ∉ name.toList
  nul : '\x00' ∉ name.toList
  here : name ≠ "."
  above : name ≠ ".."

instance (name : String) : Decidable (IsName name) :=
  decidable_of_iff (name ≠ "" ∧ '/' ∉ name.toList ∧ '\x00' ∉ name.toList ∧ name ≠ "." ∧ name ≠ "..")
    ⟨fun ⟨a, b, c, d, e⟩ => ⟨a, b, c, d, e⟩, fun h => ⟨h.nonempty, h.slash, h.nul, h.here, h.above⟩⟩

variable {base name : String}

lemma isAbsolute_name (hslash : '/' ∉ name.toList) : isAbsolute name = false := by
  cases hhead : name.toList.head? with
  | none => simp [isAbsolute, hhead]
  | some c =>
    have hc : c ≠ '/' := fun heq => hslash (heq ▸ List.mem_of_mem_head? hhead)
    simpa [isAbsolute, hhead] using hc

lemma join_toList (hbase : base ≠ "") (hrelative : isAbsolute name = false) :
    ∃ cs, (join base name).toList = cs ++ '/' :: name.toList ∧
      (base.toList = cs ∧ endsOpen base = false ∨
        base.toList = cs ++ ['/'] ∧ endsOpen base = true) := by
  have hempty : base.isEmpty = false := by simpa using hbase
  cases hopen : endsOpen base with
  | false =>
    refine ⟨base.toList, ?_, .inl ⟨rfl, rfl⟩⟩
    simp [join, hrelative, hempty, hopen]
  | true =>
    have hlast : base.toList.getLast? = some '/' := by simpa [endsOpen] using hopen
    obtain ⟨cs, hcs⟩ := List.getLast?_eq_some_iff.mp hlast
    refine ⟨cs, ?_, .inr ⟨hcs, rfl⟩⟩
    simp [join, hrelative, hempty, hopen, hcs]

lemma names_join_of_relative (hbase : base ≠ "") (hrelative : isAbsolute name = false) :
    names (join base name) = names base ++ names name := by
  obtain ⟨cs, hjoin, hcs⟩ := join_toList hbase hrelative
  have hcsNames : names base =
      ((Text.splitChars (· == '/') cs).filter (!·.isEmpty)).map String.ofList := by
    rcases hcs with ⟨hcs, _⟩ | ⟨hcs, _⟩
    · rw [names, hcs]
    · rw [names, hcs, Text.splitChars_append (by simp)]
      simp [Text.splitChars]
  rw [hcsNames, names, hjoin, Text.splitChars_append (by simp), List.filter_append,
    List.map_append, names]

lemma names_name (hname : name ≠ "") (hslash : '/' ∉ name.toList) : names name = [name] := by
  have hnonempty : name.toList ≠ [] := by simpa using hname
  rw [names, Text.splitChars_of_notMem hslash]
  simp [hnonempty]

lemma names_join (hbase : base ≠ "") (hname : name ≠ "") (hslash : '/' ∉ name.toList) :
    names (join base name) = names base ++ [name] := by
  rw [names_join_of_relative hbase (isAbsolute_name hslash), names_name hname hslash]

lemma endsOpen_join (hbase : base ≠ "") (h : IsName name) : endsOpen (join base name) = false := by
  obtain ⟨cs, hjoin, _⟩ := join_toList hbase (isAbsolute_name h.slash)
  cases hlast : name.toList.getLast? with
  | none => exact absurd (List.getLast?_eq_none_iff.mp hlast) (by simpa using h.nonempty)
  | some c =>
    have hc : c ≠ '/' := fun heq => h.slash (heq ▸ List.mem_of_getLast? hlast)
    have hgo : (cs ++ '/' :: name.toList).getLast? = some c := by
      rw [List.getLast?_append, List.getLast?_cons, hlast]
      rfl
    simpa [endsOpen, hjoin, hgo] using hc

lemma steps_join (hbase : base ≠ "") (h : IsName name) :
    steps (join base name) = names base ++ [name] := by
  rw [steps, endsOpen_join hbase h, names_join hbase h.nonempty h.slash]
  rfl

lemma isAbsolute_join (hbase : base ≠ "") (hrelative : isAbsolute name = false) :
    isAbsolute (join base name) = isAbsolute base := by
  obtain ⟨cs, hjoin, hcs⟩ := join_toList hbase hrelative
  rw [isAbsolute, isAbsolute, hjoin]
  rcases hcs with ⟨hcs, _⟩ | ⟨hcs, _⟩
  · have hne : cs ≠ [] := by rw [← hcs]; simpa using hbase
    rw [hcs, List.head?_append_of_ne_nil _ hne]
  · rw [hcs, List.head?_append, List.head?_append]
    rfl

end Path

namespace Disk

variable {d : Disk}

/-- Names that lead from a directory to another, through directories and links. Of so many links
that may be followed, so many are left. -/
inductive Leads (d : Disk) : Nat → Location → List String → Nat → Location → Prop where
  | done (links : Nat) (here : Location) : Leads d links here [] links here
  | here {links left : Nat} {here loc : Location} {rest : List String}
      (onward : Leads d links here rest left loc) : Leads d links here ("." :: rest) left loc
  | above {links left : Nat} {here loc : Location} {rest : List String}
      (onward : Leads d links here.dropLast rest left loc) :
      Leads d links here (".." :: rest) left loc
  | directory {links left : Nat} {here loc : Location} {name : String} {rest : List String}
      (plain : name ≠ "." ∧ name ≠ "..") (short : ¬ nameLimit < name.utf8ByteSize)
      (entry : d.entryAt? (here ++ [name]) = some .directory)
      (onward : Leads d links (here ++ [name]) rest left loc) :
      Leads d links here (name :: rest) left loc
  | link {links left : Nat} {here loc : Location} {name target : String} {rest : List String}
      (plain : name ≠ "." ∧ name ≠ "..") (short : ¬ nameLimit < name.utf8ByteSize)
      (entry : d.entryAt? (here ++ [name]) = some (.link target))
      (onward : Leads d links (if Path.isAbsolute target then [] else here)
        (Path.steps target ++ rest) left loc) :
      Leads d (links + 1) here (name :: rest) left loc

section Walking

variable {last : Bool} {links left : Nat} {here loc : Location} {name target : String}
  {names rest : List String}

lemma walk_here : d.walk last links here ("." :: rest) = d.walk last links here rest := by
  rw [walk, if_pos rfl]

lemma walk_above :
    d.walk last links here (".." :: rest) = d.walk last links here.dropLast rest := by
  rw [walk, if_neg (by decide), if_pos rfl]

lemma walk_plain (plain : name ≠ "." ∧ name ≠ "..") (short : ¬ nameLimit < name.utf8ByteSize) :
    d.walk last links here (name :: rest) =
      match d.entryAt? (here ++ [name]) with
      | none => if rest.isEmpty then .ok (.vacant (here ++ [name])) else .error .notFound
      | some .directory => d.walk last links (here ++ [name]) rest
      | some (.file contents) =>
        if rest.isEmpty then .ok (.found (here ++ [name]) (.file contents))
        else .error .notADirectory
      | some (.link target) =>
        if rest.isEmpty && !last then .ok (.found (here ++ [name]) (.link target))
        else
          match links with
          | 0 => .error .tooManyLinks
          | left + 1 =>
            d.walk last left (if Path.isAbsolute target then [] else here)
              (Path.steps target ++ rest) := by
  rw [walk, if_neg plain.1, if_neg plain.2]
  exact if_neg short

lemma leads_of_walk (h : d.walk last links here names = .ok (.found loc .directory)) :
    ∃ left, d.Leads links here names left loc := by
  induction links, here, names using walk.induct d last with
  | case1 links here =>
    rw [walk] at h
    cases h
    exact ⟨links, .done links _⟩
  | case2 links here rest ih =>
    rw [walk_here] at h
    obtain ⟨left, hleads⟩ := ih h
    exact ⟨left, hleads.here⟩
  | case3 links here rest _ ih =>
    rw [walk_above] at h
    obtain ⟨left, hleads⟩ := ih h
    exact ⟨left, hleads.above⟩
  | case4 links here name rest hhere habove hlong =>
    rw [walk, if_neg hhere, if_neg habove, if_pos hlong] at h
    cases h
  | case5 links here name rest hhere habove hshort _ hentry hrest =>
    rw [walk_plain ⟨hhere, habove⟩ hshort, hentry] at h
    simp [hrest] at h
  | case6 links here name rest hhere habove hshort _ hentry hrest =>
    rw [walk_plain ⟨hhere, habove⟩ hshort, hentry] at h
    simp [hrest] at h
  | case7 links here name rest hhere habove hshort _ hentry ih =>
    rw [walk_plain ⟨hhere, habove⟩ hshort, hentry] at h
    obtain ⟨left, hleads⟩ := ih h
    exact ⟨left, .directory ⟨hhere, habove⟩ hshort hentry hleads⟩
  | case8 links here name rest hhere habove hshort _ contents hentry hrest =>
    rw [walk_plain ⟨hhere, habove⟩ hshort, hentry] at h
    simp [hrest] at h
  | case9 links here name rest hhere habove hshort _ contents hentry hrest =>
    rw [walk_plain ⟨hhere, habove⟩ hshort, hentry] at h
    simp [hrest] at h
  | case10 links here name rest hhere habove hshort _ target hentry hrest =>
    rw [walk_plain ⟨hhere, habove⟩ hshort, hentry] at h
    simp only [hrest, if_true] at h
    cases h
  | case11 here name rest hhere habove hshort _ target hentry hrest =>
    rw [walk_plain ⟨hhere, habove⟩ hshort, hentry] at h
    simp only [hrest] at h
    cases h
  | case12 here name rest hhere habove hshort _ target hentry hrest left _ ih =>
    rw [walk_plain ⟨hhere, habove⟩ hshort, hentry] at h
    simp only [hrest] at h
    obtain ⟨left', hleads⟩ := ih h
    exact ⟨left', .link ⟨hhere, habove⟩ hshort hentry hleads⟩

lemma Leads.walk_append (h : d.Leads links here names left loc) (hrest : rest ≠ []) :
    d.walk last links here (names ++ rest) = d.walk last left loc rest := by
  induction h with
  | done => rfl
  | here _ ih => rw [List.cons_append, walk_here, ih]
  | above _ ih => rw [List.cons_append, walk_above, ih]
  | directory plain short entry _ ih =>
    rw [List.cons_append, walk_plain plain short, entry]
    exact ih
  | link plain short entry _ ih =>
    rw [List.cons_append, walk_plain plain short, entry]
    simpa [hrest] using ih

lemma Leads.exists_found (h : d.Leads links here names left loc) :
    ∃ place entry, d.walk false links here names = .ok (.found place entry) := by
  induction h with
  | done links here => exact ⟨here, .directory, by rw [walk]⟩
  | here _ ih => simpa only [walk_here] using ih
  | above _ ih => simpa only [walk_above] using ih
  | directory plain short entry _ ih =>
    rw [walk_plain plain short, entry]
    exact ih
  | @link _ _ here _ name target rest plain short entry _ ih =>
    rw [walk_plain plain short, entry]
    by_cases hrest : rest = []
    · exact ⟨here ++ [name], .link target, by simp [hrest]⟩
    · simpa [hrest] using ih

lemma Leads.walk (h : d.Leads links here names left loc) :
    d.walk true links here names = .ok (.found loc .directory) := by
  induction h with
  | done => rw [Disk.walk]
  | here _ ih => rw [walk_here, ih]
  | above _ ih => rw [walk_above, ih]
  | directory plain short entry _ ih =>
    rw [walk_plain plain short, entry]
    exact ih
  | link plain short entry _ ih =>
    rw [walk_plain plain short, entry]
    simpa using ih

lemma Leads.of_dot (h : d.Leads links here (names ++ ["."]) left loc) :
    d.Leads links here names left loc := by
  generalize hall : names ++ ["."] = all at h
  induction h generalizing names with
  | done => simp at hall
  | here h ih =>
    cases names with
    | nil =>
      obtain rfl := (List.cons.inj hall).2
      exact h
    | cons name names =>
      obtain ⟨rfl, hrest⟩ := List.cons.inj hall
      exact .here (ih hrest)
  | above h ih =>
    cases names with
    | nil => exact absurd (List.cons.inj hall).1 (by decide)
    | cons name names =>
      obtain ⟨rfl, hrest⟩ := List.cons.inj hall
      exact .above (ih hrest)
  | directory plain short entry h ih =>
    cases names with
    | nil => exact absurd (List.cons.inj hall).1.symm plain.1
    | cons name names =>
      obtain ⟨rfl, hrest⟩ := List.cons.inj hall
      exact .directory plain short entry (ih hrest)
  | link plain short entry h ih =>
    cases names with
    | nil => exact absurd (List.cons.inj hall).1.symm plain.1
    | cons name names =>
      obtain ⟨rfl, rfl⟩ := List.cons.inj hall
      exact .link plain short entry (ih (List.append_assoc _ _ _))

lemma Leads.mono {d' : Disk} (h : d.Leads links here names left loc)
    (hkept : ∀ place entry, d.entryAt? place = some entry →
      (∀ contents, entry ≠ .file contents) → d'.entryAt? place = some entry) :
    d'.Leads links here names left loc := by
  induction h with
  | done => exact .done _ _
  | here _ ih => exact .here ih
  | above _ ih => exact .above ih
  | directory plain short entry _ ih =>
    exact .directory plain short (hkept _ _ entry (by simp)) ih
  | link plain short entry _ ih => exact .link plain short (hkept _ _ entry (by simp)) ih

end Walking

section Entries

variable {loc place other : Location} {name : String} {entry : Entry}

lemma entryAt?_erase (hloc : loc ≠ []) :
    (d.erase loc).entryAt? other = if other = loc then none else d.entryAt? other := by
  by_cases h : other = loc
  · have hnone : (d.erase loc).entries.lookup loc = none :=
      lookup_filter_of_dropped fun _ => by simp
    rw [if_pos h, h, entryAt?, if_neg hloc, hnone]
  · have hrest : (d.erase loc).entries.lookup other = d.entries.lookup other :=
      lookup_filter_of_kept fun _ => by simpa using h
    rw [if_neg h, entryAt?, entryAt?, hrest]

lemma entryAt?_put (hloc : loc ≠ []) :
    (d.put loc entry).entryAt? other = if other = loc then some entry else d.entryAt? other := by
  by_cases h : other = loc
  · simp [entryAt?, put, h, hloc]
  · have hother : (other == loc) = false := beq_false_of_ne h
    rw [if_neg h, entryAt?, put, List.lookup_cons, hother]
    exact (entryAt?_erase hloc).trans (if_neg h)

lemma getLast?_of_dropLast : place.dropLast = loc ∧ place.getLast? = some name ↔
    place = loc ++ [name] := by
  constructor
  · rintro ⟨rfl, hlast⟩
    exact (List.dropLast_append_getLast? _ hlast).symm
  · rintro rfl
    simp

lemma mem_namesIn : name ∈ d.namesIn loc ↔ ∃ entry, d.entryAt? (loc ++ [name]) = some entry := by
  have hplace : loc ++ [name] ≠ [] := by simp
  have hlookup : d.entryAt? (loc ++ [name]) = d.entries.lookup (loc ++ [name]) := by
    rw [entryAt?, if_neg hplace]
  rw [hlookup]
  constructor
  · intro h
    obtain ⟨⟨place, entry⟩, he, hname⟩ := List.mem_filterMap.mp h
    have heq : place = loc ++ [name] := by
      by_cases hdrop : place.dropLast = loc
      · exact getLast?_of_dropLast.mp ⟨hdrop, by simpa only [if_pos hdrop] using hname⟩
      · simp only [if_neg hdrop] at hname
        cases hname
    cases hfound : d.entries.lookup (loc ++ [name]) with
    | some found => exact ⟨found, rfl⟩
    | none =>
      have hnone := List.lookup_eq_none_iff.mp hfound (place, entry) he
      simp [heq] at hnone
  · rintro ⟨entry, h⟩
    obtain ⟨before, after, hsplit, _⟩ := List.lookup_eq_some_iff.mp h
    refine List.mem_filterMap.mpr ⟨(loc ++ [name], entry), by simp [hsplit], ?_⟩
    simp

/-- A disk where every entry has a proper name and no place has two entries. -/
structure Sound (d : Disk) : Prop where
  named : ∀ e ∈ d.entries, ∀ name, e.1.getLast? = some name → Path.IsName name
  once : (d.entries.map (·.1)).Nodup

lemma Sound.isName (h : d.Sound) (hentry : d.entryAt? (loc ++ [name]) = some entry) :
    Path.IsName name := by
  rw [entryAt?, if_neg (by simp)] at hentry
  obtain ⟨before, after, hsplit, _⟩ := List.lookup_eq_some_iff.mp hentry
  exact h.named (loc ++ [name], entry) (by simp [hsplit]) name (by simp)

lemma Sound.erase (h : d.Sound) (loc : Location) : (d.erase loc).Sound := by
  constructor
  · intro e he
    exact h.named e (List.mem_of_mem_filter he)
  · exact h.once.sublist (List.filter_sublist.map _)

lemma Sound.put (h : d.Sound) (hname : Path.IsName name) (entry : Entry) :
    (d.put (loc ++ [name]) entry).Sound := by
  have hrest := h.erase (loc ++ [name])
  constructor
  · intro e he last hlast
    rcases List.mem_cons.mp he with rfl | he
    · obtain rfl : name = last := by simpa using hlast
      exact hname
    · exact hrest.named e he last hlast
  · refine List.nodup_cons.mpr ⟨?_, hrest.once⟩
    intro hmem
    obtain ⟨e, he, heq⟩ := List.mem_map.mp hmem
    exact (by simpa using (List.mem_filter.mp he).2 : e.1 ≠ loc ++ [name]) heq

lemma Sound.nodup_namesIn (h : d.Sound) (loc : Location) : (d.namesIn loc).Nodup := by
  have heq : d.namesIn loc = (d.entries.map (·.1)).filterMap fun place =>
      if place.dropLast = loc then place.getLast? else none := by
    rw [List.filterMap_map]
    rfl
  rw [heq]
  refine h.once.filterMap fun a b name ha hb => ?_
  have place_eq : ∀ place : Location,
      name ∈ (if place.dropLast = loc then place.getLast? else none) → place = loc ++ [name] := by
    intro place hplace
    split at hplace
    · rename_i hdrop
      exact getLast?_of_dropLast.mp ⟨hdrop, hplace⟩
    · cases hplace
  rw [place_eq a ha, place_eq b hb]

end Entries

/-- A path that leads to a directory. -/
structure Reaches (d : Disk) (dir : String) (loc : Location) : Prop where
  nonempty : dir ≠ ""
  nul : '\x00' ∉ dir.toList
  short : dir.utf8ByteSize < pathLimit
  leads : ∃ left, d.Leads linkLimit (if Path.isAbsolute dir then [] else d.current)
    (Path.names dir) left loc

/-- Whether the path of a name below a directory is short enough, and the name as well. -/
def Fits (dir name : String) : Prop :=
  (Path.join dir name).utf8ByteSize < pathLimit ∧ name.utf8ByteSize ≤ nameLimit

instance (dir name : String) : Decidable (Fits dir name) := inferInstanceAs (Decidable (_ ∧ _))

section Below

variable {last : Bool} {dir name : String} {loc place : Location} {contents : Utf8.Bytes}
  {entry : Entry}

lemma locate_inv {path : String} {steps : List String} {found : Place}
    (hlocate : d.locate last path steps = .ok found) :
    '\x00' ∉ path.toList ∧ path ≠ "" ∧ path.utf8ByteSize < pathLimit ∧
      d.walk last linkLimit (if Path.isAbsolute path then [] else d.current) steps = .ok found := by
  unfold locate at hlocate
  split at hlocate
  · cases hlocate
  rename_i hnul
  split at hlocate
  · cases hlocate
  rename_i hempty
  split at hlocate
  · cases hlocate
  rename_i hshort
  exact ⟨by simpa using hnul, by simpa using hempty, by omega, hlocate⟩

lemma reaches_of_resolve (h : d.resolve dir = .ok (.found loc .directory)) :
    d.Reaches dir loc := by
  obtain ⟨hnul, hempty, hshort, hwalk⟩ := locate_inv h
  obtain ⟨left, hleads⟩ := leads_of_walk hwalk
  refine ⟨hempty, hnul, hshort, left, ?_⟩
  unfold Path.steps at hleads
  by_cases hopen : Path.endsOpen dir = true
  · rw [if_pos hopen] at hleads
    exact hleads.of_dot
  · rwa [if_neg hopen] at hleads

lemma Reaches.mono {d' : Disk} (h : d.Reaches dir loc) (hcurrent : d'.current = d.current)
    (hkept : ∀ place entry, d.entryAt? place = some entry →
      (∀ contents, entry ≠ .file contents) → d'.entryAt? place = some entry) :
    d'.Reaches dir loc := by
  obtain ⟨left, hleads⟩ := h.leads
  exact ⟨h.nonempty, h.nul, h.short, left, hcurrent ▸ hleads.mono hkept⟩

lemma Reaches.locate_eq (h : d.Reaches dir loc) (steps : List String) :
    d.locate last dir steps =
      d.walk last linkLimit (if Path.isAbsolute dir then [] else d.current) steps := by
  have hempty : dir.isEmpty = false := by simpa using h.nonempty
  have hshort : ¬ pathLimit ≤ dir.utf8ByteSize := by
    have := h.short
    omega
  rw [locate, if_neg (by simpa using h.nul), if_neg (by simp [hempty]), if_neg hshort]

lemma Reaches.resolve (h : d.Reaches dir loc) :
    d.resolve dir = .ok (.found loc .directory) := by
  obtain ⟨left, hleads⟩ := h.leads
  rw [Disk.resolve, h.locate_eq, Path.steps]
  by_cases hopen : Path.endsOpen dir = true
  · rw [if_pos hopen, hleads.walk_append (by simp), walk_here, Disk.walk]
  · rw [if_neg hopen]
    exact hleads.walk

lemma Reaches.list (h : d.Reaches dir loc) : d.list dir = .ok (d.namesIn loc) := by
  rw [Disk.list, h.resolve]
  rfl

lemma Reaches.createDirectories (h : d.Reaches dir loc) : d.createDirectories dir = .ok d := by
  obtain ⟨left, hleads⟩ := h.leads
  obtain ⟨place, entry, hfound⟩ := hleads.exists_found
  have hcreate : d.create dir .directory = .error .alreadyExists := by
    rw [create, h.locate_eq, hfound]
    rfl
  have hdirectory : d.isDirectory dir = true := by rw [isDirectory, h.resolve]
  obtain ⟨above, habove⟩ : ∃ above, Path.ancestors dir = dir :: above := by
    unfold Path.ancestors
    rw [if_neg (by simpa using h.nonempty)]
    split
    · exact ⟨_, rfl⟩
    · exact ⟨_, rfl⟩
  rw [Disk.createDirectories, habove, createAll, hcreate]
  simp [hdirectory]

lemma nul_join (hdir : '\x00' ∉ dir.toList) (hnonempty : dir ≠ "") (hname : Path.IsName name) :
    '\x00' ∉ (Path.join dir name).toList := by
  obtain ⟨cs, hjoin, hcs⟩ := Path.join_toList hnonempty (Path.isAbsolute_name hname.slash)
  have hlead : '\x00' ∉ cs := by
    intro hmem
    rcases hcs with ⟨hcs, _⟩ | ⟨hcs, _⟩
    · exact hdir (hcs ▸ hmem)
    · exact hdir (hcs ▸ List.mem_append_left _ hmem)
  simp [hjoin, hlead, hname.nul]

lemma join_ne_empty (hnonempty : dir ≠ "") (hname : Path.IsName name) :
    Path.join dir name ≠ "" := by
  obtain ⟨cs, hjoin, _⟩ := Path.join_toList hnonempty (Path.isAbsolute_name hname.slash)
  intro heq
  simp [heq] at hjoin

/-- What is at a name of the directory, unless the name is too long. -/
lemma Reaches.locate_join (h : d.Reaches dir loc) (hname : Path.IsName name)
    (hlink : ∀ target, d.entryAt? (loc ++ [name]) ≠ some (.link target)) :
    d.locate last (Path.join dir name) (Path.names dir ++ [name]) =
      if Fits dir name then
        .ok (match d.entryAt? (loc ++ [name]) with
          | none => .vacant (loc ++ [name])
          | some entry => .found (loc ++ [name]) entry)
      else .error .nameTooLong := by
  obtain ⟨left, hleads⟩ := h.leads
  have hempty : (Path.join dir name).isEmpty = false := by
    simpa using join_ne_empty h.nonempty hname
  have hnul := nul_join h.nul h.nonempty hname
  rw [locate, if_neg (by simpa using hnul), if_neg (by simp [hempty]),
    Path.isAbsolute_join h.nonempty (Path.isAbsolute_name hname.slash),
    hleads.walk_append (by simp)]
  by_cases hpath : pathLimit ≤ (Path.join dir name).utf8ByteSize
  · rw [if_pos hpath, if_neg fun hfits => absurd hfits.1 (by omega)]
  rw [if_neg hpath]
  by_cases hlong : nameLimit < name.utf8ByteSize
  · rw [if_neg fun hfits => absurd hfits.2 (by omega), walk, if_neg hname.here,
      if_neg hname.above, if_pos hlong]
  rw [if_pos ⟨by omega, by omega⟩, walk_plain ⟨hname.here, hname.above⟩ hlong]
  cases hentry : d.entryAt? (loc ++ [name]) with
  | none => rfl
  | some entry =>
    cases entry with
    | directory => simp only [walk]
    | file contents => rfl
    | link target => exact absurd hentry (hlink target)

/-- A file can only be written where a path leads that does not end with a slash, and not over a
directory. -/
lemma locate_of_write {path : String} {d' : Disk} (hwrite : d.write path contents = .ok d') :
    Path.endsOpen path = false ∧ ∃ place, d.locate true path (Path.names path) = .ok place ∧
      ∀ loc, place ≠ .found loc .directory := by
  rw [write, fileAt] at hwrite
  cases hplace : d.locate true path (Path.names path) with
  | error fault => simp [hplace, bind, Except.bind] at hwrite
  | ok place =>
    cases hopen : Path.endsOpen path with
    | true =>
      refine absurd hwrite ?_
      rcases place with ⟨loc, entry⟩ | loc
      · cases entry <;> simp [hplace, hopen, bind, Except.bind]
      · simp [hplace, hopen, bind, Except.bind]
    | false =>
      refine ⟨rfl, place, rfl, ?_⟩
      rintro loc rfl
      simp [hplace, bind, Except.bind] at hwrite

lemma Reaches.isName_of_write {d' : Disk} (h : d.Reaches dir loc) (hslash : '/' ∉ name.toList)
    (hwrite : d.write (Path.join dir name) contents = .ok d') : Path.IsName name := by
  obtain ⟨hclosed, place, hplace, hfree⟩ := locate_of_write hwrite
  obtain ⟨cs, hjoin, -⟩ := Path.join_toList h.nonempty (Path.isAbsolute_name hslash)
  obtain ⟨left, hleads⟩ := h.leads
  obtain ⟨hnul, -, -, hends⟩ := locate_inv hplace
  have hnonempty : name ≠ "" := by
    rintro rfl
    simp [Path.endsOpen, hjoin] at hclosed
  rw [Path.names_join h.nonempty hnonempty hslash,
    Path.isAbsolute_join h.nonempty (Path.isAbsolute_name hslash),
    hleads.walk_append (by simp)] at hends
  refine ⟨hnonempty, hslash, fun hmem => hnul (by simp [hjoin, hmem]), ?here, ?above⟩
  case here =>
    rintro rfl
    rw [walk_here, walk] at hends
    exact hfree loc (Except.ok.inj hends).symm
  case above =>
    rintro rfl
    rw [walk_above, walk] at hends
    exact hfree loc.dropLast (Except.ok.inj hends).symm

variable (h : d.Reaches dir loc) (hname : Path.IsName name)
  (hlink : ∀ target, d.entryAt? (loc ++ [name]) ≠ some (.link target))
include h hname hlink

lemma Reaches.read_join :
    d.read (Path.join dir name) = .ok contents ↔
      Fits dir name ∧ d.entryAt? (loc ++ [name]) = some (.file contents) := by
  have hsteps := Path.steps_join h.nonempty hname
  rw [read, Disk.resolve, hsteps, h.locate_join hname hlink]
  by_cases hfits : Fits dir name
  · rw [if_pos hfits]
    cases hentry : d.entryAt? (loc ++ [name]) with
    | none => simp [bind, Except.bind]
    | some entry =>
      cases entry with
      | directory => simp [bind, Except.bind]
      | file found => simp [bind, Except.bind, hfits]
      | link target => exact absurd hentry (hlink target)
  · rw [if_neg hfits]
    simp [bind, Except.bind, hfits]

lemma Reaches.write_join (contents : Utf8.Bytes) :
    (Fits dir name ∧ d.entryAt? (loc ++ [name]) ≠ some .directory ∧
      d.write (Path.join dir name) contents = .ok (d.put (loc ++ [name]) (.file contents))) ∨
    ((¬ Fits dir name ∨ d.entryAt? (loc ++ [name]) = some .directory) ∧
      ∃ fault, d.write (Path.join dir name) contents = .error fault) := by
  have hnames := Path.names_join h.nonempty hname.nonempty hname.slash
  have hopen := Path.endsOpen_join h.nonempty hname
  rw [write, fileAt, hnames, h.locate_join hname hlink]
  by_cases hfits : Fits dir name
  · rw [if_pos hfits]
    cases hentry : d.entryAt? (loc ++ [name]) with
    | none => exact .inl ⟨hfits, by simp, by simp [bind, Except.bind, hopen, pure, Except.pure]⟩
    | some entry =>
      cases entry with
      | directory => exact .inr ⟨.inr rfl, .isADirectory, rfl⟩
      | file found =>
        exact .inl ⟨hfits, by simp, by simp [bind, Except.bind, hopen, pure, Except.pure]⟩
      | link target => exact absurd hentry (hlink target)
  · rw [if_neg hfits]
    exact .inr ⟨.inl hfits, .nameTooLong, rfl⟩

lemma Reaches.remove_join (hfits : Fits dir name)
    (hfile : d.entryAt? (loc ++ [name]) = some (.file contents)) :
    d.remove (Path.join dir name) = .ok (d.erase (loc ++ [name])) := by
  have hsteps := Path.steps_join h.nonempty hname
  rw [remove, hsteps, h.locate_join hname hlink, if_pos hfits, hfile]
  rfl

end Below

/-- A directory without links in it, on a sound disk, and a path that leads to it. -/
structure OpenDirectory (d : Disk) (dir : String) (loc : Location) : Prop where
  sound : d.Sound
  reaches : d.Reaches dir loc
  plain : ∀ name target, d.entryAt? (loc ++ [name]) ≠ some (.link target)

namespace OpenDirectory

variable {dir name : String} {loc : Location} {contents : Utf8.Bytes} {entry : Entry}

lemma put (h : d.OpenDirectory dir loc) (hname : Path.IsName name)
    (hentry : ∀ target, entry ≠ .link target)
    (hfree : d.entryAt? (loc ++ [name]) ≠ some .directory) :
    (d.put (loc ++ [name]) entry).OpenDirectory dir loc := by
  have hplace : loc ++ [name] ≠ [] := by simp
  refine ⟨h.sound.put hname _, h.reaches.mono rfl ?_, ?_⟩
  · intro place old hold hfile
    rw [entryAt?_put hplace, if_neg ?_]
    · exact hold
    · rintro rfl
      cases old with
      | file contents => exact hfile contents rfl
      | directory => exact hfree hold
      | link target => exact h.plain name target hold
  · intro other target
    rw [entryAt?_put hplace]
    split
    · exact fun heq => hentry target (Option.some.inj heq)
    · exact h.plain other target

lemma erase (h : d.OpenDirectory dir loc)
    (hfile : d.entryAt? (loc ++ [name]) = some (.file contents)) :
    (d.erase (loc ++ [name])).OpenDirectory dir loc := by
  have hplace : loc ++ [name] ≠ [] := by simp
  refine ⟨h.sound.erase _, h.reaches.mono rfl ?_, ?_⟩
  · intro place entry hentry hnofile
    rw [entryAt?_erase hplace, if_neg ?_]
    · exact hentry
    · rintro rfl
      rw [hfile] at hentry
      exact hnofile contents (Option.some.inj hentry).symm
  · intro other target
    rw [entryAt?_erase hplace]
    split
    · simp
    · exact h.plain other target

lemma read_iff (h : d.OpenDirectory dir loc) (hname : Path.IsName name) :
    d.read (Path.join dir name) = .ok contents ↔
      Fits dir name ∧ d.entryAt? (loc ++ [name]) = some (.file contents) :=
  h.reaches.read_join hname (h.plain name)

lemma isOk_write_iff (h : d.OpenDirectory dir loc) (hname : Path.IsName name) :
    (d.write (Path.join dir name) contents).isOk = true ↔
      Fits dir name ∧ d.entryAt? (loc ++ [name]) ≠ some .directory := by
  rcases h.reaches.write_join hname (h.plain name) contents with
      ⟨hfits, hfree, hwrite⟩ | ⟨hnot, fault, hwrite⟩
  · simp [hwrite, hfits, hfree, Except.isOk, Except.toBool]
  · rw [hwrite]
    refine ⟨fun hok => absurd hok (by simp [Except.isOk, Except.toBool]), fun ⟨hfits, hfree⟩ => ?_⟩
    exact absurd hnot (not_or.mpr ⟨not_not.mpr hfits, hfree⟩)

lemma write_of_isOk (h : d.OpenDirectory dir loc) (hname : Path.IsName name)
    (hok : (d.write (Path.join dir name) contents).isOk = true) :
    d.write (Path.join dir name) contents = .ok (d.put (loc ++ [name]) (.file contents)) := by
  obtain ⟨hfits, hfree⟩ := (h.isOk_write_iff hname).mp hok
  rcases h.reaches.write_join hname (h.plain name) contents with ⟨_, _, hwrite⟩ | ⟨hnot, _⟩
  · exact hwrite
  · exact absurd hnot (not_or.mpr ⟨not_not.mpr hfits, hfree⟩)

end OpenDirectory

end Disk

end InspectorProtocol

import InspectorProtocol.Address.Basic
import InspectorProtocol.Files.Path
import InspectorProtocol.Proofs.Pieces
import Mathlib.Data.List.TakeWhile

/-!
# Two ways to write the path of a socket

An absolute path is an address as it stands. Behind `unix://` it is read as the path of a URL, which
has no blanks, no characters outside ASCII and no dot segments, and ends before a query. Whatever
stands there, a path in this form comes out of it. So the two ways agree on exactly the paths that
have the form already.
-/

namespace InspectorProtocol.Address

open Text

/-- The characters that stand in the path of a URL as they are. -/
def isUrlChar (c : Char) : Bool :=
  0x20 < c.toNat && c.toNat < 0x7F && !(['"', '#', '<', '>', '?', '`', '{', '}'].contains c)

/-- The ways to write a dot in a URL. -/
def dots : List (List Char) := [['.'], ['%', '2', 'e'], ['%', '2', 'E']]

/-- One dot or two of them, however they are written. -/
def IsDotSegment (segment : List Char) : Prop :=
  segment ∈ dots ∨ ∃ first ∈ dots, ∃ second ∈ dots, segment = first ++ second

/-- A path as a finished URL has it. -/
structure IsUrlPath (path : List Char) : Prop where
  chars : ∀ c ∈ path, isUrlChar c = true
  segments : ∀ segment ∈ splitChars (· == '/') path, ¬ IsDotSegment segment

namespace Segments

lemma plainDots_eq_nil {cs : List Char} : plainDots cs = [] ↔ cs = [] := by
  constructor
  · intro h
    unfold plainDots at h
    split at h <;> simp_all
  · rintro rfl
    rfl

lemma plainDots_eq_cons {cs rest : List Char} :
    plainDots cs = '.' :: rest ↔
      ∃ dot ∈ dots, ∃ more, cs = dot ++ more ∧ plainDots more = rest := by
  constructor
  · intro h
    unfold plainDots at h
    split at h
    · rename_i more
      exact ⟨['%', '2', 'e'], by decide, more, rfl, (List.cons.inj h).2⟩
    · rename_i more
      exact ⟨['%', '2', 'E'], by decide, more, rfl, (List.cons.inj h).2⟩
    · rename_i c more _ _
      obtain ⟨rfl, hmore⟩ := List.cons.inj h
      exact ⟨['.'], by decide, more, rfl, hmore⟩
    · cases h
  · rintro ⟨dot, hdot, more, rfl, rfl⟩
    simp only [dots, List.mem_cons, List.not_mem_nil, or_false] at hdot
    rcases hdot with rfl | rfl | rfl <;> simp [plainDots]

lemma isDotSegment_iff {segment : List Char} :
    IsDotSegment segment ↔ plainDots segment = ['.'] ∨ plainDots segment = ['.', '.'] := by
  simp [plainDots_eq_cons, plainDots_eq_nil, IsDotSegment, and_comm]

lemma mem_of_mem_above {place : List (List Char)} {segment : List Char}
    (h : segment ∈ above place) : segment ∈ place := by
  unfold above at h
  split at h
  · exact h
  · split at h
    · exact h
    · exact List.mem_cons_of_mem _ h

/-- Nothing comes out of following segments but the place, an empty segment for a slash at the end,
and segments that are no dots. -/
lemma mem_follow {place segments : List (List Char)} {segment : List Char}
    (h : segment ∈ follow place segments) :
    segment ∈ place ∨ segment = [] ∨ segment ∈ segments ∧ ¬ IsDotSegment segment := by
  induction segments generalizing place with
  | nil => exact .inl h
  | cons first rest ih =>
    have hclosed : ∀ here : List (List Char),
        segment ∈ follow (if rest.isEmpty then [] :: here else here) rest →
          segment ∈ here ∨ segment = [] ∨ segment ∈ first :: rest ∧ ¬ IsDotSegment segment := by
      intro here h
      rcases ih h with hplace | hempty | ⟨hrest, hnot⟩
      · split at hplace
        · rcases List.mem_cons.mp hplace with rfl | hplace
          · exact .inr (.inl rfl)
          · exact .inl hplace
        · exact .inl hplace
      · exact .inr (.inl hempty)
      · exact .inr (.inr ⟨List.mem_cons_of_mem _ hrest, hnot⟩)
    rw [follow] at h
    split at h
    · exact hclosed place h
    · split at h
      · exact (hclosed (above place) h).imp_left mem_of_mem_above
      · rename_i hone htwo
        rcases ih h with hplace | hempty | ⟨hrest, hnot⟩
        · rcases List.mem_cons.mp hplace with rfl | hplace
          · refine .inr (.inr ⟨List.mem_cons_self, ?_⟩)
            rw [isDotSegment_iff, not_or]
            exact ⟨hone, htwo⟩
          · exact .inl hplace
        · exact .inr (.inl hempty)
        · exact .inr (.inr ⟨List.mem_cons_of_mem _ hrest, hnot⟩)

lemma follow_ne_nil {place segments : List (List Char)} (h : place ≠ [] ∨ segments ≠ []) :
    follow place segments ≠ [] := by
  fun_induction follow place segments with
  | case1 place => simpa using h
  | case2 place segment rest close _ ih | case3 place segment rest close _ _ ih =>
    refine ih ?_
    by_cases hrest : rest = []
    · exact .inl (by simp [close, hrest])
    · exact .inr hrest
  | case4 place segment rest _ _ ih => exact ih (.inl (by simp))

lemma follow_of_forall {place segments : List (List Char)}
    (h : ∀ segment ∈ segments, ¬ IsDotSegment segment) :
    follow place segments = segments.reverse ++ place := by
  induction segments generalizing place with
  | nil => rfl
  | cons segment rest ih =>
    have hrest := fun other hother => h other (List.mem_cons_of_mem _ hother)
    have hsegment := h segment List.mem_cons_self
    rw [isDotSegment_iff, not_or] at hsegment
    rw [follow, if_neg hsegment.1, if_neg hsegment.2, ih hrest]
    simp

end Segments

section Form

variable {path : List Char}

lemma isUrlChar_slash : isUrlChar '/' = true := by decide

lemma lt_of_isUrlChar {c : Char} (h : isUrlChar c = true) : c.toNat < 0x80 := by
  simp only [isUrlChar, Bool.and_eq_true, decide_eq_true_eq] at h
  omega

lemma inPath_eq_false_iff {byte : UInt8} :
    PercentCode.inPath byte = false ↔ isUrlChar (Char.ofNat byte.toNat) = true := by
  have hall : ∀ n < 256,
      PercentCode.inPath (.ofNat n) = false ↔ isUrlChar (Char.ofNat n) = true := by
    decide +kernel
  simpa using hall byte.toNat byte.toNat_lt

lemma isUrlChar_of_mem_encode {c : Char} (h : c ∈ PercentCode.encode PercentCode.inPath path) :
    isUrlChar c = true := by
  have hdigit : ∀ n < 16, isUrlChar (Nat.digitChar n).toUpper = true := by decide
  obtain ⟨byte, _, hc⟩ := List.mem_flatMap.mp h
  have hlow := byte.toNat_lt
  split at hc
  · simp only [List.mem_cons, List.not_mem_nil, or_false] at hc
    rcases hc with rfl | rfl | rfl
    · decide
    · exact hdigit _ (by omega)
    · exact hdigit _ (by omega)
  · rename_i hplain
    rw [List.mem_singleton.mp hc]
    exact inPath_eq_false_iff.mp (by simpa using hplain)

lemma encode_of_forall (h : ∀ c ∈ path, isUrlChar c = true) :
    PercentCode.encode PercentCode.inPath path = path := by
  induction path with
  | nil => rfl
  | cons c rest ih =>
    have hc := h c List.mem_cons_self
    have hlow := lt_of_isUrlChar hc
    have hbyte : (UInt8.ofNat c.toNat).toNat = c.toNat := by
      rw [UInt8.toNat_ofNat']
      omega
    have hchar : Char.ofNat (UInt8.ofNat c.toNat).toNat = c := by rw [hbyte, Char.ofNat_toNat]
    have hplain : PercentCode.inPath (.ofNat c.toNat) = false :=
      inPath_eq_false_iff.mpr (hchar.symm ▸ hc)
    have hrest := ih fun d hd => h d (List.mem_cons_of_mem _ hd)
    rw [PercentCode.encode] at hrest ⊢
    rw [List.flatMap_cons, List.flatMap_append, hrest, Utf8.encodeChar]
    simp only [hlow, if_true, List.flatMap_cons, List.flatMap_nil, hplain, Bool.false_eq_true,
      if_false, hchar]
    rfl

lemma isUrlPath_normalize (path : List Char) : IsUrlPath (Segments.normalize path) := by
  have hsegment : ∀ segment ∈ (Segments.follow []
      (splitChars (· == '/') (PercentCode.encode PercentCode.inPath path))).reverse,
      segment = [] ∨ segment ∈ splitChars (· == '/')
        (PercentCode.encode PercentCode.inPath path) ∧ ¬ IsDotSegment segment := by
    intro segment h
    exact (Segments.mem_follow (List.mem_reverse.mp h)).resolve_left List.not_mem_nil
  constructor
  · intro c hc
    obtain ⟨segment, hmem, hc⟩ := List.mem_flatMap.mp hc
    rcases List.mem_cons.mp hc with rfl | hc
    · exact isUrlChar_slash
    · rcases hsegment segment hmem with rfl | ⟨hsplit, _⟩
      · cases hc
      · exact isUrlChar_of_mem_encode (mem_of_mem_splitChars hsplit hc)
  · have hslash : ∀ segment ∈ [] :: (Segments.follow []
        (splitChars (· == '/') (PercentCode.encode PercentCode.inPath path))).reverse,
        '/' ∉ segment := fun segment hmem => by
      rcases List.mem_cons.mp hmem with rfl | hmem
      · exact List.not_mem_nil
      · rcases hsegment segment hmem with rfl | ⟨hsplit, _⟩
        · exact List.not_mem_nil
        · exact notMem_of_mem_splitChars hsplit
    have hsplit := splitChars_append_flatMap hslash
    intro segment hmem
    rw [Segments.normalize, ← List.nil_append (List.flatMap _ _), hsplit] at hmem
    have hempty : ¬ IsDotSegment [] := by simp [IsDotSegment, dots]
    rcases List.mem_cons.mp hmem with rfl | hmem
    · exact hempty
    · rcases hsegment segment hmem with rfl | ⟨_, hnot⟩
      · exact hempty
      · exact hnot

lemma normalize_of_isUrlPath (h : IsUrlPath ('/' :: path)) :
    Segments.normalize path = '/' :: path := by
  have hchars := encode_of_forall fun c hc => h.chars c (List.mem_cons_of_mem _ hc)
  have hsegments : ∀ segment ∈ splitChars (· == '/') path, ¬ IsDotSegment segment := by
    intro segment hmem
    refine h.segments segment ?_
    rw [splitChars]
    exact List.mem_cons_of_mem _ hmem
  rw [Segments.normalize, hchars, Segments.follow_of_forall hsegments, List.append_nil,
    List.reverse_reverse, flatMap_splitChars]

lemma exists_normalize (path : List Char) : ∃ rest, Segments.normalize path = '/' :: rest := by
  have hsome : Segments.follow []
      (splitChars (· == '/') (PercentCode.encode PercentCode.inPath path)) ≠ [] :=
    Segments.follow_ne_nil (.inr (splitChars_ne_nil _ _))
  rw [← List.reverse_ne_nil_iff] at hsome
  obtain ⟨first, rest, hcons⟩ := List.exists_cons_of_ne_nil hsome
  exact ⟨_, by rw [Segments.normalize, hcons, List.flatMap_cons, List.cons_append]⟩

end Form

namespace Url

lemma exists_clean (path : List Char) : ∃ rest, clean ('/' :: path) = '/' :: rest := by
  rw [clean, List.reverse_cons, List.dropWhile_append]
  split
  · simp
  · rw [List.reverse_append, List.reverse_singleton, List.singleton_append,
      List.filter_cons_of_pos (by decide)]
    exact ⟨_, rfl⟩

lemma clean_of_forall {path : List Char} (h : ∀ c ∈ path, isUrlChar c = true) :
    clean path = path := by
  have hlow : ∀ c ∈ path, ¬ c.toNat ≤ 0x20 := by
    intro c hc
    have hchar := h c hc
    simp only [isUrlChar, Bool.and_eq_true, decide_eq_true_eq] at hchar
    omega
  have hdrop : path.reverse.dropWhile (·.toNat ≤ 0x20) = path.reverse := by
    rw [List.dropWhile_eq_self_iff]
    intro hlength
    simpa using hlow _ (List.mem_reverse.mp (List.getElem_mem hlength))
  rw [clean, hdrop, List.reverse_reverse, List.filter_eq_self]
  intro c hc
  have hblank := hlow c hc
  simp only [bne_iff_ne, ne_eq, Bool.and_eq_true]
  refine ⟨⟨?_, ?_⟩, ?_⟩ <;> rintro rfl <;> exact hblank (by decide)

lemma read_slash (path : List Char) :
    ∃ rest, read false ('/' :: path) = .ok ⟨none, none, Segments.normalize rest⟩ ∧
      ((∀ c ∈ path, isUrlChar c = true) → rest = path) := by
  obtain ⟨rest, hclean⟩ := exists_clean path
  refine ⟨rest.takeWhile fun c => c != '?' && c != '#', ?_, fun h => ?_⟩
  · simp only [read, hclean]
    rfl
  · have hsame : rest = path := by
      have hwhole : clean ('/' :: path) = '/' :: path := clean_of_forall fun c hc => by
        rcases List.mem_cons.mp hc with rfl | hc
        · exact isUrlChar_slash
        · exact h c hc
      exact (List.cons.inj (hclean.symm.trans hwhole)).2
    rw [hsame, List.takeWhile_eq_self_iff]
    intro c hc
    have hchar := h c hc
    simp only [bne_iff_ne, ne_eq, Bool.and_eq_true]
    refine ⟨?_, ?_⟩ <;> rintro rfl <;> exact absurd hchar (by decide)

end Url

lemma parse_unix {path : String} {url : Url} (h : Url.read false path.toList = .ok url) :
    parse ("unix://" ++ path) = .ok (.unix (String.ofList url.path)) := by
  have hws : dropLead? "ws://" ("unix://" ++ path) = none := by simp [dropLead?]
  have hwss : dropLead? "wss://" ("unix://" ++ path) = none := by simp [dropLead?]
  have htcp : dropLead? "tcp://" ("unix://" ++ path) = none := by simp [dropLead?]
  have hunix : dropLead? "unix://" ("unix://" ++ path) = some path := by simp [dropLead?]
  rw [parse, hws, hwss, htcp, hunix]
  change ((Url.read false path.toList).mapError _ >>= _) = _
  rw [h]
  rfl

lemma exists_of_isAbsolute {path : String} (h : Path.isAbsolute path = true) :
    ∃ rest, path.toList = '/' :: rest :=
  List.head?_eq_some_iff.mp (by simpa [Path.isAbsolute] using h)

lemma parse_of_isAbsolute {path : String} (h : Path.isAbsolute path = true) :
    parse path = .ok (.unix path) := by
  obtain ⟨rest, hpath⟩ := exists_of_isAbsolute h
  have hws : dropLead? "ws://" path = none := by simp [dropLead?, hpath]
  have hwss : dropLead? "wss://" path = none := by simp [dropLead?, hpath]
  have htcp : dropLead? "tcp://" path = none := by simp [dropLead?, hpath]
  have hunix : dropLead? "unix://" path = none := by simp [dropLead?, hpath]
  have hslash : startsWith path "/" = true := by simp [startsWith, hpath]
  simp only [parse, hws, hwss, htcp, hunix, hslash, if_true]

/-- An absolute path in the form of a URL path is the same address behind `unix://`. -/
lemma parse_unix_of_isUrlPath {path : String} (habsolute : Path.isAbsolute path = true)
    (h : IsUrlPath path.toList) : parse ("unix://" ++ path) = .ok (.unix path) := by
  obtain ⟨rest, hpath⟩ := exists_of_isAbsolute habsolute
  obtain ⟨kept, hread, hkept⟩ := Url.read_slash rest
  have hrest := hkept fun c hc => h.chars c (hpath ▸ List.mem_cons_of_mem _ hc)
  subst hrest
  rw [parse_unix (hpath ▸ hread), normalize_of_isUrlPath (hpath ▸ h), ← hpath, String.ofList_toList]

/-- An absolute path is an address as it stands. Behind `unix://` it is never refused: some absolute
path in the form of a URL path comes out, for which the two ways agree, and which is the path that
was given exactly if that has the form already. -/
theorem spellings_agree_on_url_paths (path : String) (h : Path.isAbsolute path = true) :
    parse path = .ok (.unix path) ∧ ∃ found : String,
      parse ("unix://" ++ path) = .ok (.unix found) ∧
      Path.isAbsolute found = true ∧ IsUrlPath found.toList ∧
      parse ("unix://" ++ found) = .ok (.unix found) ∧
      (found = path ↔ IsUrlPath path.toList) := by
  obtain ⟨rest, hpath⟩ := exists_of_isAbsolute h
  obtain ⟨kept, hread, _⟩ := Url.read_slash rest
  have hparse := parse_unix (hpath ▸ hread)
  obtain ⟨tail, htail⟩ := exists_normalize kept
  have habsolute : Path.isAbsolute (String.ofList (Segments.normalize kept)) = true := by
    simp [Path.isAbsolute, htail]
  have hform : IsUrlPath (String.ofList (Segments.normalize kept)).toList := by
    rw [String.toList_ofList]
    exact isUrlPath_normalize kept
  refine ⟨parse_of_isAbsolute h, _, hparse, habsolute, hform,
    parse_unix_of_isUrlPath habsolute hform, fun hsame => hsame ▸ hform, fun hurl => ?_⟩
  have hsame := hparse.symm.trans (parse_unix_of_isUrlPath h hurl)
  exact Address.unix.inj (Except.ok.inj hsame)

/-- A path through a dot segment, with an accent and a query. -/
def winding : String := "/run/../tmp/café.sock?debug"

theorem winding_path_is_brought_into_form :
    Path.isAbsolute winding = true ∧ ∃ found : String,
      parse ("unix://" ++ winding) = .ok (.unix found) ∧ found = "/tmp/caf%C3%A9.sock" ∧
      parse ("unix://" ++ found) = .ok (.unix found) := by
  have habsolute : Path.isAbsolute winding = true := by decide
  obtain ⟨_, found, hparse, _, _, hagain, _⟩ := spellings_agree_on_url_paths winding habsolute
  have hread : Url.read false winding.toList =
      .ok ⟨none, none, "/tmp/caf%C3%A9.sock".toList⟩ := by rfl
  have hfound := hparse.symm.trans (parse_unix hread)
  exact ⟨habsolute, found, hparse, Address.unix.inj (Except.ok.inj hfound), hagain⟩

/-- A blank in the path of a socket comes out as a percent code, which names another socket. -/
theorem socket_with_a_blank_is_missed :
    parse "/tmp/my socket" = .ok (.unix "/tmp/my socket") ∧
      parse "unix:///tmp/my socket" = .ok (.unix "/tmp/my%20socket") := by
  have hread : Url.read false "/tmp/my socket".toList =
      .ok ⟨none, none, "/tmp/my%20socket".toList⟩ := by rfl
  exact ⟨parse_of_isAbsolute (by decide), parse_unix hread⟩

end InspectorProtocol.Address

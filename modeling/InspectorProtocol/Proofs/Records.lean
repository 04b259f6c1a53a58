import InspectorProtocol.Failure
import Mathlib.Data.List.Count
import Mathlib.Data.List.Nodup
import Mathlib.Tactic.Lemma

/-!
# Which documents are records

A reader of any value goes through all of a document, so what it accepts is intact, and so is every
part. A record whose fields may all be left out is read from an object exactly when no field comes
twice and each one that is there fits; other members do not count. What a field sets is then what
its member says.
-/

namespace InspectorProtocol.Json.Decoder

/-- Whether a reader accepts a document. -/
def Accepts {α : Type} (read : Decoder α) (d : Document) : Prop := ∃ a, read d = .ok a

lemma not_accepts_refuse {α : Type} {expected : String} {d : Document} :
    ¬ Accepts (refuse expected : Decoder α) d := by
  rintro ⟨a, h⟩
  obtain ⟨_, _, h⟩ := exists_of_bind_ok h
  cases h

/-! ### Any value -/

mutual

lemma intact_of_any {budget : Nat} {d : Document} {v : Json} (h : any budget d = .ok v) :
    d.intact = true := by
  cases d with
  | null | bool => rfl
  | broken => cases h
  | number value =>
    cases value with
    | none => cases h
    | some => rfl
  | string value =>
    cases value with
    | none => cases h
    | some => rfl
  | array items closed =>
    cases budget with
    | zero => cases h
    | succ left =>
      rw [any] at h
      obtain ⟨values, hitems, h⟩ := exists_of_bind_ok h
      cases closed with
      | false => cases h
      | true => rw [Document.intact, intact_of_anyItems hitems, Bool.true_and]
  | object members closed =>
    cases budget with
    | zero => cases h
    | succ left =>
      rw [any] at h
      obtain ⟨values, hmembers, h⟩ := exists_of_bind_ok h
      cases closed with
      | false => cases h
      | true => rw [Document.intact, intact_of_anyMembers hmembers, Bool.true_and]

lemma intact_of_anyItems {budget : Nat} {items : List Document} {values : List Json}
    (h : any.anyItems budget items = .ok values) : Document.intact.intactItems items = true := by
  cases items with
  | nil => rfl
  | cons item rest =>
    rw [any.anyItems] at h
    obtain ⟨value, hitem, h⟩ := exists_of_bind_ok h
    obtain ⟨others, hrest, h⟩ := exists_of_bind_ok h
    rw [Document.intact.intactItems, intact_of_any hitem, intact_of_anyItems hrest, Bool.true_and]

lemma intact_of_anyMembers {budget : Nat} {members : List (Option String × Document)}
    {values : List (String × Json)} (h : any.anyMembers budget members = .ok values) :
    Document.intact.intactMembers members = true := by
  cases members with
  | nil => rfl
  | cons member rest =>
    obtain ⟨name, d⟩ := member
    cases name with
    | none => cases h
    | some name =>
      rw [any.anyMembers] at h
      obtain ⟨value, hvalue, h⟩ := exists_of_bind_ok h
      obtain ⟨others, hrest, h⟩ := exists_of_bind_ok h
      rw [Document.intact.intactMembers, intact_of_any hvalue, intact_of_anyMembers hrest,
        Bool.true_and]

end

lemma any_of_mem_items {budget : Nat} {items : List Document} {values : List Json}
    (h : any.anyItems budget items = .ok values) : ∀ d ∈ items, Accepts (any budget) d := by
  induction items generalizing values with
  | nil => simp
  | cons item rest ih =>
    rw [any.anyItems] at h
    obtain ⟨value, hitem, h⟩ := exists_of_bind_ok h
    obtain ⟨others, hrest, _⟩ := exists_of_bind_ok h
    intro d hd
    rcases List.mem_cons.mp hd with rfl | hlater
    · exact ⟨value, hitem⟩
    · exact ih hrest d hlater

/-- A member with a name, whose value is accepted. -/
def AcceptsMember (budget : Nat) (member : Option String × Document) : Prop :=
  ∃ name, member.1 = some name ∧ Accepts (any budget) member.2

lemma any_of_mem_members {budget : Nat} {members : List (Option String × Document)}
    {values : List (String × Json)} (h : any.anyMembers budget members = .ok values) :
    ∀ m ∈ members, AcceptsMember budget m := by
  induction members generalizing values with
  | nil => simp
  | cons member rest ih =>
    obtain ⟨name, d⟩ := member
    cases name with
    | none => cases h
    | some name =>
      rw [any.anyMembers] at h
      obtain ⟨value, hvalue, h⟩ := exists_of_bind_ok h
      obtain ⟨others, hrest, _⟩ := exists_of_bind_ok h
      intro m hm
      rcases List.mem_cons.mp hm with rfl | hlater
      · exact ⟨name, rfl, value, hvalue⟩
      · exact ih hrest m hlater

lemma any_object {budget : Nat} {members : List (Option String × Document)} {closed : Bool}
    {v : Json} (h : any (budget + 1) (.object members closed) = .ok v) :
    closed = true ∧ ∀ m ∈ members, AcceptsMember budget m := by
  rw [any] at h
  obtain ⟨values, hmembers, h⟩ := exists_of_bind_ok h
  cases closed with
  | false => cases h
  | true => exact ⟨rfl, any_of_mem_members hmembers⟩

lemma any_array {budget : Nat} {items : List Document} {closed : Bool} {v : Json}
    (h : any (budget + 1) (.array items closed) = .ok v) :
    closed = true ∧ ∀ d ∈ items, Accepts (any budget) d := by
  rw [any] at h
  obtain ⟨values, hitems, h⟩ := exists_of_bind_ok h
  cases closed with
  | false => cases h
  | true => exact ⟨rfl, any_of_mem_items hitems⟩

/-! ### Records -/

lemma eq_of_count_le_one {members : List (Option String × Document)} {name : Option String}
    {d e : Document} (honce : (members.map (·.1)).count name ≤ 1) (hd : (name, d) ∈ members)
    (he : (name, e) ∈ members) : d = e := by
  induction members with
  | nil => cases hd
  | cons m rest ih =>
    rw [List.map_cons, List.count_cons] at honce
    have hrest : ∀ x, (name, x) ∈ rest → 0 < (rest.map (·.1)).count name :=
      fun x hx => List.count_pos_iff.mpr (List.mem_map_of_mem hx)
    rcases List.mem_cons.mp hd with rfl | hlater
    · rcases List.mem_cons.mp he with heq | hlater'
      · exact (congrArg Prod.snd heq).symm
      · have hpos := hrest e hlater'
        simp only [beq_self_eq_true, if_true] at honce
        omega
    · rcases List.mem_cons.mp he with rfl | hlater'
      · have hpos := hrest d hlater
        simp only [beq_self_eq_true, if_true] at honce
        omega
      · exact ih (by omega) hlater hlater'

lemma accepts_free {σ α : Type} {name : String} {read : Decoder α} {set : α → σ → σ}
    {d : Document} : Accepts (Field.free name read set).read d ↔ Accepts read d := by
  cases h : read d with
  | error reason => simp [Accepts, Field.free, h]
  | ok a => simp [Accepts, Field.free, h]

lemma exists_of_free {σ α : Type} {name : String} {read : Decoder α} {set : α → σ → σ}
    {d : Document} {change : σ → σ} (h : (Field.free name read set).read d = .ok change) :
    ∃ a, read d = .ok a ∧ change = set a := by
  cases hread : read d with
  | error reason => simp [Field.free, hread] at h
  | ok a =>
    simp only [Field.free, hread] at h
    exact ⟨a, rfl, (Except.ok.inj h).symm⟩

lemma accepts_optional {α : Type} {read : Decoder α} {d : Document} :
    Accepts (optional read) d ↔ d = .null ∨ Accepts read d := by
  unfold Accepts optional
  split
  · simp
  · rename_i hnull
    cases h : read d with
    | error reason => simpa [h] using hnull
    | ok a => simp

lemma ok_of_optional {α : Type} {read : Decoder α} {d : Document} {a : α}
    (h : optional read d = .ok (some a)) : read d = .ok a := by
  unfold optional at h
  split at h
  · cases h
  · cases hread : read d with
    | error reason => simp [hread] at h
    | ok b => simpa [hread] using h

section Records

variable {σ : Type} {fields : List (Field σ)} {closed : Bool} {seen : List String} {value r : σ}
  {members : List (Option String × Document)}

lemma eq_of_find?_name {f g : Field σ} {name : String} (hnodup : (fields.map (·.name)).Nodup)
    (hfind : fields.find? (·.name == name) = some f) (hg : g ∈ fields) (hname : g.name = name) :
    g = f := by
  have hf : f.name = name := by simpa using List.find?_some hfind
  exact List.inj_on_of_nodup_map hnodup hg (List.mem_of_find?_eq_some hfind) (hname.trans hf.symm)

lemma recordMembers_unknown {name : String} {d : Document} (hintact : d.intact = true)
    (hunknown : fields.find? (·.name == name) = none) :
    recordMembers fields closed seen value ((some name, d) :: members) =
      recordMembers fields closed seen value members := by
  rw [recordMembers, hunknown]
  simp only [skip, hintact, if_true]
  rfl

lemma recordMembers_known {name : String} {d : Document} {f : Field σ}
    (hknown : fields.find? (·.name == name) = some f) (hnew : name ∉ seen) :
    recordMembers fields closed seen value ((some name, d) :: members) =
      f.read d >>= fun set => recordMembers fields closed (name :: seen) (set value) members := by
  rw [recordMembers, hknown]
  simp only [List.contains_eq_mem, hnew, decide_false, Bool.false_eq_true, if_false]

lemma recordMembers_repeated {name : String} {d : Document} {f : Field σ}
    (hknown : fields.find? (·.name == name) = some f) (hseen : name ∈ seen) :
    recordMembers fields closed seen value ((some name, d) :: members) =
      .error (.mismatch (.duplicateField name)) := by
  rw [recordMembers, hknown]
  simp only [List.contains_eq_mem, hseen, decide_true, if_true]

/-- The member of a field comes once at most, and not again, and fits. -/
structure FitsOnce (f : Field σ) (seen : List String) (members : List (Option String × Document)) :
    Prop where
  fresh : f.name ∈ seen → ∀ d, (some f.name, d) ∉ members
  once : (members.map (·.1)).count (some f.name) ≤ 1
  accepts : ∀ d, (some f.name, d) ∈ members → Accepts f.read d

lemma fitsOnce_cons_of_ne {f : Field σ} {name : String} {d : Document} (hne : f.name ≠ name) :
    FitsOnce f seen ((some name, d) :: members) ↔ FitsOnce f seen members := by
  have hmem : ∀ e, (some f.name, e) ∈ (some name, d) :: members ↔ (some f.name, e) ∈ members := by
    intro e
    simp [hne]
  have hcount : (((some name, d) :: members).map (·.1)).count (some f.name) =
      (members.map (·.1)).count (some f.name) := by
    rw [List.map_cons, List.count_cons_of_ne]
    simpa using Ne.symm hne
  constructor
  · rintro ⟨hfresh, honce, haccepts⟩
    exact ⟨fun h e => mt (hmem e).mpr (hfresh h e), hcount ▸ honce,
      fun e he => haccepts e ((hmem e).mpr he)⟩
  · rintro ⟨hfresh, honce, haccepts⟩
    exact ⟨fun h e => mt (hmem e).mp (hfresh h e), hcount ▸ honce,
      fun e he => haccepts e ((hmem e).mp he)⟩

lemma fitsOnce_cons_self {f : Field σ} {d : Document} (hnew : f.name ∉ seen) :
    FitsOnce f seen ((some f.name, d) :: members) ↔
      Accepts f.read d ∧ FitsOnce f (f.name :: seen) members := by
  have hcount : (((some f.name, d) :: members).map (·.1)).count (some f.name) =
      (members.map (·.1)).count (some f.name) + 1 := by
    rw [List.map_cons, List.count_cons_self]
  have hnone : (members.map (·.1)).count (some f.name) = 0 ↔ ∀ e, (some f.name, e) ∉ members := by
    rw [List.count_eq_zero]
    simp
  constructor
  · rintro ⟨_, honce, haccepts⟩
    have habsent := hnone.mp (by omega)
    refine ⟨haccepts d List.mem_cons_self, fun _ => habsent, by omega, ?_⟩
    intro e he
    exact absurd he (habsent e)
  · rintro ⟨hhead, hfresh, _, _⟩
    have habsent := hfresh List.mem_cons_self
    refine ⟨fun h => absurd h hnew, ?_, ?_⟩
    · have hzero := hnone.mpr habsent
      omega
    · intro e he
      rcases List.mem_cons.mp he with heq | hlater
      · cases heq
        exact hhead
      · exact absurd hlater (habsent e)

lemma fitsOnce_seen {f : Field σ} {name : String} (hne : f.name ≠ name) :
    FitsOnce f (name :: seen) members ↔ FitsOnce f seen members := by
  constructor
  · rintro ⟨hfresh, honce, haccepts⟩
    exact ⟨fun h => hfresh (List.mem_cons_of_mem _ h), honce, haccepts⟩
  · rintro ⟨hfresh, honce, haccepts⟩
    refine ⟨fun h => hfresh ?_, honce, haccepts⟩
    rcases List.mem_cons.mp h with heq | hlater
    · exact absurd heq hne
    · exact hlater

/-- A closed object is read as a record of fields that may be left out exactly when every field fits
and comes once at most. -/
theorem recordMembers_ok_iff (hnodup : (fields.map (·.name)).Nodup)
    (hfree : ∀ f ∈ fields, f.required = false)
    (hmembers : ∀ m ∈ members, ∃ name, m.1 = some name ∧ m.2.intact = true) :
    (∃ r, recordMembers fields true seen value members = .ok r) ↔
      ∀ f ∈ fields, FitsOnce f seen members := by
  induction members generalizing seen value with
  | nil =>
    have hnone : fields.find? (fun f => f.required && !seen.contains f.name) = none := by
      rw [List.find?_eq_none]
      intro f hf
      simp [hfree f hf]
    refine iff_of_true ⟨value, ?_⟩ ?_
    · rw [recordMembers, hnone]
      rfl
    · intro f _
      exact ⟨by simp, by simp, by simp⟩
  | cons m rest ih =>
    obtain ⟨name, d⟩ := m
    obtain ⟨_, rfl, hintact⟩ := hmembers _ List.mem_cons_self
    rename_i name
    have hrest : ∀ m ∈ rest, ∃ name, m.1 = some name ∧ m.2.intact = true :=
      fun m hm => hmembers m (List.mem_cons_of_mem _ hm)
    cases hfind : fields.find? (·.name == name) with
    | none =>
      have hne : ∀ f ∈ fields, f.name ≠ name := by
        simpa using List.find?_eq_none.mp hfind
      rw [recordMembers_unknown hintact hfind, ih hrest]
      exact forall₂_congr fun f hf => (fitsOnce_cons_of_ne (hne f hf)).symm
    | some f =>
      have hf : f ∈ fields := List.mem_of_find?_eq_some hfind
      obtain rfl : f.name = name := by simpa using List.find?_some hfind
      by_cases hseen : f.name ∈ seen
      · rw [recordMembers_repeated hfind hseen]
        refine iff_of_false (by simp) fun hall => ?_
        exact (hall f hf).fresh hseen d List.mem_cons_self
      · rw [recordMembers_known hfind hseen]
        constructor
        · rintro ⟨r, h⟩
          obtain ⟨set, hread, h⟩ := exists_of_bind_ok h
          have hall := (ih hrest).mp ⟨r, h⟩
          intro g hg
          by_cases hsame : g.name = f.name
          · obtain rfl := eq_of_find?_name hnodup hfind hg hsame
            exact (fitsOnce_cons_self hseen).mpr ⟨⟨set, hread⟩, hall g hg⟩
          · exact (fitsOnce_cons_of_ne hsame).mpr ((fitsOnce_seen hsame).mp (hall g hg))
        · intro hall
          obtain ⟨⟨set, hread⟩, hself⟩ := (fitsOnce_cons_self hseen).mp (hall f hf)
          rw [hread]
          refine (ih hrest).mpr fun g hg => ?_
          by_cases hsame : g.name = f.name
          · obtain rfl := eq_of_find?_name hnodup hfind hg hsame
            exact hself
          · exact (fitsOnce_seen hsame).mpr ((fitsOnce_cons_of_ne hsame).mp (hall g hg))

/-! ### What a field sets -/

lemma eq_of_recordMembers_nil (h : recordMembers fields closed seen value [] = .ok r) :
    value = r := by
  rw [recordMembers] at h
  split at h
  · cases h
  · split at h
    · cases h
    · exact Except.ok.inj h

lemma recordMembers_cons_ok {m : Option String × Document}
    (h : recordMembers fields closed seen value (m :: members) = .ok r) :
    ∃ name, m.1 = some name ∧
      ((fields.find? (·.name == name) = none ∧
          recordMembers fields closed seen value members = .ok r) ∨
        ∃ f set, fields.find? (·.name == name) = some f ∧ name ∉ seen ∧ f.read m.2 = .ok set ∧
          recordMembers fields closed (name :: seen) (set value) members = .ok r) := by
  obtain ⟨name, d⟩ := m
  cases name with
  | none => cases h
  | some name =>
    refine ⟨name, rfl, ?_⟩
    cases hfind : fields.find? (·.name == name) with
    | none =>
      rw [recordMembers, hfind] at h
      obtain ⟨_, _, h⟩ := exists_of_bind_ok h
      exact .inl ⟨rfl, h⟩
    | some f =>
      by_cases hseen : name ∈ seen
      · rw [recordMembers_repeated hfind hseen] at h
        cases h
      · rw [recordMembers_known hfind hseen] at h
        obtain ⟨set, hread, h⟩ := exists_of_bind_ok h
        exact .inr ⟨f, set, rfl, hseen, hread, h⟩

lemma not_mem_of_seen (h : recordMembers fields closed seen value members = .ok r) {f : Field σ}
    (hf : f ∈ fields) (hseen : f.name ∈ seen) (d : Document) : (some f.name, d) ∉ members := by
  induction members generalizing seen value with
  | nil => simp
  | cons m rest ih =>
    obtain ⟨name, hname, hunknown | ⟨g, set, hfind, hnew, _, hrest⟩⟩ := recordMembers_cons_ok h
    · intro hmem
      rcases List.mem_cons.mp hmem with rfl | hlater
      · obtain rfl : f.name = name := Option.some.inj hname
        have hnone := List.find?_eq_none.mp hunknown.1 f hf
        simp at hnone
      · exact ih hunknown.2 hseen hlater
    · intro hmem
      rcases List.mem_cons.mp hmem with rfl | hlater
      · obtain rfl : f.name = name := Option.some.inj hname
        exact hnew hseen
      · exact ih hrest (List.mem_cons_of_mem _ hseen) hlater

/-- What only one field changes is as its member sets it, or as it was. -/
theorem get_of_recordMembers {β : Type} {get : σ → β} {f : Field σ} (hf : f ∈ fields)
    (hothers : ∀ g ∈ fields, g.name ≠ f.name →
      ∀ d set, g.read d = .ok set → ∀ s, get (set s) = get s)
    (hnodup : (fields.map (·.name)).Nodup)
    (h : recordMembers fields closed seen value members = .ok r) :
    ((∀ d, (some f.name, d) ∉ members) → get r = get value) ∧
      ∀ d, (some f.name, d) ∈ members → ∃ set s, f.read d = .ok set ∧ get r = get (set s) := by
  induction members generalizing seen value with
  | nil =>
    obtain rfl := eq_of_recordMembers_nil h
    exact ⟨fun _ => rfl, by simp⟩
  | cons m rest ih =>
    obtain ⟨name, hname, ⟨hunknown, hrest⟩ | ⟨g, set, hfind, _, hread, hrest⟩⟩ :=
      recordMembers_cons_ok h
    · obtain ⟨habsent, hpresent⟩ := ih hrest
      refine ⟨fun hnone => habsent fun d hd => hnone d (List.mem_cons_of_mem _ hd), ?_⟩
      intro d hd
      rcases List.mem_cons.mp hd with rfl | hlater
      · obtain rfl : f.name = name := Option.some.inj hname
        have hnone := List.find?_eq_none.mp hunknown f hf
        simp at hnone
      · exact hpresent d hlater
    · obtain ⟨habsent, hpresent⟩ := ih hrest
      by_cases hsame : f.name = name
      · subst hsame
        obtain rfl := eq_of_find?_name hnodup hfind hf rfl
        have hlast := habsent fun d => not_mem_of_seen hrest hf List.mem_cons_self d
        refine ⟨fun hnone => ?_, fun d hd => ?_⟩
        · refine absurd ?_ (hnone m.2)
          rw [← hname]
          exact List.mem_cons_self
        · rcases List.mem_cons.mp hd with rfl | hlater
          · exact ⟨set, value, hread, hlast⟩
          · exact absurd hlater (not_mem_of_seen hrest hf List.mem_cons_self d)
      · have hg : g.name = name := by simpa using List.find?_some hfind
        have hkept : get (set value) = get value :=
          hothers g (List.mem_of_find?_eq_some hfind) (fun heq => hsame (heq.symm.trans hg)) m.2 set
            hread value
        refine ⟨fun hnone => ?_, fun d hd => ?_⟩
        · rw [habsent fun d hd => hnone d (List.mem_cons_of_mem _ hd), hkept]
        · rcases List.mem_cons.mp hd with rfl | hlater
          · exact absurd (Option.some.inj hname) hsame
          · exact hpresent d hlater

/-- What every field keeps holds of the record that is read from members. -/
lemma recordMembers_preserves {P : σ → Prop} {Q : Document → Prop}
    (hfields : ∀ f ∈ fields, ∀ d set, Q d → f.read d = .ok set → ∀ s, P s → P (set s))
    (hmembers : ∀ m ∈ members, Q m.2) (hvalue : P value)
    (h : recordMembers fields closed seen value members = .ok r) : P r := by
  induction members generalizing seen value with
  | nil => exact eq_of_recordMembers_nil h ▸ hvalue
  | cons m rest ih =>
    obtain ⟨hm, hrest⟩ := List.forall_mem_cons.mp hmembers
    obtain ⟨name, -, ⟨-, hlater⟩ | ⟨f, set, hfind, -, hread, hlater⟩⟩ := recordMembers_cons_ok h
    · exact ih hrest hvalue hlater
    · exact ih hrest (hfields f (List.mem_of_find?_eq_some hfind) m.2 set hm hread value hvalue)
        hlater

lemma recordItems_preserves {P : σ → Prop} {Q : Document → Prop} {origin : Origin}
    {expected : String} {total index : Nat} {items : List Document}
    (hfields : ∀ f ∈ fields, ∀ d set, Q d → f.read d = .ok set → ∀ s, P s → P (set s))
    (hitems : ∀ d ∈ items, Q d) (hvalue : P value)
    (h : recordItems origin expected closed total index fields value items = .ok r) : P r := by
  induction fields generalizing index value items with
  | nil =>
    cases items with
    | nil =>
      rw [recordItems] at h
      split at h
      · exact Except.ok.inj h ▸ hvalue
      · cases h
    | cons d rest => cases origin <;> cases h
  | cons f fields ih =>
    obtain ⟨hf, hothers⟩ := List.forall_mem_cons.mp hfields
    cases items with
    | nil =>
      rw [recordItems] at h
      split at h
      · cases h
      split at h
      · cases h
      · exact ih hothers (by simp) hvalue h
    | cons d rest =>
      obtain ⟨hd, hrest⟩ := List.forall_mem_cons.mp hitems
      rw [recordItems] at h
      obtain ⟨set, hread, h⟩ := exists_of_bind_ok h
      exact ih hothers hrest (hf d set hd hread value hvalue) h

/-- A closed array is read as a record of fields that may be left out exactly when it has no more
items than there are fields and each item fits its field. -/
theorem recordItems_ok_iff {expected : String} {total index : Nat} {items : List Document}
    (hfree : ∀ f ∈ fields, f.required = false) :
    (∃ r, recordItems .text expected true total index fields value items = .ok r) ↔
      items.length ≤ fields.length ∧ ∀ p ∈ fields.zip items, Accepts p.1.read p.2 := by
  induction fields generalizing index value items with
  | nil =>
    cases items with
    | nil => simp [recordItems]
    | cons d rest => simp [recordItems]
  | cons f fields ih =>
    have hrest : ∀ f ∈ fields, f.required = false := fun g hg => hfree g (List.mem_cons_of_mem _ hg)
    cases items with
    | nil =>
      have hhead := hfree f List.mem_cons_self
      simp only [recordItems, hhead, Bool.not_true, Bool.false_eq_true, if_false, ih hrest]
      simp
    | cons d rest =>
      rw [recordItems]
      constructor
      · rintro ⟨r, h⟩
        obtain ⟨set, hread, h⟩ := exists_of_bind_ok h
        obtain ⟨hlength, hall⟩ := (ih hrest).mp ⟨r, h⟩
        refine ⟨Nat.succ_le_succ hlength, fun p hp => ?_⟩
        rcases List.mem_cons.mp hp with rfl | hlater
        · exact ⟨set, hread⟩
        · exact hall p hlater
      · rintro ⟨hlength, hall⟩
        obtain ⟨set, hread⟩ := hall (f, d) List.mem_cons_self
        obtain ⟨r, h⟩ : ∃ r, recordItems .text expected true total (index + 1) fields (set value)
            rest = .ok r :=
          (ih hrest).mpr
            ⟨Nat.le_of_succ_le_succ hlength, fun p hp => hall p (List.mem_cons_of_mem _ hp)⟩
        refine ⟨r, ?_⟩
        rw [show f.read d = .ok set from hread]
        exact h

end Records

end InspectorProtocol.Json.Decoder

import InspectorProtocol.Proofs.JsonText
import InspectorProtocol.Proofs.Records

/-!
# What was read from text can be read again

Every number that the lexer finds is one that a text can hold, and so is every number of the
document that its tokens are put together to. So the text of a value that was read from such a
document is read as a value again: the numbers come back as numbers, and nothing nests deeper than
before. Members of one name are told apart only when they are read first; of these the last is kept.
-/

namespace InspectorProtocol.Json

/-! ### Numbers in range, from the characters to the document -/

/-- A number token has a value that a text can hold, if it has one. -/
def Token.Sound (token : Token) : Prop := ∀ n, token = .number (some n) → n.InRange

/-- A token that is to come after the characters of a word counts too. -/
structure Lexer.Sound (l : Lexer) : Prop where
  tokens : ∀ token ∈ l.tokens, token.Sound
  word : ∀ missing token, l.mode = .word missing token → token.Sound

namespace Lexer.Sound

variable {l : Lexer}

lemma number (t : NumberText) : Token.Sound (.number t.value?) := by
  intro n hn
  exact Number.inRange_of_value? (Token.number.inj hn)

lemma emit (h : l.Sound) {token : Token} (htoken : token.Sound) : (l.emit token).Sound where
  tokens := List.forall_mem_cons.mpr ⟨htoken, h.tokens⟩
  word := by simp [Lexer.emit]

lemma fail (h : l.Sound) : l.fail.Sound where
  tokens := List.forall_mem_cons.mpr ⟨by simp [Token.Sound], h.tokens⟩
  word := by simp [Lexer.fail]

lemma enter (h : l.Sound) {mode : Mode}
    (hword : ∀ missing token, mode = .word missing token → token.Sound) : (l.enter mode).Sound :=
  ⟨h.tokens, hword⟩

lemma ite {p : Prop} [Decidable p] {l' : Lexer} (h : l.Sound) (h' : l'.Sound) :
    (if p then l else l').Sound := by
  split
  · exact h
  · exact h'

lemma start (h : l.Sound) (c : Char) : (l.start c).Sound := by
  have hword {missing : List Char} {token : Token} (htoken : token.Sound) :
      (l.enter (.word missing token)).Sound := by
    refine h.enter fun _ _ heq => ?_
    cases heq
    exact htoken
  unfold Lexer.start
  refine .ite h ?_
  iterate 6 refine .ite (h.emit (by simp [Token.Sound])) ?_
  refine .ite (h.enter (by simp)) ?_
  iterate 3 refine .ite (hword (by simp [Token.Sound])) ?_
  iterate 3 refine .ite (h.enter (by simp)) ?_
  exact h.fail

lemma step (h : l.Sound) (c : Char) : (l.step c).Sound := by
  unfold Lexer.step
  cases hmode : l.mode with
  | between => exact h.start c
  | stopped => exact h
  | word missing token =>
    have htoken := h.word missing token hmode
    match missing with
    | [] => exact h.fail
    | [last] => exact .ite (h.emit htoken) h.fail
    | next :: another :: rest =>
      refine .ite (h.enter fun _ _ heq => ?_) h.fail
      cases heq
      exact htoken
  | number phase t =>
    simp only
    split
    · exact h.enter (by simp)
    · exact .ite ((h.emit (number t)).start c) h.fail
  | string t =>
    refine .ite (h.emit (by simp [Token.Sound])) (.ite (h.enter (by simp)) ?_)
    exact .ite h.fail (h.enter (by simp))
  | escape t =>
    refine .ite (h.enter (by simp)) ?_
    split
    · exact h.enter (by simp)
    · exact h.fail
  | unit missing value t =>
    simp only
    split
    · exact h.fail
    · exact .ite (h.enter (by simp)) (h.enter (by simp))

lemma foldl (h : l.Sound) (cs : List Char) : (cs.foldl Lexer.step l).Sound := by
  induction cs generalizing l with
  | nil => exact h
  | cons c rest ih => exact ih (h.step c)

lemma finish (h : l.Sound) : ∀ token ∈ l.finish, token.Sound := by
  have hmalformed : Token.Sound .malformed := by simp [Token.Sound]
  intro token htoken
  rw [Lexer.finish, List.mem_reverse, List.mem_append] at htoken
  rcases htoken with hlast | hbefore
  · split at hlast
    · cases hlast
    · cases hlast
    · split at hlast
      · rw [List.mem_singleton.mp hlast]
        exact number _
      · rw [List.mem_singleton.mp hlast]
        exact hmalformed
    · rw [List.mem_singleton.mp hlast]
      exact hmalformed
  · exact h.tokens token hbefore

end Lexer.Sound

lemma sound_of_mem_tokens (s : String) : ∀ token ∈ tokens s, token.Sound := by
  have hstart : Lexer.Sound {} := ⟨by simp, by simp⟩
  exact (hstart.foldl s.toList).finish

/-- Every number in a document is one that a text can hold. -/
inductive Document.Sound : Document → Prop
  | null : Sound .null
  | bool {value : Bool} : Sound (.bool value)
  | number {value : Option Number} (h : ∀ n, value = some n → n.InRange) : Sound (.number value)
  | string {value : Option String} : Sound (.string value)
  | array {items : List Document} {closed : Bool} (h : ∀ d ∈ items, Sound d) :
    Sound (.array items closed)
  | object {members : List (Option String × Document)} {closed : Bool}
    (h : ∀ m ∈ members, Sound m.2) : Sound (.object members closed)
  | broken : Sound .broken

/-- The same of what is already read of a part. -/
inductive OpenPart.Sound : OpenPart → Prop
  | array {items : List Document} (h : ∀ d ∈ items, d.Sound) : Sound (.array items)
  | object {members : List (Option String × Document)} {name : Option String}
    (h : ∀ m ∈ members, m.2.Sound) : Sound (.object members name)

structure Assembly.Sound (a : Assembly) : Prop where
  parts : ∀ part ∈ a.parts, part.Sound
  root : a.root.Sound

namespace Assembly.Sound

variable {a : Assembly} {d : Document}

lemma put (h : a.Sound) (hd : d.Sound) : (a.put d).Sound := by
  obtain ⟨parts, await, root, trailing⟩ := a
  match parts with
  | [] => exact ⟨h.parts, hd⟩
  | .array items :: outer =>
    obtain ⟨hpart, houter⟩ := List.forall_mem_cons.mp h.parts
    cases hpart with
    | array hitems =>
      refine ⟨List.forall_mem_cons.mpr ⟨.array ?_, houter⟩, h.root⟩
      exact List.forall_mem_cons.mpr ⟨hd, hitems⟩
  | .object members name :: outer =>
    obtain ⟨hpart, houter⟩ := List.forall_mem_cons.mp h.parts
    cases hpart with
    | object hmembers =>
      refine ⟨List.forall_mem_cons.mpr ⟨.object ?_, houter⟩, h.root⟩
      exact List.forall_mem_cons.mpr ⟨hd, hmembers⟩

lemma of_parts (h : a.Sound) {part : OpenPart} {outer : List OpenPart}
    (hparts : a.parts = part :: outer) : part.Sound ∧ ∀ other ∈ outer, other.Sound :=
  List.forall_mem_cons.mp (hparts ▸ h.parts)

lemma close (h : a.Sound) {part : OpenPart} {outer : List OpenPart}
    (hparts : a.parts = part :: outer) : (a.close part outer).Sound := by
  obtain ⟨hpart, houter⟩ := h.of_parts hparts
  have hinner : Assembly.Sound { a with parts := outer } := ⟨houter, h.root⟩
  cases hpart with
  | array hitems => exact hinner.put (.array (by simpa using hitems))
  | object hmembers => exact hinner.put (.object (by simpa using hmembers))

lemma collapse (hd : d.Sound) {parts : List OpenPart} (hparts : ∀ part ∈ parts, part.Sound) :
    (Assembly.collapse d parts).Sound := by
  induction parts generalizing d with
  | nil => exact hd
  | cons part outer ih =>
    obtain ⟨hpart, houter⟩ := List.forall_mem_cons.mp hparts
    cases hpart with
    | array hitems =>
      refine ih (.array fun e he => ?_) houter
      rw [List.mem_reverse] at he
      exact (List.forall_mem_cons.mpr ⟨hd, hitems⟩) e he
    | object hmembers =>
      refine ih (.object fun m hm => ?_) houter
      rw [List.mem_reverse] at hm
      rcases List.mem_cons.mp hm with rfl | hearlier
      · exact hd
      · exact hmembers m hearlier

lemma stop (h : a.Sound) : a.stop.Sound := by
  unfold Assembly.stop
  split
  · exact ⟨h.parts, h.root⟩
  · exact h
  · exact ⟨h.parts, collapse .broken h.parts⟩
  · exact ⟨h.parts, collapse .broken h.parts⟩
  all_goals
    refine ⟨h.parts, ?_⟩
    simp only
    split
    · exact .broken
    · rename_i items outer heq
      obtain ⟨hpart, houter⟩ := h.of_parts heq
      cases hpart with
      | array hitems => exact collapse (.array (by simpa using hitems)) houter
    · rename_i members name outer heq
      obtain ⟨hpart, houter⟩ := h.of_parts heq
      cases hpart with
      | object hmembers => exact collapse (.object (by simpa using hmembers)) houter

lemma takeValue (h : a.Sound) {token : Token} (htoken : token.Sound) :
    (a.takeValue token).Sound := by
  cases token with
  | null => exact h.put .null
  | bool value => exact h.put .bool
  | number value => exact h.put (.number fun n hn => htoken n (congrArg Token.number hn))
  | string value => exact h.put .string
  | beginArray => exact ⟨List.forall_mem_cons.mpr ⟨.array (by simp), h.parts⟩, h.root⟩
  | beginObject => exact ⟨List.forall_mem_cons.mpr ⟨.object (by simp), h.parts⟩, h.root⟩
  | endArray | endObject | colon | comma | malformed => exact h.stop

lemma takeName (h : a.Sound) (token : Token) : (a.takeName token).Sound := by
  unfold Assembly.takeName
  split
  · rename_i name members before outer heq
    obtain ⟨hpart, houter⟩ := h.of_parts heq
    cases hpart with
    | object hmembers => exact ⟨List.forall_mem_cons.mpr ⟨.object hmembers, houter⟩, h.root⟩
  · exact h.stop

lemma step (h : a.Sound) {token : Token} (htoken : token.Sound) : (a.step token).Sound := by
  unfold Assembly.step
  split
  · exact h.takeValue htoken
  · split
    · exact h.close ‹_›
    · exact h.takeValue htoken
  · split
    · exact h.close ‹_›
    · exact h.takeName _
  · exact h.takeName _
  · split
    · exact ⟨h.parts, h.root⟩
    · exact h.stop
  · split
    · exact ⟨h.parts, h.root⟩
    · exact ⟨h.parts, h.root⟩
    · exact h.close ‹_›
    · exact h.close ‹_›
    · exact h.stop
  · exact h.stop
  · exact h.stop

lemma foldl (h : a.Sound) {tokens : List Token} (htokens : ∀ token ∈ tokens, token.Sound) :
    (tokens.foldl Assembly.step a).Sound := by
  induction tokens generalizing a with
  | nil => exact h
  | cons token rest ih =>
    obtain ⟨htoken, hrest⟩ := List.forall_mem_cons.mp htokens
    exact ih (h.step htoken) hrest

end Assembly.Sound

/-- Whatever a text is, the numbers of its document are in range. -/
theorem sound_read (s : String) : (read s).root.Sound := by
  have hstart : Assembly.Sound {} := ⟨by simp, .broken⟩
  have hend := hstart.foldl (sound_of_mem_tokens s)
  unfold read
  simp only
  split
  · exact hend.root
  · exact hend.root
  · exact hend.stop.root

/-! ### Values whose text is read again -/

lemma mem_insertMember {name : String} {value : Json} {members : List (String × Json)}
    {m : String × Json} (h : m ∈ insertMember name value members) :
    m = (name, value) ∨ m ∈ members := by
  induction members with
  | nil => exact .inl (List.mem_singleton.mp h)
  | cons other rest ih =>
    rw [insertMember] at h
    split at h
    · exact List.mem_cons.mp h
    split at h
    · exact (List.mem_cons.mp h).imp_right (List.mem_cons_of_mem _)
    · rcases List.mem_cons.mp h with rfl | hlater
      · exact .inr List.mem_cons_self
      · exact (ih hlater).imp_right (List.mem_cons_of_mem _)

lemma mem_foldl_insertMember {members done : List (String × Json)} {m : String × Json}
    (h : m ∈ members.foldl (fun acc m => insertMember m.1 m.2 acc) done) :
    m ∈ members ∨ m ∈ done := by
  induction members generalizing done with
  | nil => exact .inr h
  | cons first rest ih =>
    rcases ih h with hlater | hdone
    · exact .inl (List.mem_cons_of_mem _ hlater)
    · rcases mem_insertMember hdone with rfl | hbefore
      · exact .inl List.mem_cons_self
      · exact .inr hbefore

namespace Decoder

/-- Whether the text of a value is read as a value that nests at most so deep. -/
def Rereads (budget : Nat) (v : Json) : Prop := Accepts (any budget) v.reread

lemma rereads_array {budget : Nat} {items : List Json} (h : ∀ v ∈ items, Rereads budget v) :
    Rereads (budget + 1) (.array items) := by
  have hitems : ∃ values, any.anyItems budget (reread.rereadItems items) = .ok values := by
    induction items with
    | nil => exact ⟨[], rfl⟩
    | cons item rest ih =>
      obtain ⟨⟨value, hvalue⟩, hrest⟩ := List.forall_mem_cons.mp h
      obtain ⟨values, hvalues⟩ := ih hrest
      refine ⟨value :: values, ?_⟩
      rw [reread.rereadItems, any.anyItems, hvalue, hvalues]
      rfl
  obtain ⟨values, hvalues⟩ := hitems
  refine ⟨.array values, ?_⟩
  rw [reread, any, hvalues]
  rfl

lemma rereads_object {budget : Nat} {members : List (String × Json)}
    (h : ∀ m ∈ members, Rereads budget m.2) :
    Rereads (budget + 1) (.object members) := by
  have hmembers : ∃ values, any.anyMembers budget (reread.rereadMembers members) = .ok values := by
    induction members with
    | nil => exact ⟨[], rfl⟩
    | cons m rest ih =>
      obtain ⟨⟨value, hvalue⟩, hrest⟩ := List.forall_mem_cons.mp h
      obtain ⟨values, hvalues⟩ := ih hrest
      refine ⟨(m.1, value) :: values, ?_⟩
      rw [reread.rereadMembers, any.anyMembers, hvalue, hvalues]
      rfl
  obtain ⟨values, hvalues⟩ := hmembers
  refine ⟨.ofMembers values, ?_⟩
  rw [reread, any, hvalues]
  rfl

mutual

/-- A value that was read from a document of a text can be read again from its own text. -/
lemma rereads_of_any {budget : Nat} {d : Document} (hd : d.Sound) {v : Json}
    (h : any budget d = .ok v) : Rereads budget v := by
  cases d with
  | null | bool =>
    cases h
    exact ⟨_, rfl⟩
  | broken => cases h
  | number value =>
    cases value with
    | none => cases h
    | some n =>
      cases h
      cases hd with
      | number hrange =>
        obtain ⟨again, hagain⟩ := Option.isSome_iff_exists.mp (Number.again_isSome (hrange n rfl))
        exact ⟨.number again, by rw [reread, hagain]; rfl⟩
  | string value =>
    cases value with
    | none => cases h
    | some s =>
      cases h
      exact ⟨_, rfl⟩
  | array items closed =>
    cases budget with
    | zero => cases h
    | succ left =>
      rw [any] at h
      obtain ⟨values, hitems, h⟩ := exists_of_bind_ok h
      cases closed with
      | false => cases h
      | true =>
        cases h
        cases hd with
        | array hd => exact rereads_array (rereads_of_anyItems hd hitems)
  | object members closed =>
    cases budget with
    | zero => cases h
    | succ left =>
      rw [any] at h
      obtain ⟨values, hmembers, h⟩ := exists_of_bind_ok h
      cases closed with
      | false => cases h
      | true =>
        cases h
        cases hd with
        | object hd =>
          refine rereads_object fun m hm => ?_
          have hm := (mem_foldl_insertMember hm).resolve_right List.not_mem_nil
          exact rereads_of_anyMembers hd hmembers m hm

lemma rereads_of_anyItems {budget : Nat} {items : List Document} (hd : ∀ d ∈ items, d.Sound)
    {values : List Json} (h : any.anyItems budget items = .ok values) :
    ∀ v ∈ values, Rereads budget v := by
  cases items with
  | nil =>
    cases h
    simp
  | cons item rest =>
    obtain ⟨hitem, hrest⟩ := List.forall_mem_cons.mp hd
    rw [any.anyItems] at h
    obtain ⟨value, hvalue, h⟩ := exists_of_bind_ok h
    obtain ⟨others, hothers, h⟩ := exists_of_bind_ok h
    cases h
    exact List.forall_mem_cons.mpr
      ⟨rereads_of_any hitem hvalue, rereads_of_anyItems hrest hothers⟩

lemma rereads_of_anyMembers {budget : Nat} {members : List (Option String × Document)}
    (hd : ∀ m ∈ members, m.2.Sound) {values : List (String × Json)}
    (h : any.anyMembers budget members = .ok values) : ∀ m ∈ values, Rereads budget m.2 := by
  cases members with
  | nil =>
    cases h
    simp
  | cons member rest =>
    obtain ⟨hmember, hrest⟩ := List.forall_mem_cons.mp hd
    obtain ⟨name, d⟩ := member
    cases name with
    | none => cases h
    | some name =>
      rw [any.anyMembers] at h
      obtain ⟨value, hvalue, h⟩ := exists_of_bind_ok h
      obtain ⟨others, hothers, h⟩ := exists_of_bind_ok h
      cases h
      exact List.forall_mem_cons.mpr
        ⟨rereads_of_any hmember hvalue, rereads_of_anyMembers hrest hothers⟩

end

lemma record_preserves {σ : Type} {P : σ → Prop} {origin : Origin} {name : String}
    {fields : List (Field σ)} {defaults r : σ} {d : Document}
    (hfields : ∀ f ∈ fields, ∀ d set, d.Sound → f.read d = .ok set → ∀ s, P s → P (set s))
    (hdefaults : P defaults) (hd : d.Sound) (h : record origin name fields defaults d = .ok r) :
    P r := by
  cases hd with
  | array hitems => exact recordItems_preserves hfields hitems hdefaults h
  | object hmembers => exact recordMembers_preserves hfields hmembers hdefaults h
  | null | bool | number | string | broken => exact absurd ⟨r, h⟩ not_accepts_refuse

end Decoder

section Texts

variable {α : Type} {read : Nat → Decoder α} {s : String}

lemma ok_of_decodeText {a : α} (h : decodeText read s = .ok a) :
    read textDepth (Json.read s).root = .ok a := by
  obtain ⟨value, hread, hcomplete⟩ := exists_of_bind_ok h
  split at hcomplete
  · exact Except.ok.inj hcomplete ▸ hread
  · cases hcomplete

lemma decodeText_of_read {d : Document} (h : Json.read s = ⟨d, true⟩) :
    decodeText read s = read textDepth d := by
  simp only [decodeText, h, if_true]
  exact bind_pure _

end Texts

/-- The text of a value that was read from a text is JSON. -/
theorem parse_text_of_parse {s : String} {v : Json} (h : parse s = .ok v) :
    ∃ again, parse v.text = .ok again := by
  obtain ⟨again, hagain⟩ := Decoder.rereads_of_any (sound_read s) (ok_of_decodeText h)
  exact ⟨again, (decodeText_of_read (read_text_eq v)).trans hagain⟩

end InspectorProtocol.Json

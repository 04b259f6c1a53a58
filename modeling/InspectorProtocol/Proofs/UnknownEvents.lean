import InspectorProtocol.Proofs.Recognition
import InspectorProtocol.Proofs.Rereading
import InspectorProtocol.Session.Subscriptions

/-!
# The report of an unknown event

An event whose method is not known is reported as a text in the form of a message. Its parameters
are written as JSON, its method as quoted text. Where quoted text shows every character as it is or
by a letter it is the JSON string too, and the report is read back as an event of the same method.
A character that is shown by its number stops the reader: such a report is no JSON.
-/

namespace InspectorProtocol

open Json Json.Decoder

namespace Text

/-- Whether quoted text shows a character as it is or by a letter, and not by its number. -/
def isShown (c : Char) : Bool := !isUnprintable c || c = '\t' || c = '\n' || c = '\r'

lemma toNat_lt_of_isUnprintable {c : Char} (h : isUnprintable c = true) (hascii : c.toNat < 127) :
    c.toNat < 32 := by
  have hranges : unprintableRanges.all (fun r => r.2 < 32 || 127 ≤ r.1) = true := by decide +kernel
  obtain ⟨r, hr, hin⟩ := List.any_eq_true.mp h
  have hrange := List.all_eq_true.mp hranges r hr
  simp only [Bool.and_eq_true, Bool.or_eq_true, decide_eq_true_eq] at hin hrange
  omega

lemma isUnprintable_of_toNat_lt {c : Char} (h : c.toNat < 32) : isUnprintable c = true := by
  have hfirst : (0x0, 0x1f) ∈ unprintableRanges := List.mem_cons_self
  exact List.any_eq_true.mpr ⟨_, hfirst, by simp; omega⟩

lemma quoteChar_of_isShown {c : Char} (h : isShown c = true) : quoteChar c = escapeChar c := by
  by_cases hcontrol : c.toNat < 32
  · have hletter : (c = '\t' ∨ c = '\n') ∨ c = '\r' := by
      simpa [isShown, isUnprintable_of_toNat_lt hcontrol] using h
    rcases hletter with (rfl | rfl) | rfl <;> rfl
  by_cases hquote : c = '"'
  · subst hquote
    rfl
  by_cases hslash : c = '\\'
  · subst hslash
    rfl
  have hplain : escapeChar c = [c] := by
    rw [escapeChar, if_neg hquote, if_neg hslash, if_neg hcontrol]
  have hne (other : Char) (hother : other.toNat < 32) : c ≠ other := by
    rintro rfl
    exact hcontrol hother
  have hprintable : isUnprintable c = false := by
    simpa [isShown, hne '\t' (by decide), hne '\n' (by decide), hne '\r' (by decide)] using h
  have hnonzero : c.toNat ≠ 0 := by omega
  rw [hplain, quoteChar]
  simp [hquote, hslash, hne '\n' (by decide), hne '\r' (by decide), hne '\t' (by decide), hnonzero,
    hcontrol, hprintable]

lemma quoteChar_of_not_isShown {c : Char} (h : isShown c = false) :
    quoteChar c = ['\\', '0'] ∨ ∃ digits, quoteChar c = '\\' :: 'u' :: '{' :: digits := by
  obtain ⟨⟨⟨hunprintable, htab⟩, hfeed⟩, hreturn⟩ :
      ((isUnprintable c = true ∧ c ≠ '\t') ∧ c ≠ '\n') ∧ c ≠ '\r' := by
    simpa [isShown] using h
  have hascii := toNat_lt_of_isUnprintable hunprintable
  have hne (other : Char) (hplain : 32 ≤ other.toNat ∧ other.toNat < 127) : c ≠ other := by
    rintro rfl
    have hcontrol := hascii hplain.2
    omega
  have hquote : c ≠ '"' := hne '"' (by decide)
  have hslash : c ≠ '\\' := hne '\\' (by decide)
  rw [quoteChar]
  by_cases hzero : c.toNat = 0
  · simp [hquote, hslash, htab, hfeed, hreturn, hzero]
  · refine .inr ⟨hexDigits c.toNat ++ ['}'], ?_⟩
    simp only [hquote, hslash, htab, hfeed, hreturn, hzero, hunprintable, decide_false,
      Bool.or_self, Bool.false_eq_true, if_false, if_true]
    split
    · rw [if_pos (hascii ‹_›)]
      rfl
    · rfl

lemma quoted_of_isShown {s : String} (h : ∀ c ∈ s.toList, isShown c = true) :
    quoted s = Json.quote s := by
  have hchars : s.toList.map quoteChar = s.toList.map escapeChar :=
    List.map_congr_left fun c hc => quoteChar_of_isShown (h c hc)
  rw [quoted, hchars]
  rfl

end Text

/-! ### Lexing what is not shown -/

namespace Json

variable {tokens : List Token} {chars : List Char}

lemma foldl_stopped (tokens : List Token) (cs : List Char) :
    cs.foldl Lexer.step ⟨tokens, .stopped⟩ = ⟨tokens, .stopped⟩ := by
  induction cs with
  | nil => rfl
  | cons c rest ih => exact ih

lemma foldl_quoteChar_of_not_isShown {c : Char} (h : Text.isShown c = false) :
    (Text.quoteChar c).foldl Lexer.step (inString tokens chars) =
      ⟨.malformed :: tokens, .stopped⟩ := by
  rcases Text.quoteChar_of_not_isShown h with hzero | ⟨digits, hnumbered⟩
  · rw [hzero]
    rfl
  · have hbrace : ['\\', 'u', '{'].foldl Lexer.step (inString tokens chars) =
        ⟨.malformed :: tokens, .stopped⟩ := rfl
    have hsplit : Text.quoteChar c = ['\\', 'u', '{'] ++ digits := hnumbered
    rw [hsplit, List.foldl_append, hbrace, foldl_stopped]

/-- In a quoted text the lexer stops at the first character that is not shown. -/
lemma foldl_quoteChars_of_not_isShown {cs : List Char} (h : ∃ c ∈ cs, Text.isShown c = false) :
    (cs.map Text.quoteChar).flatten.foldl Lexer.step (inString tokens chars) =
      ⟨.malformed :: tokens, .stopped⟩ := by
  induction cs generalizing chars with
  | nil => simp at h
  | cons c rest ih =>
    rw [List.map_cons, List.flatten_cons, List.foldl_append]
    cases hc : Text.isShown c with
    | true =>
      have hrest : ∃ c ∈ rest, Text.isShown c = false := by simpa [hc] using h
      rw [Text.quoteChar_of_isShown hc, foldl_escapeChar, ih hrest]
    | false => rw [foldl_quoteChar_of_not_isShown hc, foldl_stopped]

end Json

/-! ### The report is read -/

lemma Wire.Members.rereads_of_read {d : Document} {m : Members} (hd : d.Sound)
    (h : Members.read .text textDepth d = .ok m) : ∀ p, m.params = some p → Rereads 126 p := by
  have hrecord : record .text "IncomingFrame" (Members.fields 126) {} d = .ok m := h
  refine record_preserves (P := fun m => ∀ p, m.params = some p → Rereads 126 p) ?_ (by simp) hd
    hrecord
  intro f hf d set hd hset s hs
  simp only [Members.fields, List.mem_cons, List.not_mem_nil, or_false] at hf
  rcases hf with rfl | rfl | rfl | rfl | rfl
  case inr.inr.inl =>
    obtain ⟨found, hfound, rfl⟩ := exists_of_free hset
    intro p hp
    exact rereads_of_any hd (ok_of_optional (hp ▸ hfound))
  all_goals
    obtain ⟨_, _, rfl⟩ := exists_of_free hset
    exact hs

namespace Session

open Wire Delivery

variable {event : Event}

lemma unknownEventText_eq (event : Event) :
    unknownEventText event = "\x7b\"method\":" ++ Text.quoted event.method ++ ",\"params\":" ++
      event.params.text ++ "\x7d" := rfl

lemma unknownEventText_of_isShown (h : ∀ c ∈ event.method.toList, Text.isShown c = true) :
    unknownEventText event =
      Json.text (.object [("method", .string event.method), ("params", event.params)]) := by
  have hname : "\x7b\"method\":".toList = '{' :: quoteChars "method" ++ [':'] := by decide +kernel
  have hparams : ",\"params\":".toList = ',' :: quoteChars "params" ++ [':'] := by decide +kernel
  have hrender : render (.object [("method", .string event.method), ("params", event.params)]) =
      '{' :: (quoteChars "method" ++ ':' :: quoteChars event.method ++
        ',' :: (quoteChars "params" ++ ':' :: event.params.render)) ++ ['}'] := rfl
  apply String.toList_injective
  simp [unknownEventText_eq, Text.quoted_of_isShown h, Json.quote, Json.text, hname, hparams,
    hrender]

lemma read_unknownEventText_of_not_isShown (h : ∃ c ∈ event.method.toList, Text.isShown c = false) :
    Json.read (unknownEventText event) = ⟨.object [(some "method", .broken)] false, false⟩ := by
  have htokens : Json.tokens (unknownEventText event) =
      [.beginObject, .string (some "method"), .colon, .malformed] := by
    have hopen : "\x7b\"method\":\"".toList.foldl Lexer.step {} =
        inString [.colon, .string (some "method"), .beginObject] [] := by rfl
    have htext : (unknownEventText event).toList = "\x7b\"method\":\"".toList ++
        ((event.method.toList.map Text.quoteChar).flatten ++
          ('"' :: ",\"params\":".toList ++ event.params.text.toList ++ ['}'])) := by
      simp [unknownEventText_eq, Text.quoted]
    rw [Json.tokens, htext, List.foldl_append, hopen, List.foldl_append,
      foldl_quoteChars_of_not_isShown h, foldl_stopped]
    rfl
  rw [Json.read, htokens]
  rfl

lemma refused_of_not_isShown (h : ∃ c ∈ event.method.toList, Text.isShown c = false) :
    Json.parse (unknownEventText event) = .error .malformed ∧
      classify (unknownEventText event) = .unrecognized (unknownEventText event) := by
  have hread := read_unknownEventText_of_not_isShown h
  constructor
  · rw [Json.parse, decodeText, hread]
    rfl
  · rw [classify, decodeText, hread]
    rfl

lemma rereads_params {text : String} (h : classify text = .event event) :
    Rereads 126 event.params := by
  have hempty : Rereads 126 emptyObject := ⟨emptyObject, rfl⟩
  unfold classify at h
  split at h
  · cases h
  rename_i m hm
  have hparams := Members.rereads_of_read (sound_read text) (ok_of_decodeText hm)
  split at h
  · cases h
  split at h
  · cases h
    cases hp : m.params with
    | none => exact hempty
    | some p => exact hparams p hp
  · cases h

lemma parse_of_rereads {method : String} {params : Json} (h : Rereads 126 params) :
    ∃ v, Json.parse (Json.text (.object [("method", .string method), ("params", params)])) =
      .ok v := by
  have hmembers : Rereads 127 (.object [("method", .string method), ("params", params)]) :=
    rereads_object (by simpa using ⟨⟨.string method, rfl⟩, h⟩)
  obtain ⟨v, hv⟩ := hmembers
  exact ⟨v, (decodeText_of_read (read_text_eq _)).trans hv⟩

lemma classify_of_rereads {method : String} {params : Json} (h : Rereads 126 params) :
    ∃ params', classify (Json.text (.object [("method", .string method), ("params", params)])) =
      .event ⟨method, params'⟩ := by
  obtain ⟨found, hfound⟩ := accepts_optional.mpr (.inr h)
  have hmethod : optional string (.string (some method)) = .ok (some method) := rfl
  have hread : Members.read .text textDepth
      (reread (.object [("method", .string method), ("params", params)])) =
      .ok { method := some method, params := found } := by
    change recordMembers (Members.fields 126) true [] {}
      [(some "method", .string (some method)), (some "params", params.reread)] = _
    simp [recordMembers, Members.fields, Field.free, hmethod, hfound]
    rfl
  refine ⟨found.getD emptyObject, ?_⟩
  rw [classify, decodeText_of_read (read_text_eq _), hread]
  rfl

variable {α σ : Type}

lemma observations_foldl_runHandler (run : Subscription α → Argument → σ → Option String × σ)
    (payload : Option Value) (event : Event) (handlers : List (Subscription α))
    (d : Delivery σ) :
    ∃ messages : List String, (handlers.foldl (runHandler run payload event) d).observations =
      d.observations ++ messages.map (.handlerFailure event.method) := by
  induction handlers generalizing d with
  | nil => exact ⟨[], by simp⟩
  | cons s rest ih =>
    obtain ⟨first, hfirst⟩ : ∃ first : List String,
        (runHandler run payload event d s).observations =
          d.observations ++ first.map (.handlerFailure event.method) := by
      unfold runHandler
      split
      · exact ⟨[], by simp⟩
      split
      · exact ⟨[], by simp⟩
      · exact ⟨[_], rfl⟩
    obtain ⟨others, hothers⟩ := ih (runHandler run payload event d s)
    refine ⟨first ++ others, ?_⟩
    rw [List.foldl_cons, hothers, hfirst, List.map_append, List.append_assoc]

/-- The report of an unknown event is read back as an event of its method if quoted text shows every
character of the method; else it is no JSON, and not recognized. -/
theorem report_of_unknown_event (run : Subscription α → Argument → σ → Option String × σ)
    (methods : MethodMap) (bindings : Bindings) (handlers : List (Subscription α)) (text : String)
    (event : Event) (state : σ) (hevent : classify text = .event event)
    (hunknown : methods.decodeEvent? bindings event.method event.params = none) :
    ∃ (report : String) (messages : List String),
      (deliver methods bindings run handlers event state).observations =
        .unrecognizedMessage report :: messages.map (.handlerFailure event.method) ∧
      ((∀ c ∈ event.method.toList, Text.isShown c = true) →
        (∃ v, Json.parse report = .ok v) ∧
          ∃ params, classify report = .event ⟨event.method, params⟩) ∧
      ((∃ c ∈ event.method.toList, Text.isShown c = false) →
        Json.parse report = .error .malformed ∧ classify report = .unrecognized report) := by
  have hreport : payload? methods bindings event =
      (none, [.unrecognizedMessage (unknownEventText event)]) := by
    rw [payload?, hunknown]
  obtain ⟨messages, hmessages⟩ := observations_foldl_runHandler run none event handlers
    { state, observations := [.unrecognizedMessage (unknownEventText event)] }
  refine ⟨unknownEventText event, messages, ?_, fun hshown => ?_, fun hhidden => ?_⟩
  · rw [deliver, hreport]
    exact hmessages
  · have hparams := rereads_params hevent
    rw [unknownEventText_of_isShown hshown]
    exact ⟨parse_of_rereads hparams, classify_of_rereads hparams⟩
  · exact refused_of_not_isShown hhidden

/-- A handler that hears of nothing. -/
def unheard : Subscription Unit → Argument → Unit → Option String × Unit :=
  fun _ _ state => (none, state)

def noBindings : Bindings := ⟨⟨"1", "3"⟩, [], ⟨0, []⟩⟩

/-- An event whose method is a letter beyond ASCII in quotes. -/
def accentedText : String :=
  "\x7b\"method\":\"\\\"\u00e9\\\"\",\"params\":\x7b\"at\":[7,null]\x7d\x7d"

def accentedEvent : Event :=
  ⟨"\"\u00e9\"", .object [("at", .array [.number (.int 7), .null])]⟩

def accentedDocument : Document :=
  .object [(some "method", .string (some accentedEvent.method)),
    (some "params", .object [(some "at", .array [.number (some (.int 7)), .null] true)] true)] true

theorem report_of_accented_event :
    classify accentedText = .event accentedEvent ∧
      MethodMap.decodeEvent? {} noBindings accentedEvent.method accentedEvent.params = none ∧
      ∃ report messages,
        (deliver {} noBindings unheard [] accentedEvent ()).observations =
          .unrecognizedMessage report :: List.map (.handlerFailure accentedEvent.method) messages ∧
        ∃ params, classify report = .event ⟨accentedEvent.method, params⟩ := by
  have hread : Json.read accentedText = ⟨accentedDocument, true⟩ := by rfl
  have hevent : classify accentedText = .event accentedEvent := by
    rw [classify, decodeText_of_read hread]
    rfl
  have hunknown :
      MethodMap.decodeEvent? {} noBindings accentedEvent.method accentedEvent.params = none := rfl
  obtain ⟨report, messages, hobservations, hshown, -⟩ :=
    report_of_unknown_event unheard {} noBindings [] accentedText accentedEvent () hevent hunknown
  exact ⟨hevent, hunknown, report, messages, hobservations,
    (hshown (List.all_eq_true.mp (by decide +kernel))).2⟩

/-- An event whose method ends in a control character. -/
def controlText : String := "\x7b\"method\":\"a\\u0001\",\"params\":\x7b\x7d\x7d"

def controlEvent : Event := ⟨"a\x01", emptyObject⟩

theorem report_with_control_character_is_refused :
    classify controlText = .event controlEvent ∧
      MethodMap.decodeEvent? {} noBindings controlEvent.method controlEvent.params = none ∧
      ∃ report,
        (deliver {} noBindings unheard [] controlEvent ()).observations =
          [.unrecognizedMessage report] ∧
        (∀ v, Json.parse report ≠ .ok v) ∧
        ∀ params, classify report ≠ .event ⟨controlEvent.method, params⟩ := by
  have hread : Json.read controlText =
      ⟨.object [(some "method", .string (some "a\x01")), (some "params", .object [] true)] true,
        true⟩ := by rfl
  have hevent : classify controlText = .event controlEvent := by
    rw [classify, decodeText_of_read hread]
    rfl
  have hcontrol : Text.isUnprintable '\x01' = true := Text.isUnprintable_of_toNat_lt (by decide)
  have hhidden : ∃ c ∈ controlEvent.method.toList, Text.isShown c = false :=
    ⟨'\x01', by decide, by simp [Text.isShown, hcontrol]⟩
  obtain ⟨hparse, hclassify⟩ := refused_of_not_isShown hhidden
  refine ⟨hevent, rfl, unknownEventText controlEvent, rfl, fun v => ?_, fun params => ?_⟩
  · simp [hparse]
  · simp [hclassify]

end Session

end InspectorProtocol

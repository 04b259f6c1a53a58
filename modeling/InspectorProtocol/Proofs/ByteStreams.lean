import InspectorProtocol.Proofs.Framing

/-!
# What a stream of bytes reads as

What a stream reads as is said here of its bytes alone: frame after frame up to a part of one, to a
length that is too large, or to bytes that are no text. A reader that gets the bytes in chunks takes
in just that, wherever they are cut. A writer puts the length of a text in front of it as far as
four bytes hold it, so the reader gets back every text that is not longer than that.
-/

namespace InspectorProtocol.Wire

open Text (Utf8.Bytes)

/-- What the bytes of a stream read as: the texts, the fault after them, and what is left. -/
inductive Reads (codec : Codec) : Utf8.Bytes → Intake → Prop where
  /-- there is no whole length -/
  | short {bytes : Utf8.Bytes} (few : bytes.length < 4) : Reads codec bytes { buffer := bytes }
  /-- the length is too large, and is left where it is -/
  | oversized {a b c d : UInt8} {rest : Utf8.Bytes}
      (large : codec.maxSize < lengthOfBytes a b c d) :
    Reads codec (a :: b :: c :: d :: rest)
      { fault := some (.tooLarge (lengthOfBytes a b c d) codec.maxSize)
        buffer := a :: b :: c :: d :: rest }
  /-- the text has not all come -/
  | unfinished {a b c d : UInt8} {rest : Utf8.Bytes} (fits : lengthOfBytes a b c d ≤ codec.maxSize)
      (few : rest.length < lengthOfBytes a b c d) :
    Reads codec (a :: b :: c :: d :: rest) { buffer := a :: b :: c :: d :: rest }
  /-- what should be a text is none, and is left out -/
  | notText {a b c d : UInt8} {data rest : Utf8.Bytes} {fault : Text.Utf8.Fault}
      (fits : lengthOfBytes a b c d ≤ codec.maxSize) (length : data.length = lengthOfBytes a b c d)
      (bad : Text.Utf8.decode data = .error fault) :
    Reads codec (a :: b :: c :: d :: (data ++ rest))
      { fault := some (.notUtf8 fault), buffer := rest }
  /-- a text, and what follows it -/
  | text {a b c d : UInt8} {data rest : Utf8.Bytes} {text : String} {later : Intake}
      (fits : lengthOfBytes a b c d ≤ codec.maxSize) (length : data.length = lengthOfBytes a b c d)
      (good : Text.Utf8.decode data = .ok text) (follows : Reads codec rest later) :
    Reads codec (a :: b :: c :: d :: (data ++ rest)) (later.behind [text])

namespace Codec

variable {codec : Codec}

/-! ### The whole stream -/

lemma exists_length_of_four_le {buffer : Utf8.Bytes} (h : 4 ≤ buffer.length) :
    ∃ a b c d rest, buffer = a :: b :: c :: d :: rest := by
  match buffer, h with
  | a :: b :: c :: d :: rest, _ => exact ⟨a, b, c, d, rest, rfl⟩

/-- Bytes read as what a reader takes off a buffer of them. -/
theorem reads_drain (codec : Codec) (bytes : Utf8.Bytes) :
    Reads codec bytes (codec.drain bytes) := by
  induction hn : bytes.length using Nat.strongRecOn generalizing bytes with
  | ind n ih =>
    rcases Nat.lt_or_ge bytes.length 4 with hshort | hlength
    · rw [drain_of_partialFrame (decode_of_short hshort)]
      exact .short hshort
    · obtain ⟨a, b, c, d, rest, rfl⟩ := exists_length_of_four_le hlength
      rcases Nat.lt_or_ge codec.maxSize (lengthOfBytes a b c d) with hlarge | hfits
      · rw [drain_of_fault (decode_of_large hlarge)]
        exact .oversized hlarge
      · rcases Nat.lt_or_ge rest.length (lengthOfBytes a b c d) with hfew | henough
        · rw [drain_of_partialFrame (decode_of_unfinished hfits hfew)]
          exact .unfinished hfits hfew
        · obtain ⟨data, after, rfl, hdata⟩ : ∃ data after, rest = data ++ after ∧
              data.length = lengthOfBytes a b c d :=
            ⟨_, _, (List.take_append_drop _ rest).symm, List.length_take_of_le henough⟩
          have hfront := @decode_of_data codec after a b c d data hfits hdata
          cases htext : Text.Utf8.decode data with
          | error fault =>
            rw [htext] at hfront
            rw [drain_of_fault hfront]
            exact .notText hfits hdata htext
          | ok text =>
            rw [htext] at hfront
            have hless : after.length < n := by
              simp only [List.length_cons, List.length_append] at hn
              omega
            rw [drain_of_frame hfront]
            exact .text hfits hdata htext (ih after.length hless after rfl)

lemma drain_of_reads {bytes : Utf8.Bytes} {i : Intake} (h : Reads codec bytes i) :
    codec.drain bytes = i := by
  induction h with
  | short few => exact drain_of_partialFrame (decode_of_short few)
  | oversized large => exact drain_of_fault (decode_of_large large)
  | unfinished fits few => exact drain_of_partialFrame (decode_of_unfinished fits few)
  | @notText a b c d data rest _ fits length bad =>
    have hfront := @decode_of_data codec rest a b c d data fits length
    rw [bad] at hfront
    exact drain_of_fault hfront
  | @text a b c d data rest _ _ fits length good _ ih =>
    have hfront := @decode_of_data codec rest a b c d data fits length
    rw [good] at hfront
    rw [drain_of_frame hfront, ih]

lemma buffer_suffix {bytes : Utf8.Bytes} {i : Intake} (h : Reads codec bytes i) :
    i.buffer <:+ bytes := by
  induction h with
  | short | oversized | unfinished => exact List.suffix_rfl
  | @notText a b c d data => exact ⟨a :: b :: c :: d :: data, rfl⟩
  | @text a b c d data _ _ _ _ _ _ _ ih =>
    exact ih.trans ⟨a :: b :: c :: d :: data, rfl⟩

lemma feed_append (chunks more : List Utf8.Bytes) :
    codec.feed (chunks ++ more) = more.foldl codec.takeIn (codec.feed chunks) :=
  List.foldl_append

/-- Reading goes on until there is no whole frame. -/
lemma decode_buffer {bytes : Utf8.Bytes} {i : Intake} (h : Reads codec bytes i)
    (hnone : i.fault = none) : codec.decode i.buffer = (.partialFrame, i.buffer) := by
  induction h with
  | short few => exact decode_of_short few
  | oversized | notText => cases hnone
  | unfinished fits few => exact decode_of_unfinished fits few
  | text _ _ _ _ ih => exact ih hnone

/-- However a stream of bytes is cut into chunks, a reader takes in what the bytes read as, which is
one thing only: the same texts and fault, with the same bytes consumed. Without a whole frame the
decoder leaves its bytes alone, and a length that is too large is a fault once its four bytes are
there, which stay too. -/
theorem cuts_do_not_matter (codec : Codec) :
    (∀ chunks i, codec.feed chunks = i ↔ Reads codec chunks.flatten i) ∧
    (∀ first second : List Utf8.Bytes, first.flatten = second.flatten →
      (codec.feed first).texts = (codec.feed second).texts ∧
      (codec.feed first).fault = (codec.feed second).fault ∧
      ∃ consumed, first.flatten = consumed ++ (codec.feed first).buffer ∧
        second.flatten = consumed ++ (codec.feed second).buffer) ∧
    (∀ chunks, (codec.feed chunks).fault = none →
      codec.decode (codec.feed chunks).buffer = (.partialFrame, (codec.feed chunks).buffer)) ∧
    (∀ buffer rest, codec.decode buffer = (.partialFrame, rest) → rest = buffer) ∧
    ∀ chunks chunk a b c d rest, (codec.feed chunks).fault = none →
      (codec.feed chunks).buffer ++ chunk = a :: b :: c :: d :: rest →
      codec.maxSize < lengthOfBytes a b c d →
      codec.feed (chunks ++ [chunk]) =
        { texts := (codec.feed chunks).texts
          fault := some (.tooLarge (lengthOfBytes a b c d) codec.maxSize)
          buffer := (codec.feed chunks).buffer ++ chunk } := by
  refine ⟨fun chunks i => ?_, fun first second hsame => ?_, fun chunks hnone => ?_,
    fun buffer rest => eq_of_partialFrame,
    fun chunks chunk a b c d rest hnone hbuffer hlarge => ?_⟩
  · rw [feed_eq_drain]
    exact ⟨fun h => h ▸ reads_drain codec _, drain_of_reads⟩
  · have hfeed : codec.feed first = codec.feed second := by
      rw [feed_eq_drain, feed_eq_drain, hsame]
    obtain ⟨consumed, hconsumed⟩ := buffer_suffix (reads_drain codec second.flatten)
    rw [← feed_eq_drain] at hconsumed
    rw [hfeed, hsame]
    exact ⟨rfl, rfl, consumed, hconsumed.symm, hconsumed.symm⟩
  · rw [feed_eq_drain] at hnone ⊢
    exact decode_buffer (reads_drain codec _) hnone
  · rw [feed_append, List.foldl_cons, List.foldl_nil, takeIn, hnone, hbuffer]
    simp only
    rw [drain_of_fault (decode_of_large hlarge)]
    simp [Intake.behind]

/-- A text, a frame that is no text and one more byte, cut within a length and a character or
elsewhere. A length that is too large is a fault when its last byte comes. -/
theorem invalid_frame_is_read_alike :
    let first : List Utf8.Bytes := [[0, 0, 0, 2, 0xC3], [0xA9, 0, 0, 0, 1, 0xFF, 7]]
    let second : List Utf8.Bytes := [[0, 0], [0, 2, 0xC3, 0xA9, 0, 0, 0], [], [1, 0xFF], [7]]
    let i : Intake := { texts := ["é"], fault := some (.notUtf8 (.invalid 0 1)), buffer := [7] }
    first.flatten = second.flatten ∧ Codec.feed ⟨2⟩ first = i ∧
      (Codec.feed ⟨2⟩ second).texts = i.texts ∧ (Codec.feed ⟨2⟩ second).fault = i.fault ∧
      Codec.feed ⟨2⟩ ([[0, 0, 0]] ++ [[3]]) =
        { fault := some (.tooLarge 3 2), buffer := [0, 0, 0, 3] } := by
  intro first second i
  obtain ⟨hreads, hsame, _, _, hlarge⟩ := cuts_do_not_matter ⟨2⟩
  have hfirst : Codec.feed ⟨2⟩ first = i := by
    refine (hreads first i).mpr ?_
    have hbad : Reads ⟨2⟩ [0, 0, 0, 1, 0xFF, 7]
        { fault := some (.notUtf8 (.invalid 0 1)), buffer := [7] } :=
      @Reads.notText ⟨2⟩ 0 0 0 1 [0xFF] [7] (.invalid 0 1) (by decide) rfl rfl
    exact @Reads.text ⟨2⟩ 0 0 0 2 [0xC3, 0xA9] _ "é" _ (by decide) rfl rfl hbad
  obtain ⟨htexts, hfault, _⟩ := hsame first second rfl
  have hshort : Codec.feed ⟨2⟩ [[0, 0, 0]] = { buffer := [0, 0, 0] } :=
    (hreads _ _).mpr (.short (by decide))
  have hthree := hlarge [[0, 0, 0]] [3] 0 0 0 3 [] (by rw [hshort]) (by rw [hshort]; rfl)
    (by decide)
  rw [hshort] at hthree
  refine ⟨rfl, hfirst, ?_, ?_, hthree⟩
  · rw [← htexts, hfirst]
  · rw [← hfault, hfirst]

/-! ### Lengths that four bytes hold -/

variable {text : String} {frame : Utf8.Bytes}

lemma decode_of_encode (h : codec.encode text = .ok frame) :
    codec.decode frame =
      (match Text.Utf8.decode
          ((Text.Utf8.encode text).take ((Text.Utf8.encode text).length % Nat.pow 2 32)) with
        | .ok text => .frame text
        | .error fault => .fault (.notUtf8 fault),
        (Text.Utf8.encode text).drop ((Text.Utf8.encode text).length % Nat.pow 2 32)) := by
  have hfront := decode_append_of_encode h []
  rwa [List.append_nil, List.append_nil] at hfront

/-- A text that a writer accepts is framed with its length as far as four bytes hold it. So its
frame gives it back, with nothing left, exactly when they hold all of the length, as they do
whenever they hold the largest size. -/
theorem texts_come_back_if_four_bytes_hold_their_length (codec : Codec) (text : String)
    (frame : Utf8.Bytes) (h : codec.encode text = .ok frame) :
    let data := Text.Utf8.encode text
    (∃ a b c d, frame = a :: b :: c :: d :: data ∧
      lengthOfBytes a b c d = data.length % Nat.pow 2 32) ∧
    (codec.decode frame).2 = data.drop (data.length % Nat.pow 2 32) ∧
    (codec.decode frame = (.frame text, []) ↔ data.length < Nat.pow 2 32) ∧
    (codec.maxSize < Nat.pow 2 32 → codec.decode frame = (.frame text, [])) := by
  intro data
  obtain ⟨hfits, hframe⟩ := eq_of_encode h
  have hdecode := decode_of_encode h
  have hback : codec.decode frame = (.frame text, []) ↔ data.length < Nat.pow 2 32 := by
    constructor
    · intro hframe
      have hrest : data.drop (data.length % Nat.pow 2 32) = [] :=
        (congrArg Prod.snd hdecode).symm.trans (congrArg Prod.snd hframe)
      have hmod := List.drop_eq_nil_iff.mp hrest
      exact Nat.lt_of_le_of_lt hmod (Nat.mod_lt _ (by decide))
    · intro hshort
      simpa using decode_encode h hshort []
  refine ⟨⟨_, _, _, _, hframe, lengthOfBytes_lengthBytes _⟩, congrArg Prod.snd hdecode, hback,
    fun hmax => hback.mpr (Nat.lt_of_le_of_lt hfits hmax)⟩

theorem accented_letter_comes_back :
    Codec.encode ⟨2⟩ "é" = .ok [0, 0, 0, 2, 0xC3, 0xA9] ∧
      Codec.decode ⟨2⟩ [0, 0, 0, 2, 0xC3, 0xA9] = (.frame "é", []) := by
  have hframe : Codec.encode ⟨2⟩ "é" = .ok [0, 0, 0, 2, 0xC3, 0xA9] := rfl
  obtain ⟨_, _, _, hback⟩ := texts_come_back_if_four_bytes_hold_their_length ⟨2⟩ "é" _ hframe
  exact ⟨hframe, hback (by decide)⟩

lemma encode_replicate (n : Nat) :
    Text.Utf8.encode (String.ofList (List.replicate n 'a')) = List.replicate n 0x61 := by
  induction n with
  | zero => rfl
  | succ n ih =>
    simp only [Text.Utf8.encode, String.toList_ofList, List.replicate_succ,
      List.flatMap_cons] at ih ⊢
    rw [ih]
    rfl

lemma decode_of_multiple {n : Nat} (hmod : n % Nat.pow 2 32 = 0) (hpos : 0 < n)
    (hmax : n ≤ codec.maxSize) (htext : (Text.Utf8.encode text).length = n) :
    ∃ frame, codec.encode text = .ok frame ∧
      codec.decode frame = (.frame "", Text.Utf8.encode text) ∧
      codec.decode frame ≠ (.frame text, []) := by
  obtain ⟨frame, hframe⟩ : ∃ frame, codec.encode text = .ok frame :=
    ⟨_, encode_of_le (htext ▸ hmax)⟩
  have hfront : codec.decode frame = (.frame "", Text.Utf8.encode text) := by
    rw [decode_of_encode hframe, htext, hmod, List.take_zero, List.drop_zero]
    rfl
  refine ⟨frame, hframe, hfront, fun hback => ?_⟩
  have hnil : Text.Utf8.encode text = [] := congrArg Prod.snd (hfront.symm.trans hback)
  rw [hnil, List.length_nil] at htext
  omega

/-- With a largest size that four bytes do not hold, a text is accepted whose frame reads as the
empty text and leaves all its bytes. -/
theorem four_gibibytes_read_as_nothing :
    let codec : Codec := ⟨Nat.pow 2 32⟩
    let text := String.ofList (List.replicate (Nat.pow 2 32) 'a')
    ∃ frame, codec.encode text = .ok frame ∧
      codec.decode frame = (.frame "", Text.Utf8.encode text) ∧
      codec.decode frame ≠ (.frame text, []) := by
  intro codec text
  refine @decode_of_multiple codec text (Nat.pow 2 32) (by decide) (by decide) (Nat.le_refl _) ?_
  rw [encode_replicate, List.length_replicate]

end Codec

end InspectorProtocol.Wire

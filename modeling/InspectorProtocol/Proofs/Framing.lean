import InspectorProtocol.Wire.Codec
import InspectorProtocol.Proofs.Utf8
import Mathlib.Data.List.Forall2

/-!
# Frames cut anywhere

A reader adds each chunk of bytes to what it holds and takes frames off the front until there is no
whole frame left. What it has read after some chunks depends on their bytes alone, not on where the
chunks were cut, so frames come out as they went in however the channel cuts them.
-/

namespace InspectorProtocol.Wire

open Text (Utf8.Bytes)

/-- What a reader has taken in: the texts, the fault it stopped at, and the bytes it still holds. -/
structure Intake where
  texts : List String := []
  fault : Option CodecFault := none
  buffer : Utf8.Bytes := []
  deriving DecidableEq

namespace Intake

/-- What is taken in after some texts. -/
def behind (texts : List String) (i : Intake) : Intake := { i with texts := texts ++ i.texts }

lemma behind_nil (i : Intake) : i.behind [] = i := rfl

end Intake

namespace Codec

lemma length_of_frame {codec : Codec} {buffer rest : Utf8.Bytes} {text : String}
    (h : codec.decode buffer = (.frame text, rest)) : rest.length < buffer.length := by
  unfold decode at h
  split at h
  · simp only at h
    split at h
    · cases h
    · split at h
      · cases h
      · split at h
        · cases h
          simp only [List.length_drop, List.length_cons]
          omega
        · cases h
  · cases h

/-- Take frames off a buffer until there is no whole one, or a fault. -/
def drain (codec : Codec) (buffer : Utf8.Bytes) : Intake :=
  match _hfront : codec.decode buffer with
  | (.partialFrame, rest) => { buffer := rest }
  | (.fault fault, rest) => { fault := some fault, buffer := rest }
  | (.frame text, rest) => (codec.drain rest).behind [text]
termination_by buffer.length
decreasing_by exact length_of_frame _hfront

/-- Take in one more chunk. After a fault nothing is looked at any more. -/
def takeIn (codec : Codec) (i : Intake) (chunk : Utf8.Bytes) : Intake :=
  match i.fault with
  | some _ => { i with buffer := i.buffer ++ chunk }
  | none => (codec.drain (i.buffer ++ chunk)).behind i.texts

/-- Take in one chunk after another. -/
def feed (codec : Codec) (chunks : List Utf8.Bytes) : Intake := chunks.foldl codec.takeIn {}

variable {codec : Codec} {buffer rest : Utf8.Bytes} {text : String}

/-! ### One frame -/

lemma drain_of_partialFrame (h : codec.decode buffer = (.partialFrame, rest)) :
    codec.drain buffer = { buffer := rest } := by
  rw [drain]
  split
  · rename_i heq
    cases h.symm.trans heq
    rfl
  · rename_i heq
    cases h.symm.trans heq
  · rename_i heq
    cases h.symm.trans heq

lemma drain_of_fault {fault : CodecFault} (h : codec.decode buffer = (.fault fault, rest)) :
    codec.drain buffer = { fault := some fault, buffer := rest } := by
  rw [drain]
  split
  · rename_i heq
    cases h.symm.trans heq
  · rename_i heq
    cases h.symm.trans heq
    rfl
  · rename_i heq
    cases h.symm.trans heq

lemma drain_of_frame (h : codec.decode buffer = (.frame text, rest)) :
    codec.drain buffer = (codec.drain rest).behind [text] := by
  rw [drain]
  split
  · rename_i heq
    cases h.symm.trans heq
  · rename_i heq
    cases h.symm.trans heq
  · rename_i heq
    cases h.symm.trans heq
    rfl

lemma decode_of_short (h : buffer.length < 4) : codec.decode buffer = (.partialFrame, buffer) := by
  unfold decode
  split
  · simp only [List.length_cons] at h
    omega
  · rfl

lemma decode_of_large (h : codec.maxSize < lengthOfBytes a b c d) :
    codec.decode (a :: b :: c :: d :: rest) =
      (.fault (.tooLarge (lengthOfBytes a b c d) codec.maxSize), a :: b :: c :: d :: rest) := by
  simp only [decode]
  rw [if_pos h]

lemma decode_of_unfinished (hfits : lengthOfBytes a b c d ≤ codec.maxSize)
    (h : rest.length < lengthOfBytes a b c d) :
    codec.decode (a :: b :: c :: d :: rest) = (.partialFrame, a :: b :: c :: d :: rest) := by
  simp only [decode]
  rw [if_neg (by omega), if_pos h]

lemma decode_of_data {data : Utf8.Bytes} (hfits : lengthOfBytes a b c d ≤ codec.maxSize)
    (h : data.length = lengthOfBytes a b c d) :
    codec.decode (a :: b :: c :: d :: (data ++ rest)) =
      (match Text.Utf8.decode data with
        | .ok text => .frame text
        | .error fault => .fault (.notUtf8 fault), rest) := by
  have hlength : ¬ (data ++ rest).length < data.length := by
    rw [List.length_append]
    omega
  simp only [decode]
  rw [if_neg (by omega), ← h, if_neg hlength, List.take_left, List.drop_left]
  cases Text.Utf8.decode data <;> rfl

lemma eq_of_partialFrame (h : codec.decode buffer = (.partialFrame, rest)) : rest = buffer := by
  unfold decode at h
  split at h
  · simp only at h
    split at h
    · cases h
    · split at h
      · cases h
        rfl
      · split at h
        · cases h
        · cases h
  · cases h
    rfl

/-- What is decided about the front of a buffer stays decided when more bytes come. -/
lemma decode_append {front : Front} (h : codec.decode buffer = (front, rest))
    (hwhole : front ≠ .partialFrame) (more : Utf8.Bytes) :
    codec.decode (buffer ++ more) = (front, rest ++ more) := by
  unfold decode at h
  split at h
  · rename_i a b c d tail
    simp only at h
    simp only [decode, List.cons_append]
    generalize lengthOfBytes a b c d = size at h ⊢
    split at h
    · rename_i hlarge
      cases h
      rw [if_pos hlarge]
      rfl
    · rename_i hfits
      rw [if_neg hfits]
      split at h
      · cases h
        exact absurd rfl hwhole
      · rename_i hlong
        have hsize : size ≤ tail.length := by omega
        have hmore : ¬ (tail ++ more).length < size := by
          rw [List.length_append]
          omega
        rw [if_neg hmore, List.take_append_of_le_length hsize, List.drop_append_of_le_length hsize]
        split at h
        · cases h
          rfl
        · cases h
          rfl
  · cases h
    exact absurd rfl hwhole

lemma lengthOfBytes_lengthBytes (n : Nat) :
    lengthOfBytes (.ofNat (n / 0x1000000)) (.ofNat (n / 0x10000)) (.ofNat (n / 0x100)) (.ofNat n) =
      n % Nat.pow 2 32 := by
  have hpow : Nat.pow 2 32 = 0x100000000 := rfl
  simp only [lengthOfBytes, UInt8.toNat_ofNat', hpow]
  omega

lemma encode_of_le (h : (Text.Utf8.encode text).length ≤ codec.maxSize) :
    codec.encode text =
      .ok (lengthBytes (Text.Utf8.encode text).length ++ Text.Utf8.encode text) := by
  simp only [encode]
  rw [if_neg (by omega)]

lemma eq_of_encode {frame : Utf8.Bytes} (h : codec.encode text = .ok frame) :
    (Text.Utf8.encode text).length ≤ codec.maxSize ∧
      frame = lengthBytes (Text.Utf8.encode text).length ++ Text.Utf8.encode text := by
  simp only [encode] at h
  split at h
  · cases h
  · cases h
    exact ⟨by omega, rfl⟩

lemma decode_append_of_encode {frame : Utf8.Bytes} (h : codec.encode text = .ok frame)
    (more : Utf8.Bytes) :
    codec.decode (frame ++ more) =
      (match Text.Utf8.decode
          ((Text.Utf8.encode text).take ((Text.Utf8.encode text).length % Nat.pow 2 32)) with
        | .ok text => .frame text
        | .error fault => .fault (.notUtf8 fault),
        (Text.Utf8.encode text).drop ((Text.Utf8.encode text).length % Nat.pow 2 32) ++ more) := by
  obtain ⟨hfits, rfl⟩ := eq_of_encode h
  generalize Text.Utf8.encode text = data at hfits
  have hsize := lengthOfBytes_lengthBytes data.length
  have hless : data.length % Nat.pow 2 32 ≤ data.length := Nat.mod_le _ _
  have hlength : (data.take (data.length % Nat.pow 2 32)).length = lengthOfBytes
      (.ofNat (data.length / 0x1000000)) (.ofNat (data.length / 0x10000))
      (.ofNat (data.length / 0x100)) (.ofNat data.length) := by
    rw [hsize, List.length_take_of_le hless]
  have hfront := @decode_of_data codec (data.drop (data.length % Nat.pow 2 32) ++ more) _ _ _ _ _
    (hsize ▸ Nat.le_trans hless hfits) hlength
  rw [← List.append_assoc, List.take_append_drop] at hfront
  exact hfront

/-- A frame at the front of a buffer gives back its text and leaves what follows. -/
theorem decode_encode {frame : Utf8.Bytes} (h : codec.encode text = .ok frame)
    (hshort : (Text.Utf8.encode text).length < Nat.pow 2 32) (more : Utf8.Bytes) :
    codec.decode (frame ++ more) = (.frame text, more) := by
  rw [decode_append_of_encode h, Nat.mod_eq_of_lt hshort, List.take_length, List.drop_length,
    List.nil_append, Text.Utf8.decode_encode]

/-! ### Chunks -/

lemma drain_nil : codec.drain [] = {} := drain_of_partialFrame rfl

lemma takeIn_behind (texts : List String) (i : Intake) (chunk : Utf8.Bytes) :
    codec.takeIn (i.behind texts) chunk = (codec.takeIn i chunk).behind texts := by
  cases hfault : i.fault with
  | some fault => simp [takeIn, Intake.behind, hfault]
  | none => simp [takeIn, Intake.behind, hfault]

/-- Bytes that come later are taken in as if they had been there from the start. -/
theorem drain_append (buffer more : Utf8.Bytes) :
    codec.drain (buffer ++ more) = codec.takeIn (codec.drain buffer) more := by
  cases hfront : codec.decode buffer with
  | mk front rest =>
    cases front with
    | partialFrame =>
      rw [drain_of_partialFrame hfront, eq_of_partialFrame hfront]
      exact (Intake.behind_nil _).symm
    | fault fault =>
      rw [drain_of_fault hfront, drain_of_fault (decode_append hfront (by simp) more)]
      rfl
    | frame text =>
      have hless := length_of_frame hfront
      rw [drain_of_frame hfront, drain_of_frame (decode_append hfront (by simp) more),
        drain_append rest more, takeIn_behind]
termination_by buffer.length

lemma foldl_takeIn (buffer : Utf8.Bytes) (chunks : List Utf8.Bytes) :
    chunks.foldl codec.takeIn (codec.drain buffer) = codec.drain (buffer ++ chunks.flatten) := by
  induction chunks generalizing buffer with
  | nil => rw [List.foldl_nil, List.flatten_nil, List.append_nil]
  | cons chunk rest ih =>
    rw [List.foldl_cons, ← drain_append, ih, List.flatten_cons, List.append_assoc]

/-- What is read from chunks is what is read from their bytes at once. -/
theorem feed_eq_drain (chunks : List Utf8.Bytes) :
    codec.feed chunks = codec.drain chunks.flatten := by
  have hfold := @foldl_takeIn codec [] chunks
  rw [drain_nil, List.nil_append] at hfold
  exact hfold

lemma drain_frames {texts : List String} {frames : List Utf8.Bytes}
    (hframes : List.Forall₂ (fun text frame => codec.encode text = .ok frame) texts frames)
    (hshort : ∀ text ∈ texts, (Text.Utf8.encode text).length < Nat.pow 2 32) :
    codec.drain frames.flatten = { texts := texts } := by
  induction hframes with
  | nil => exact drain_nil
  | cons hframe _ ih =>
    have hfront := decode_encode hframe (hshort _ List.mem_cons_self)
    have hrest := ih fun text htext => hshort text (List.mem_cons_of_mem _ htext)
    rw [List.flatten_cons, drain_of_frame (hfront _), hrest]
    rfl

lemma prefix_of_takeIn {i : Intake} {chunk : Utf8.Bytes} {texts : List String}
    (h : codec.takeIn i chunk = { texts := texts }) : i.fault = none ∧ i.texts <+: texts := by
  unfold takeIn at h
  split at h
  · rename_i fault hfault
    have hnone : i.fault = none := congrArg Intake.fault h
    rw [hnone] at hfault
    cases hfault
  · rename_i hfault
    refine ⟨hfault, ?_⟩
    have htexts : i.texts ++ (codec.drain (i.buffer ++ chunk)).texts = texts :=
      congrArg Intake.texts h
    rw [← htexts]
    exact List.prefix_append _ _

/-- Texts of up to the largest size have frames. However the bytes of these are cut into chunks, a
reader takes in the texts in their order, without a fault on the way, and has no bytes left. -/
theorem chunks_give_back_the_texts (codec : Codec) (texts : List String)
    (hsize : ∀ text ∈ texts, (Text.Utf8.encode text).length ≤ codec.maxSize ∧
      (Text.Utf8.encode text).length < Nat.pow 2 32) :
    ∃ frames, List.Forall₂ (fun text frame => codec.encode text = .ok frame) texts frames ∧
      (∀ chunks : List Utf8.Bytes, chunks.flatten = frames.flatten →
        codec.feed chunks = { texts := texts }) ∧
      ∀ chunks : List Utf8.Bytes, chunks.flatten <+: frames.flatten →
        (codec.feed chunks).fault = none ∧ (codec.feed chunks).texts <+: texts := by
  have hframes : List.Forall₂ (fun text frame => codec.encode text = .ok frame) texts
      (texts.map fun text =>
        lengthBytes (Text.Utf8.encode text).length ++ Text.Utf8.encode text) := by
    rw [List.forall₂_map_right_iff, List.forall₂_same]
    intro text htext
    exact encode_of_le (hsize text htext).1
  have hdrain := drain_frames hframes fun text htext => (hsize text htext).2
  refine ⟨_, hframes, ?_, ?_⟩
  · intro chunks hchunks
    rw [feed_eq_drain, hchunks, hdrain]
  · rintro chunks ⟨rest, hrest⟩
    rw [← hrest, drain_append, ← feed_eq_drain] at hdrain
    exact prefix_of_takeIn hdrain

/-- Two frames, cut within a length and within a character. -/
theorem split_character_is_read_back :
    (∀ text ∈ ["é", ""], (Text.Utf8.encode text).length ≤ 2 ∧
      (Text.Utf8.encode text).length < Nat.pow 2 32) ∧
    Codec.feed ⟨2⟩ [[0, 0], [0, 2, 0xC3], [], [0xA9, 0, 0, 0], [0]] = { texts := ["é", ""] } := by
  have hsize : ∀ text ∈ ["é", ""], (Text.Utf8.encode text).length ≤ 2 ∧
      (Text.Utf8.encode text).length < Nat.pow 2 32 := by decide
  refine ⟨hsize, ?_⟩
  obtain ⟨frames, hframes, hfeed, _⟩ := chunks_give_back_the_texts ⟨2⟩ ["é", ""] hsize
  apply hfeed
  rcases hframes with _ | ⟨hfirst, _ | ⟨hsecond, _ | _⟩⟩
  cases hfirst
  cases hsecond
  rfl

end Codec

end InspectorProtocol.Wire

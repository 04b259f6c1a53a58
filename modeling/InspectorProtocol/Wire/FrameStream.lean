import InspectorProtocol.Wire.Codec

/-!
# Frames over a byte channel

Reading: the channel's bytes are collected in a buffer and frames are taken off its front. After a
fault the stream answers its end once and then waits for further bytes before it looks at the buffer
again. When the channel has ended, frames are taken until the buffer is empty; a part of a frame
that is left over is a fault.

Writing: a frame goes to the channel as a whole. Once the other side is gone nothing can be
written, and frames pile up unsent.
-/

namespace InspectorProtocol.Wire

open Text (Utf8.Bytes)

/-- How much may be unsent before a further frame is refused without being looked at. -/
def backlogLimit : Nat := 8192

/-- What the stream does when it is asked for a frame. -/
inductive ReadPhase where
  /-- wait for bytes -/
  | reading
  /-- look for a frame in the buffer -/
  | framing
  /-- answer the end once, after a fault -/
  | faulted
  deriving DecidableEq, Repr

structure FrameStream where
  codec : Codec
  /-- bytes that the other side has written and nobody has read -/
  incoming : Utf8.Bytes := []
  /-- whether the other side is gone -/
  hungUp : Bool := false
  buffer : Utf8.Bytes := []
  phase : ReadPhase := .reading
  /-- whether the end of the channel has been read -/
  ended : Bool := false
  /-- the number of bytes that could not be sent -/
  backlog : Nat := 0

/-- The answer to asking for a frame. -/
inductive Poll where
  | pending
  | item (text : String)
  | fault (failure : Failure)
  | finished

namespace FrameStream

/-- The other side writes. -/
def receive (s : FrameStream) (bytes : Utf8.Bytes) : FrameStream :=
  { s with incoming := s.incoming ++ bytes }

/-- The other side hangs up. -/
def hangUp (s : FrameStream) : FrameStream := { s with hungUp := true }

/-- Look for a frame in the buffer; nothing if there is none and the channel may have more. -/
def takeFrame (s : FrameStream) : Option Poll × FrameStream :=
  let (front, rest) := s.codec.decode s.buffer
  match front with
  | .frame text => (some (.item text), { s with buffer := rest })
  | .fault fault => (some (.fault fault.toFailure), { s with buffer := rest, phase := .faulted })
  | .partialFrame =>
    if !s.ended then (none, { s with phase := .reading })
    else if s.buffer.isEmpty then (some .finished, { s with phase := .reading })
    else (some (.fault (.io .bytesRemaining)), { s with phase := .faulted })

/-- Take what the channel has; nothing if that is nothing. -/
def fill (s : FrameStream) : Option FrameStream :=
  if !s.incoming.isEmpty then
    some { s with
      buffer := s.buffer ++ s.incoming, incoming := [], ended := false, phase := .framing }
  else if s.hungUp && !s.ended then some { s with ended := true, phase := .framing }
  else none

/-- Ask for a frame after the buffer had none: take what the channel has, and after that its end. -/
def readOn (s : FrameStream) : Poll × FrameStream :=
  match s.fill with
  | none => (if s.hungUp && s.ended then .finished else .pending, s)
  | some s =>
    match s.takeFrame with
    | (some answer, s) => (answer, s)
    | (none, s) =>
      match s.fill with
      | none => (.pending, s)
      | some s => (s.takeFrame.1.getD .finished, s.takeFrame.2)

/-- Ask for a frame. -/
def poll (s : FrameStream) : Poll × FrameStream :=
  match s.phase with
  | .faulted => (.finished, { s with phase := .reading })
  | .reading => s.readOn
  | .framing =>
    match s.takeFrame with
    | (some answer, s) => (answer, s)
    | (none, s) => s.readOn

/-- Write a frame; the bytes that the other side gets. `broken` is what a channel says whose other
side is gone. -/
def send (s : FrameStream) (broken : IoFault) (text : String) :
    Except Failure Utf8.Bytes × FrameStream :=
  if s.hungUp && s.backlog ≥ backlogLimit then (.error (.io broken), s)
  else match s.codec.encode text with
    | .error fault => (.error fault.toFailure, s)
    | .ok bytes =>
      if s.hungUp then (.error (.io broken), { s with backlog := s.backlog + bytes.length })
      else (.ok bytes, s)

end FrameStream

end InspectorProtocol.Wire

import InspectorProtocol.Text.Utf8
import InspectorProtocol.Failure

/-!
# Length-prefixed frames

A frame is a text in UTF-8 behind its length in bytes, four bytes with the most significant first.
Both sides refuse a frame longer than the codec allows: the writer before it writes anything, the
reader as soon as it has the four bytes, which it leaves where they are.
-/

namespace InspectorProtocol.Wire

open Text (Utf8.Bytes)

/-- The largest frame, in bytes, unless configured otherwise. -/
def defaultMaxSize : Nat := 16 * 1024 * 1024

inductive CodecFault where
  | notUtf8 (fault : Text.Utf8.Fault)
  | tooLarge (size max : Nat)
  deriving DecidableEq, Repr

def CodecFault.message : CodecFault → String
  | .notUtf8 fault => "Frame is not valid UTF-8: " ++ fault.message
  | .tooLarge size max => s!"Message too large: {size} bytes (max {max})"

def CodecFault.toFailure : CodecFault → Failure
  | .notUtf8 fault => .invalidMessage fault.message
  | .tooLarge size max => .messageTooLarge size max

/-- The length of a frame as its four bytes. A length beyond them loses its high bits. -/
def lengthBytes (n : Nat) : Utf8.Bytes :=
  [.ofNat (n / 0x1000000), .ofNat (n / 0x10000), .ofNat (n / 0x100), .ofNat n]

/-- The length that four bytes stand for. -/
def lengthOfBytes (a b c d : UInt8) : Nat :=
  a.toNat * 0x1000000 + b.toNat * 0x10000 + c.toNat * 0x100 + d.toNat

structure Codec where
  maxSize : Nat := defaultMaxSize

/-- What the bytes at the front of a buffer are. -/
inductive Front where
  /-- not yet a whole frame -/
  | partialFrame
  | frame (text : String)
  | fault (fault : CodecFault)

namespace Codec

/-- The bytes of a frame. -/
def encode (codec : Codec) (text : String) : Except CodecFault Utf8.Bytes :=
  let data := Text.Utf8.encode text
  if data.length > codec.maxSize then .error (.tooLarge data.length codec.maxSize)
  else .ok (lengthBytes data.length ++ data)

/-- Take a frame off the front of a buffer; what is left follows. A frame that is no text is taken
off too, one that is too large is not. -/
def decode (codec : Codec) (buffer : Utf8.Bytes) : Front × Utf8.Bytes :=
  match buffer with
  | a :: b :: c :: d :: rest =>
    let size := lengthOfBytes a b c d
    if size > codec.maxSize then (.fault (.tooLarge size codec.maxSize), buffer)
    else if rest.length < size then (.partialFrame, buffer)
    else
      match Text.Utf8.decode (rest.take size) with
      | .ok text => (.frame text, rest.drop size)
      | .error fault => (.fault (.notUtf8 fault), rest.drop size)
  | _ => (.partialFrame, buffer)

end Codec

end InspectorProtocol.Wire

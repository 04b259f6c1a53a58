/-!
# UTF-8

Texts as bytes and back. The decoder takes one byte at a time; between two bytes it holds at most
one unfinished character, of which it knows the range its next byte has to be in. It stops at the
first byte that no character can go on with.
-/

namespace InspectorProtocol.Text.Utf8

abbrev Bytes := List UInt8

/-- The bytes of a character, one to four. -/
def encodeChar (c : Char) : Bytes :=
  let n := c.toNat
  if n < 0x80 then [.ofNat n]
  else if n < 0x800 then [.ofNat (0xC0 + n / 0x40), .ofNat (0x80 + n % 0x40)]
  else if n < 0x10000 then
    [.ofNat (0xE0 + n / 0x1000), .ofNat (0x80 + n / 0x40 % 0x40), .ofNat (0x80 + n % 0x40)]
  else
    [.ofNat (0xF0 + n / 0x40000), .ofNat (0x80 + n / 0x1000 % 0x40),
      .ofNat (0x80 + n / 0x40 % 0x40), .ofNat (0x80 + n % 0x40)]

def encode (s : String) : Bytes := s.toList.flatMap encodeChar

/-- Why bytes are no text. `index` is where the faulty character starts. -/
inductive Fault where
  /-- the first `length` bytes of the character cannot be gone on with as the next byte does -/
  | invalid (index length : Nat)
  /-- the bytes end within a character -/
  | incomplete (index : Nat)
  deriving DecidableEq, Repr

def Fault.message : Fault → String
  | .invalid index length => s!"invalid utf-8 sequence of {length} bytes from index {index}"
  | .incomplete index => s!"incomplete utf-8 byte sequence from index {index}"

/-- A character of which `missing` bytes have not come yet. -/
structure Partial where
  missing : Nat
  /-- the least and the greatest byte that may come next -/
  low : Nat
  high : Nat
  /-- the number the bytes so far stand for -/
  value : Nat
  /-- how many bytes have come -/
  taken : Nat

/-- What a byte leads to. -/
inductive Advance where
  | complete (c : Char)
  | more (p : Partial)
  | refused

/-- Take the first byte of a character. -/
def first (byte : UInt8) : Advance :=
  let b := byte.toNat
  if b < 0x80 then .complete (Char.ofNat b)
  else if b < 0xC2 then .refused
  else if b < 0xE0 then .more ⟨1, 0x80, 0xBF, b - 0xC0, 1⟩
  else if b = 0xE0 then .more ⟨2, 0xA0, 0xBF, 0, 1⟩
  else if b = 0xED then .more ⟨2, 0x80, 0x9F, 0xD, 1⟩
  else if b < 0xF0 then .more ⟨2, 0x80, 0xBF, b - 0xE0, 1⟩
  else if b = 0xF0 then .more ⟨3, 0x90, 0xBF, 0, 1⟩
  else if b < 0xF4 then .more ⟨3, 0x80, 0xBF, b - 0xF0, 1⟩
  else if b = 0xF4 then .more ⟨3, 0x80, 0x8F, 4, 1⟩
  else .refused

/-- Take a further byte of a character. -/
def Partial.next (p : Partial) (byte : UInt8) : Advance :=
  let b := byte.toNat
  if b < p.low || p.high < b then .refused
  else
    let value := p.value * 0x40 + (b - 0x80)
    if p.missing ≤ 1 then .complete (Char.ofNat value)
    else .more ⟨p.missing - 1, 0x80, 0xBF, value, p.taken + 1⟩

/-- The decoder between two bytes. -/
structure Decoder where
  /-- the characters so far, last first -/
  chars : List Char := []
  /-- how many bytes these characters have -/
  index : Nat := 0
  pending : Option Partial := none
  fault : Option Fault := none

namespace Decoder

def step (d : Decoder) (byte : UInt8) : Decoder :=
  match d.fault with
  | some _ => d
  | none =>
    let taken := match d.pending with
      | none => 0
      | some p => p.taken
    let advance := match d.pending with
      | none => first byte
      | some p => p.next byte
    match advance with
    | .complete c => { d with chars := c :: d.chars, index := d.index + taken + 1, pending := none }
    | .more p => { d with pending := some p }
    | .refused => { d with fault := some (.invalid d.index (max taken 1)) }

def finish (d : Decoder) : Except Fault String :=
  match d.fault, d.pending with
  | some fault, _ => .error fault
  | none, some _ => .error (.incomplete d.index)
  | none, none => .ok (String.ofList d.chars.reverse)

end Decoder

/-- The text of these bytes. -/
def decode (bytes : Bytes) : Except Fault String := (bytes.foldl Decoder.step {}).finish

/-- The character that stands for bytes that are no text. -/
def replacement : Char := Char.ofNat 0xFFFD

/-- Take a byte where nothing is refused: what cannot be gone on with counts as one replacement
character, and the byte that does not fit starts anew. -/
def lossyStep (state : List Char × Option Partial) (byte : UInt8) : List Char × Option Partial :=
  let start (chars : List Char) : List Char × Option Partial :=
    match first byte with
    | .complete c => (c :: chars, none)
    | .more p => (chars, some p)
    | .refused => (replacement :: chars, none)
  match state with
  | (chars, none) => start chars
  | (chars, some p) =>
    match p.next byte with
    | .complete c => (c :: chars, none)
    | .more p => (chars, some p)
    | .refused => start (replacement :: chars)

/-- The text of these bytes, with replacement characters for what is no text. -/
def decodeLossy (bytes : Bytes) : String :=
  match bytes.foldl lossyStep ([], none) with
  | (chars, none) => String.ofList chars.reverse
  | (chars, some _) => String.ofList (replacement :: chars).reverse

end InspectorProtocol.Text.Utf8

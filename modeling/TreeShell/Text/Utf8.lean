import TreeShell.Text

/-! Texts as bytes. A text with a surrogate in it has no bytes. A byte sequence that is no text is
read with one replacement character for each longest piece that could have begun a character. -/
namespace TreeShell.Text

def charBytes (c : Char) : Nat :=
  if c.toNat < 0x80 then 1 else if c.toNat < 0x800 then 2 else if c.toNat < 0x10000 then 3 else 4

def byteCount : Text → Nat
  | [] => 0
  | chr c :: rest => charBytes c + byteCount rest
  | .surrogate _ :: rest => byteCount rest

/-- The surrogates of a text that stand together first, behind the position of the first one. -/
def surrogates? (t : Text) : Option (Nat × Text) :=
  let run := (t.dropWhile (!·.isSurrogate)).takeWhile (·.isSurrogate)
  if run.isEmpty then none else some ((t.takeWhile (!·.isSurrogate)).length, run)

def encodeChar (c : Char) : List UInt8 :=
  let n := c.toNat
  let tail (shift : Nat) : UInt8 := UInt8.ofNat (0x80 + (n >>> shift) % 0x40)
  if n < 0x80 then [UInt8.ofNat n]
  else if n < 0x800 then [UInt8.ofNat (0xc0 + n / 0x40), tail 0]
  else if n < 0x10000 then [UInt8.ofNat (0xe0 + n / 0x1000), tail 6, tail 0]
  else [UInt8.ofNat (0xf0 + n / 0x40000), tail 12, tail 6, tail 0]

def encode (t : Text) : List UInt8 :=
  t.flatMap fun
    | chr c => encodeChar c
    | .surrogate _ => []

/-- What a leading byte announces: how many bytes follow, the range of the first of them,
and the bits that the leading byte contributes. -/
def announced? (b : Nat) : Option (Nat × Nat × Nat × Nat) :=
  if 0xc2 ≤ b && b ≤ 0xdf then some (1, 0x80, 0xbf, b - 0xc0)
  else if b = 0xe0 then some (2, 0xa0, 0xbf, 0)
  else if b = 0xed then some (2, 0x80, 0x9f, 0xd)
  else if 0xe1 ≤ b && b ≤ 0xef then some (2, 0x80, 0xbf, b - 0xe0)
  else if b = 0xf0 then some (3, 0x90, 0xbf, 0)
  else if b = 0xf4 then some (3, 0x80, 0x8f, 4)
  else if 0xf1 ≤ b && b ≤ 0xf3 then some (3, 0x80, 0xbf, b - 0xf0)
  else none

/-- A character at the beginning of its bytes, or in the middle of them. -/
inductive Decoding where
  | start
  | inside (missing low high value : Nat)

def replacement : CodePoint := CodePoint.ofNat 0xfffd

def decodeStart (b : Nat) : Text × Decoding :=
  if b < 0x80 then ([CodePoint.ofNat b], .start)
  else match announced? b with
    | some (missing, low, high, value) => ([], .inside missing low high value)
    | none => ([replacement], .start)

/-- Reads one byte. A byte that cannot go on the character at hand ends it and begins anew. -/
def decodeByte (state : Decoding) (b : Nat) : Text × Decoding :=
  match state with
  | .start => decodeStart b
  | .inside missing low high value =>
    if low ≤ b && b ≤ high then
      let value := value * 0x40 + (b - 0x80)
      if missing ≤ 1 then ([CodePoint.ofNat value], .start)
      else ([], .inside (missing - 1) 0x80 0xbf value)
    else
      let (read, state) := decodeStart b
      (replacement :: read, state)

def decodeFrom (state : Decoding) : List UInt8 → Text
  | [] => match state with
    | .start => []
    | .inside .. => [replacement]
  | b :: rest =>
    let (read, state) := decodeByte state b.toNat
    read ++ decodeFrom state rest

def decode (bytes : List UInt8) : Text := decodeFrom .start bytes

/-- Turns every end of line, however it is written, into a line feed. -/
def plainEnds : Text → Text
  | '\r' :: '\n' :: rest => chr '\n' :: plainEnds rest
  | '\r' :: rest => chr '\n' :: plainEnds rest
  | c :: rest => c :: plainEnds rest
  | [] => []

end TreeShell.Text

/-!
# Fingerprints of texts

A keyed hash with 64-bit words, one mixing round per input word and three at the end (SipHash-1-3),
here with both key words zero. The input is cut into little-endian words of eight bytes; the last
word holds the bytes left over and, on top, the length of the input modulo 256.

The fingerprint of a text is the hash of its UTF-8 bytes followed by one byte `0xFF`, which keeps a
text apart from its own prefixes.
-/

namespace ObservableStore.Text

/-- The state of the hash: four words. -/
structure HashState where
  v0 : UInt64
  v1 : UInt64
  v2 : UInt64
  v3 : UInt64
deriving Repr, DecidableEq

/-- Rotation to the left by `k` bits, `0 < k < 64`. -/
def rotateLeft (x : UInt64) (k : UInt64) : UInt64 :=
  (x <<< k) ||| (x >>> (64 - k))

namespace HashState

/-- The state before any input, for zero keys. -/
def initial : HashState :=
  { v0 := 0x736f6d6570736575
    v1 := 0x646f72616e646f6d
    v2 := 0x6c7967656e657261
    v3 := 0x7465646279746573 }

/-- One mixing round. -/
def round (s : HashState) : HashState :=
  let a0 := s.v0 + s.v1
  let a1 := rotateLeft s.v1 13 ^^^ a0
  let a0 := rotateLeft a0 32
  let a2 := s.v2 + s.v3
  let a3 := rotateLeft s.v3 16 ^^^ a2
  let b0 := a0 + a3
  let b3 := rotateLeft a3 21 ^^^ b0
  let b2 := a2 + a1
  let b1 := rotateLeft a1 17 ^^^ b2
  let b2 := rotateLeft b2 32
  { v0 := b0, v1 := b1, v2 := b2, v3 := b3 }

/-- Takes in one input word. -/
def absorb (s : HashState) (m : UInt64) : HashState :=
  let s := round { s with v3 := s.v3 ^^^ m }
  { s with v0 := s.v0 ^^^ m }

/-- The hash value: three rounds after the closing mark. -/
def finish (s : HashState) : UInt64 :=
  let s := round (round (round { s with v2 := s.v2 ^^^ 0xff }))
  s.v0 ^^^ s.v1 ^^^ s.v2 ^^^ s.v3

end HashState

/-- The word with the given bytes, the lowest byte first. -/
def littleEndian : List UInt8 → UInt64
  | [] => 0
  | b :: rest => b.toUInt64 ||| (littleEndian rest <<< 8)

/-- Takes in the bytes in words of eight; `length` is the length of the whole input. -/
def absorbBytes (length : Nat) (s : HashState) : List UInt8 → HashState
  | b0 :: b1 :: b2 :: b3 :: b4 :: b5 :: b6 :: b7 :: rest =>
    absorbBytes length (s.absorb (littleEndian [b0, b1, b2, b3, b4, b5, b6, b7])) rest
  | rest => s.absorb (littleEndian rest ||| (length.toUInt64 <<< 56))

/-- The hash of a list of bytes. -/
def hashBytes (bs : List UInt8) : UInt64 :=
  (absorbBytes bs.length .initial bs).finish

/-- The fingerprint of a text. -/
def fingerprint (s : String) : UInt64 :=
  hashBytes (s.toUTF8.toList ++ [0xFF])

end ObservableStore.Text

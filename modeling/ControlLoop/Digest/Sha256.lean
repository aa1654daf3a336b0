/-
The SHA-256 digest of a list of bytes, and its text in hexadecimal.
-/

namespace ControlLoop.Digest

/-- The eight words that a digest is built up in. -/
structure Sha256State where
  a : UInt32
  b : UInt32
  c : UInt32
  d : UInt32
  e : UInt32
  f : UInt32
  g : UInt32
  h : UInt32

namespace Sha256State

/-- The first 32 bits of the fractions of the square roots of the first eight primes. -/
def initial : Sha256State :=
  ⟨0x6a09e667, 0xbb67ae85, 0x3c6ef372, 0xa54ff53a, 0x510e527f, 0x9b05688c, 0x1f83d9ab, 0x5be0cd19⟩

def add (s t : Sha256State) : Sha256State :=
  ⟨s.a + t.a, s.b + t.b, s.c + t.c, s.d + t.d, s.e + t.e, s.f + t.f, s.g + t.g, s.h + t.h⟩

def words (s : Sha256State) : List UInt32 := [s.a, s.b, s.c, s.d, s.e, s.f, s.g, s.h]

end Sha256State

/-- The first 32 bits of the fractions of the cube roots of the first 64 primes. -/
def roundConstants : List UInt32 :=
  [0x428a2f98, 0x71374491, 0xb5c0fbcf, 0xe9b5dba5, 0x3956c25b, 0x59f111f1, 0x923f82a4, 0xab1c5ed5,
   0xd807aa98, 0x12835b01, 0x243185be, 0x550c7dc3, 0x72be5d74, 0x80deb1fe, 0x9bdc06a7, 0xc19bf174,
   0xe49b69c1, 0xefbe4786, 0x0fc19dc6, 0x240ca1cc, 0x2de92c6f, 0x4a7484aa, 0x5cb0a9dc, 0x76f988da,
   0x983e5152, 0xa831c66d, 0xb00327c8, 0xbf597fc7, 0xc6e00bf3, 0xd5a79147, 0x06ca6351, 0x14292967,
   0x27b70a85, 0x2e1b2138, 0x4d2c6dfc, 0x53380d13, 0x650a7354, 0x766a0abb, 0x81c2c92e, 0x92722c85,
   0xa2bfe8a1, 0xa81a664b, 0xc24b8b70, 0xc76c51a3, 0xd192e819, 0xd6990624, 0xf40e3585, 0x106aa070,
   0x19a4c116, 0x1e376c08, 0x2748774c, 0x34b0bcb5, 0x391c0cb3, 0x4ed8aa4a, 0x5b9cca4f, 0x682e6ff3,
   0x748f82ee, 0x78a5636f, 0x84c87814, 0x8cc70208, 0x90befffa, 0xa4506ceb, 0xbef9a3f7, 0xc67178f2]

def rotateRight (x : UInt32) (n : UInt32) : UInt32 := (x >>> n) ||| (x <<< (32 - n))

/-- The next word of a schedule, from the last sixteen, newest first. -/
def nextWord (recent : List UInt32) : UInt32 :=
  let at_ (back : Nat) := recent.getD (back - 1) 0
  let near := at_ 2
  let far := at_ 15
  let s0 := rotateRight far 7 ^^^ rotateRight far 18 ^^^ (far >>> 3)
  let s1 := rotateRight near 17 ^^^ rotateRight near 19 ^^^ (near >>> 10)
  at_ 16 + s0 + at_ 7 + s1

/-- Extend a schedule, kept newest first, by so many words. -/
def extendSchedule (recent : List UInt32) : Nat → List UInt32
  | 0 => recent
  | n + 1 => extendSchedule (nextWord recent :: recent) n

/-- One of the 64 rounds on a block. -/
def step (s : Sha256State) (constant word : UInt32) : Sha256State :=
  let s1 := rotateRight s.e 6 ^^^ rotateRight s.e 11 ^^^ rotateRight s.e 25
  let choice := (s.e &&& s.f) ^^^ (~~~s.e &&& s.g)
  let t1 := s.h + s1 + choice + constant + word
  let s0 := rotateRight s.a 2 ^^^ rotateRight s.a 13 ^^^ rotateRight s.a 22
  let majority := (s.a &&& s.b) ^^^ (s.a &&& s.c) ^^^ (s.b &&& s.c)
  ⟨t1 + (s0 + majority), s.a, s.b, s.c, s.d + t1, s.e, s.f, s.g⟩

/-- Work a block of sixteen words into the state. -/
def compress (s : Sha256State) (block : List UInt32) : Sha256State :=
  let schedule := (extendSchedule block.reverse 48).reverse
  s.add ((roundConstants.zip schedule).foldl (fun s (k, w) => step s k w) s)

/-- Bytes as words, first byte highest. -/
def wordsOf : List UInt8 → List UInt32
  | b₀ :: b₁ :: b₂ :: b₃ :: rest =>
    ((b₀.toUInt32 <<< 24) ||| (b₁.toUInt32 <<< 16) ||| (b₂.toUInt32 <<< 8) ||| b₃.toUInt32)
      :: wordsOf rest
  | _ => []

/-- The bytes of a number, highest first. -/
def bigEndian (n : Nat) : Nat → List UInt8
  | 0 => []
  | width + 1 => UInt8.ofNat (n / Nat.pow 256 width) :: bigEndian n width

/-- What follows a message of so many bytes: a one bit, zeros up to a block, and its bit count. -/
def padding (length : Nat) : List UInt8 :=
  0x80 :: (List.replicate ((119 - length % 64) % 64) 0 ++ bigEndian (8 * length) 8)

/-- Work blocks of sixteen words into the state. -/
def compressAll (s : Sha256State) : Nat → List UInt32 → Sha256State
  | 0, _ => s
  | blocks + 1, ws => compressAll (compress s (ws.take 16)) blocks (ws.drop 16)

/-- The digest of a message. -/
def sha256 (message : List UInt8) : List UInt8 :=
  let ws := wordsOf (message ++ padding message.length)
  let s := compressAll Sha256State.initial (ws.length / 16) ws
  s.words.flatMap fun w => bigEndian w.toNat 4

/-- Bytes in hexadecimal, two digits each. -/
def hexText (bytes : List UInt8) : String :=
  String.ofList (bytes.flatMap fun b =>
    [Nat.digitChar (b.toNat / 16), Nat.digitChar (b.toNat % 16)])

end ControlLoop.Digest

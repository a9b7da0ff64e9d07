import Lifecycle.Text.Hex

/-!
# The SHA-256 digest

The digest of a list of octets: the message is padded to blocks of 64 octets, every block is spread
over a schedule of 64 words, and a state of eight words is compressed with the schedule of one block
after the other. The digest is written as 64 hexadecimal digits.
-/

namespace Lifecycle.Sha256

/-! ### Words -/

/-- A word turned right by a number of bits. -/
def turn (w bits : UInt32) : UInt32 := (w >>> bits) ||| (w <<< (32 - bits))

def smallSigma0 (w : UInt32) : UInt32 := turn w 7 ^^^ turn w 18 ^^^ (w >>> 3)
def smallSigma1 (w : UInt32) : UInt32 := turn w 17 ^^^ turn w 19 ^^^ (w >>> 10)
def bigSigma0 (w : UInt32) : UInt32 := turn w 2 ^^^ turn w 13 ^^^ turn w 22
def bigSigma1 (w : UInt32) : UInt32 := turn w 6 ^^^ turn w 11 ^^^ turn w 25

/-- Bits of the second word where the first has ones, bits of the third where it has zeros. -/
def choice (x y z : UInt32) : UInt32 := (x &&& y) ^^^ (~~~x &&& z)

/-- The bit that two of three words agree on. -/
def majority (x y z : UInt32) : UInt32 := (x &&& y) ^^^ (x &&& z) ^^^ (y &&& z)

def roundConstants : List UInt32 :=
  [0x428a2f98, 0x71374491, 0xb5c0fbcf, 0xe9b5dba5, 0x3956c25b, 0x59f111f1, 0x923f82a4, 0xab1c5ed5,
   0xd807aa98, 0x12835b01, 0x243185be, 0x550c7dc3, 0x72be5d74, 0x80deb1fe, 0x9bdc06a7, 0xc19bf174,
   0xe49b69c1, 0xefbe4786, 0x0fc19dc6, 0x240ca1cc, 0x2de92c6f, 0x4a7484aa, 0x5cb0a9dc, 0x76f988da,
   0x983e5152, 0xa831c66d, 0xb00327c8, 0xbf597fc7, 0xc6e00bf3, 0xd5a79147, 0x06ca6351, 0x14292967,
   0x27b70a85, 0x2e1b2138, 0x4d2c6dfc, 0x53380d13, 0x650a7354, 0x766a0abb, 0x81c2c92e, 0x92722c85,
   0xa2bfe8a1, 0xa81a664b, 0xc24b8b70, 0xc76c51a3, 0xd192e819, 0xd6990624, 0xf40e3585, 0x106aa070,
   0x19a4c116, 0x1e376c08, 0x2748774c, 0x34b0bcb5, 0x391c0cb3, 0x4ed8aa4a, 0x5b9cca4f, 0x682e6ff3,
   0x748f82ee, 0x78a5636f, 0x84c87814, 0x8cc70208, 0x90befffa, 0xa4506ceb, 0xbef9a3f7, 0xc67178f2]

/-! ### The state -/

structure State where
  a : UInt32
  b : UInt32
  c : UInt32
  d : UInt32
  e : UInt32
  f : UInt32
  g : UInt32
  h : UInt32

def start : State :=
  ⟨0x6a09e667, 0xbb67ae85, 0x3c6ef372, 0xa54ff53a, 0x510e527f, 0x9b05688c, 0x1f83d9ab, 0x5be0cd19⟩

/-- The state after one round, with its constant and its word of the schedule. -/
def State.round (s : State) (step : UInt32 × UInt32) : State :=
  let t₁ := s.h + bigSigma1 s.e + choice s.e s.f s.g + step.1 + step.2
  let t₂ := bigSigma0 s.a + majority s.a s.b s.c
  ⟨t₁ + t₂, s.a, s.b, s.c, s.d + t₁, s.e, s.f, s.g⟩

def State.add (s t : State) : State :=
  ⟨s.a + t.a, s.b + t.b, s.c + t.c, s.d + t.d, s.e + t.e, s.f + t.f, s.g + t.g, s.h + t.h⟩

/-! ### Blocks -/

/-- The word of four octets, the highest first. -/
def word (a b c d : UInt8) : UInt32 :=
  (a.toUInt32 <<< 24) ||| (b.toUInt32 <<< 16) ||| (c.toUInt32 <<< 8) ||| d.toUInt32

def blockWords : List UInt8 → List UInt32
  | a :: b :: c :: d :: rest => word a b c d :: blockWords rest
  | _ => []

/-- The schedule extended by a number of words, the newest word first. -/
def extend : Nat → List UInt32 → List UInt32
  | 0, newest => newest
  | n + 1, newest =>
    extend n ((smallSigma1 (newest.getD 1 0) + newest.getD 6 0 + smallSigma0 (newest.getD 14 0) +
      newest.getD 15 0) :: newest)

/-- The schedule of a block: its sixteen words and the 48 words made of them. -/
def schedule (block : List UInt8) : List UInt32 := (extend 48 (blockWords block).reverse).reverse

def compress (s : State) (block : List UInt8) : State :=
  s.add ((roundConstants.zip (schedule block)).foldl State.round s)

/-! ### Messages -/

/-- A number as `width` octets, the highest first. -/
def octets : Nat → Nat → List UInt8
  | 0, _ => []
  | width + 1, n => octets width (n / 256) ++ [UInt8.ofNat n]

/-- The message followed by a one bit, the fewest zeros that fill blocks, and its length in bits. -/
def pad (message : List UInt8) : List UInt8 :=
  let zeros := (119 - message.length % 64) % 64
  message ++ 0x80 :: List.replicate zeros 0 ++ octets 8 (8 * message.length)

/-- The state after all blocks of a list of octets, at most `fuel` of them. -/
def absorb : Nat → State → List UInt8 → State
  | 0, s, _ => s
  | fuel + 1, s, message =>
    if message.isEmpty then s else absorb fuel (compress s (message.take 64)) (message.drop 64)

def wordHex (w : UInt32) : List Char := Text.lowerHex 8 w.toNat

def hexDigest (message : List UInt8) : List Char :=
  let padded := pad message
  let s := absorb (padded.length / 64) start padded
  [s.a, s.b, s.c, s.d, s.e, s.f, s.g, s.h].flatMap wordHex

end Lifecycle.Sha256

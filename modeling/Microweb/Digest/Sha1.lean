import Microweb.Bytes

/-!
The SHA-1 digest of a byte string.
-/

namespace Microweb.Sha1

/-- The five words that the rounds work on. -/
structure Chain where
  a : UInt32
  b : UInt32
  c : UInt32
  d : UInt32
  e : UInt32
deriving DecidableEq, Repr

def initial : Chain := ⟨0x67452301, 0xEFCDAB89, 0x98BADCFE, 0x10325476, 0xC3D2E1F0⟩

def rotateLeft (w : UInt32) (n : UInt32) : UInt32 := (w <<< n) ||| (w >>> (32 - n))

/-- The big-endian word of four bytes. -/
def word (b0 b1 b2 b3 : UInt8) : UInt32 :=
  (b0.toUInt32 <<< 24) ||| (b1.toUInt32 <<< 16) ||| (b2.toUInt32 <<< 8) ||| b3.toUInt32

/-- The big-endian bytes of a number, `n` of them. -/
def bigEndian (n : Nat) (v : Nat) : Bytes :=
  (List.range n).map fun i => UInt8.ofNat (v / Nat.pow 256 (n - 1 - i))

/-- The message, a one bit, zeros, and the message's length in bits: a whole number of blocks. -/
def padded (message : Bytes) : Bytes :=
  let zeros := (119 - message.length % 64) % 64
  message ++ [0x80] ++ List.replicate zeros 0 ++ bigEndian 8 (8 * message.length)

/-- The words of a block. -/
def words : Bytes → List UInt32
  | b0 :: b1 :: b2 :: b3 :: rest => word b0 b1 b2 b3 :: words rest
  | _ => []

/-- The last sixteen words of the schedule, the newest first, and the word after them. -/
def nextWord (recent : List UInt32) : UInt32 :=
  rotateLeft (recent.getD 2 0 ^^^ recent.getD 7 0 ^^^ recent.getD 13 0 ^^^ recent.getD 15 0) 1

/-- Extends a schedule, the newest word first, by `n` words. -/
def extend : Nat → List UInt32 → List UInt32
  | 0, ws => ws
  | n + 1, ws => extend n (nextWord ws :: ws)

/-- The function and the constant of a round. -/
def mix (round : Nat) (b c d : UInt32) : UInt32 × UInt32 :=
  if round < 20 then ((b &&& c) ||| (~~~b &&& d), 0x5A827999)
  else if round < 40 then (b ^^^ c ^^^ d, 0x6ED9EBA1)
  else if round < 60 then ((b &&& c) ||| (b &&& d) ||| (c &&& d), 0x8F1BBCDC)
  else (b ^^^ c ^^^ d, 0xCA62C1D6)

def round (s : Chain) (t : UInt32 × Nat) : Chain :=
  let (f, k) := mix t.2 s.b s.c s.d
  ⟨rotateLeft s.a 5 + f + s.e + k + t.1, s.a, rotateLeft s.b 30, s.c, s.d⟩

/-- One block of the message. -/
def absorb (s : Chain) (block : Bytes) : Chain :=
  let schedule := (extend 64 (words block).reverse).reverse
  let t := schedule.zipIdx.foldl round s
  ⟨s.a + t.a, s.b + t.b, s.c + t.c, s.d + t.d, s.e + t.e⟩

/-- The blocks of a padded message. -/
def blocks (bs : Bytes) : List Bytes :=
  (List.range (bs.length / 64)).map fun i => (bs.drop (64 * i)).take 64

/-- The twenty bytes of the digest. -/
def digest (message : Bytes) : Bytes :=
  let s := (blocks (padded message)).foldl absorb initial
  [s.a, s.b, s.c, s.d, s.e].flatMap fun w => bigEndian 4 w.toNat

end Microweb.Sha1

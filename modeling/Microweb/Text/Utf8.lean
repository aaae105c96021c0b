import Microweb.Bytes

/-!
UTF-8. `pieces` cuts any byte string into characters and the stretches that belong to none;
strict reading fails at the first such stretch and says where it is, lossy reading puts one
replacement character for each.
-/

namespace Microweb.Utf8

/-- The bytes of a text. -/
def encode (s : String) : Bytes := s.toList.flatMap String.utf8EncodeChar

/-! ### Cutting bytes into characters -/

/-- A stretch of a byte string. -/
inductive Piece where
  /-- The bytes of one character. -/
  | char (c : Char)
  /-- `n` bytes that start no character; reading starts afresh at the byte after them. -/
  | broken (n : Nat)
  /-- `n` bytes that start a character the string ends in the middle of. -/
  | cut (n : Nat)
deriving DecidableEq, Repr

namespace Piece

/-- How many bytes the piece covers. -/
def size : Piece → Nat
  | char c => c.utf8Size
  | broken n => n
  | cut n => n

/-- The character of the piece, or the replacement character. -/
def toChar : Piece → Char
  | char c => c
  | broken _ => '\uFFFD'
  | cut _ => '\uFFFD'

end Piece

/-- A character under way: the bytes it still owes, the bounds of the next of them, the value of
its bits so far and the bytes seen. -/
structure Pending where
  owed : Nat
  low : UInt8
  high : UInt8
  code : Nat
  seen : Nat
deriving DecidableEq, Repr

/-- What the first byte of a longer character promises. The bounds of the second byte leave out
overlong forms, surrogates and what lies beyond the last code point. -/
def lead? (b : UInt8) : Option Pending :=
  if 0xC2 ≤ b ∧ b ≤ 0xDF then some ⟨1, 0x80, 0xBF, b.toNat % 32, 1⟩
  else if 0xE0 ≤ b ∧ b ≤ 0xEF then
    some ⟨2, if b = 0xE0 then 0xA0 else 0x80, if b = 0xED then 0x9F else 0xBF, b.toNat % 16, 1⟩
  else if 0xF0 ≤ b ∧ b ≤ 0xF4 then
    some ⟨3, if b = 0xF0 then 0x90 else 0x80, if b = 0xF4 then 0x8F else 0xBF, b.toNat % 8, 1⟩
  else none

/-- The pieces found so far, the last first, and the character under way. -/
abbrev Progress := List Piece × Option Pending

/-- A byte read where a character may start. -/
def begin (found : List Piece) (b : UInt8) : Progress :=
  if b < 0x80 then (.char (Char.ofNat b.toNat) :: found, none)
  else match lead? b with
    | some p => (found, some p)
    | none => (.broken 1 :: found, none)

/-- One byte. A byte that the character under way does not allow ends it and is read again. -/
def step : Progress → UInt8 → Progress
  | (found, none), b => begin found b
  | (found, some p), b =>
    if p.low ≤ b ∧ b ≤ p.high then
      let code := p.code * 64 + b.toNat % 64
      if p.owed = 1 then (.char (Char.ofNat code) :: found, none)
      else (found, some ⟨p.owed - 1, 0x80, 0xBF, code, p.seen + 1⟩)
    else begin (.broken p.seen :: found) b

/-- The pieces once the bytes have run out. -/
def finish : Progress → List Piece
  | (found, none) => found.reverse
  | (found, some p) => (.cut p.seen :: found).reverse

/-- The characters and the broken stretches of a byte string, in order. -/
def pieces (bs : Bytes) : List Piece := finish (bs.foldl step ([], none))

/-! ### Strict and lossy reading -/

/-- Where a byte string stops being UTF-8. -/
structure Fault where
  /-- The bytes before it are whole characters. -/
  index : Nat
  /-- The length of the broken stretch; none if the string ends inside a character. -/
  length : Option Nat
deriving DecidableEq, Repr

def Fault.message : Fault → String
  | ⟨i, some n⟩ => s!"invalid utf-8 sequence of {n} bytes from index {i}"
  | ⟨i, none⟩ => s!"incomplete utf-8 byte sequence from index {i}"

/-- The first piece that is no character, with its index. -/
def firstFault? : Nat → List Piece → Option Fault
  | _, [] => none
  | i, .char c :: ps => firstFault? (i + c.utf8Size) ps
  | i, .broken n :: _ => some ⟨i, some n⟩
  | i, .cut _ :: _ => some ⟨i, none⟩

/-- The text of a list of pieces. -/
def textOf (ps : List Piece) : String := String.ofList (ps.map Piece.toChar)

/-- The text that the bytes encode. -/
def decode (bs : Bytes) : Except Fault String :=
  let ps := pieces bs
  match firstFault? 0 ps with
  | some f => .error f
  | none => .ok (textOf ps)

/-- The text of any bytes, with a replacement character for each broken stretch. -/
def decodeLossy (bs : Bytes) : String := textOf (pieces bs)

end Microweb.Utf8

import Microweb.Bytes

/-!
Base64 with the standard alphabet and padding. Reading takes only the canonical text of a byte
string: full groups of four, padding where it is due, and no stray bits before it.
-/

namespace Microweb.Base64

/-- The byte that stands for a six-bit value. -/
def symbol (v : Nat) : UInt8 :=
  if v < 26 then UInt8.ofNat (0x41 + v)
  else if v < 52 then UInt8.ofNat (0x61 + (v - 26))
  else if v < 62 then UInt8.ofNat (0x30 + (v - 52))
  else if v = 62 then 0x2B
  else 0x2F

/-- The byte that fills up the last group. -/
abbrev pad : UInt8 := 0x3D

/-- The six-bit value of a symbol. -/
def value? (b : UInt8) : Option Nat :=
  let n := b.toNat
  if 0x41 ≤ n ∧ n ≤ 0x5A then some (n - 0x41)
  else if 0x61 ≤ n ∧ n ≤ 0x7A then some (n - 0x61 + 26)
  else if 0x30 ≤ n ∧ n ≤ 0x39 then some (n - 0x30 + 52)
  else if n = 0x2B then some 62
  else if n = 0x2F then some 63
  else none

/-- Three bytes become four symbols; one or two bytes at the end are filled up with padding. -/
def encode : Bytes → Bytes
  | [] => []
  | [a] =>
    [symbol (a.toNat / 4), symbol (a.toNat % 4 * 16), pad, pad]
  | [a, b] =>
    [symbol (a.toNat / 4), symbol (a.toNat % 4 * 16 + b.toNat / 16),
      symbol (b.toNat % 16 * 4), pad]
  | a :: b :: c :: rest =>
    symbol (a.toNat / 4) :: symbol (a.toNat % 4 * 16 + b.toNat / 16) ::
      symbol (b.toNat % 16 * 4 + c.toNat / 64) :: symbol (c.toNat % 64) :: encode rest

/-- The byte string with the given canonical text. -/
def decode? : Bytes → Option Bytes
  | [] => some []
  | a :: b :: c :: d :: rest => do
    let v ← value? a
    let w ← value? b
    let first := UInt8.ofNat (v * 4 + w / 16)
    if rest = [] ∧ c = pad ∧ d = pad then
      if w % 16 = 0 then some [first] else none
    else
      let x ← value? c
      let second := UInt8.ofNat (w % 16 * 16 + x / 4)
      if rest = [] ∧ d = pad then
        if x % 4 = 0 then some [first, second] else none
      else
        let y ← value? d
        let third := UInt8.ofNat (x % 4 * 64 + y)
        return first :: second :: third :: (← decode? rest)
  | _ => none

/-- The text of the symbols. -/
def text (bs : Bytes) : String := String.ofList ((encode bs).map fun b => Char.ofNat b.toNat)

end Microweb.Base64

/-!
Byte strings, the ASCII bytes that heads are read by, and byte ranges of a buffer.
-/

namespace Microweb

/-- What travels on a connection, sits in a file or fills a buffer. -/
abbrev Bytes := List UInt8

/-! ### Bytes with a meaning -/

namespace Byte

/-- Horizontal tab. -/
abbrev tab : UInt8 := 0x09
/-- Line feed. -/
abbrev lf : UInt8 := 0x0A
/-- Carriage return. -/
abbrev cr : UInt8 := 0x0D
abbrev space : UInt8 := 0x20
abbrev percent : UInt8 := 0x25
abbrev ampersand : UInt8 := 0x26
abbrev slash : UInt8 := 0x2F
abbrev colon : UInt8 := 0x3A
abbrev equals : UInt8 := 0x3D
abbrev question : UInt8 := 0x3F

/-- Space and tab, which part the words of a line and pad the value of a header. -/
def isBlank (b : UInt8) : Bool := b == space || b == tab

/-- The lower-case form of an ASCII letter; any other byte is itself. -/
def lower (b : UInt8) : UInt8 := if 0x41 ≤ b ∧ b ≤ 0x5A then b + 0x20 else b

/-- The value of a hexadecimal digit, of either case. -/
def hexDigit? (b : UInt8) : Option UInt8 :=
  if 0x30 ≤ b ∧ b ≤ 0x39 then some (b - 0x30)
  else if 0x61 ≤ b ∧ b ≤ 0x66 then some (b - 0x61 + 10)
  else if 0x41 ≤ b ∧ b ≤ 0x46 then some (b - 0x41 + 10)
  else none

end Byte

namespace Bytes

/-- Equality that does not tell the cases of ASCII letters apart. -/
def sameIgnoringCase (a b : Bytes) : Bool := a.map Byte.lower == b.map Byte.lower

end Bytes

/-! ### Ranges -/

/-- The bytes of a buffer from index `start` up to index `stop`. -/
structure Span where
  start : Nat
  stop : Nat
deriving DecidableEq, Repr

namespace Span

def length (s : Span) : Nat := s.stop - s.start

/-- The bytes of the range. -/
def slice (s : Span) (buf : Bytes) : Bytes := (buf.drop s.start).take s.length

theorem length_slice {s : Span} {buf : Bytes} (h : s.stop ≤ buf.length) :
    (s.slice buf).length = s.length := by
  simp only [slice, List.length_take, List.length_drop, length]
  omega

end Span

end Microweb

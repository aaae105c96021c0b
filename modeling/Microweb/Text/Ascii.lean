import Microweb.Text.Utf8

/-!
Texts of ASCII bytes alone.
-/

namespace Microweb

/-- A byte string without a byte above `0x7F`. -/
structure AsciiText where
  bytes : Bytes
  ascii : bytes.all (· < 0x80) = true
deriving DecidableEq

/-- Why bytes are refused as ASCII. -/
inductive AsciiError where
  /-- Some byte is above `0x7F`. -/
  | highByte
deriving DecidableEq, Repr

def AsciiError.message : AsciiError → String
  | .highByte => "invalid ascii"

namespace AsciiText

def ofBytes? (bs : Bytes) : Option AsciiText :=
  if h : bs.all (· < 0x80) = true then some ⟨bs, h⟩ else none

/-- The text, a character for each byte. -/
def text (a : AsciiText) : String := String.ofList (a.bytes.map fun b => Char.ofNat b.toNat)

/-- The text between double quotes, with nothing escaped. -/
def quoted (a : AsciiText) : String := "\"" ++ a.text ++ "\""

def length (a : AsciiText) : Nat := a.bytes.length

def isEmpty (a : AsciiText) : Bool := a.bytes.isEmpty

theorem bytes_of_ofBytes? {bs : Bytes} {a : AsciiText} (h : ofBytes? bs = some a) :
    a.bytes = bs := by
  unfold ofBytes? at h
  split at h
  · cases h; rfl
  · cases h

theorem ofBytes?_eq_none_iff {bs : Bytes} : ofBytes? bs = none ↔ ∃ b ∈ bs, 0x80 ≤ b := by
  simp [ofBytes?, UInt8.not_lt]

end AsciiText

end Microweb

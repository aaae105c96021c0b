import Microweb.Number.Decimal

/-!
The protocol version that ends a request line.
-/

namespace Microweb

structure Version where
  major : UInt8
  minor : UInt8
deriving DecidableEq, Repr

/-- Why a text is no version. -/
inductive VersionError where
  | malformed
deriving DecidableEq, Repr

def VersionError.message : VersionError → String
  | .malformed => "invalid HTTP version"

namespace Version

/-- The version of a request line that names none. -/
def oneZero : Version := ⟨1, 0⟩

/-- The version of every response. -/
def oneOne : Version := ⟨1, 1⟩

/-- The part of a version: a number that fits a byte. -/
def part? (cs : List Char) : Option UInt8 := (Decimal.readUpTo? 255 cs).map UInt8.ofNat

/-- Two numbers after the name of the protocol, with a point between them. -/
def read (cs : List Char) : Except VersionError Version :=
  match cs with
  | 'H' :: 'T' :: 'T' :: 'P' :: '/' :: r =>
    match r.dropWhile (· != '.') with
    | _ :: minor =>
      match part? (r.takeWhile (· != '.')), part? minor with
      | some major, some minor => .ok ⟨major, minor⟩
      | _, _ => .error .malformed
    | [] => .error .malformed
  | _ => .error .malformed

def text (v : Version) : String :=
  "HTTP/" ++ Decimal.text v.major.toNat ++ "." ++ Decimal.text v.minor.toNat

end Version

end Microweb

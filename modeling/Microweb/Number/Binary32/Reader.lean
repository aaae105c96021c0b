import Microweb.Number.Binary32
import Microweb.Number.Decimal

/-!
Reading a 32-bit number from a decimal text, correctly rounded. A text is a sign, digits with at
most one point and at least one digit, and an exponent; or it is a sign and the name of infinity
or of no number, in any case.
-/

namespace Microweb

/-- The number `digits * 10 ^ exponent`, up to its sign, as a text gives it. -/
structure Scientific where
  /-- The digits without the point. -/
  digits : List Char
  exponent : Int
deriving DecidableEq, Repr

namespace Scientific

/-- The exponent after the letter: one sign at most, and digits. -/
def readExponent? (cs : List Char) : Option Int :=
  match cs with
  | '-' :: r => (Decimal.ofDigits? 10 r).map fun n => -(n : Int)
  | '+' :: r => (Decimal.ofDigits? 10 r).map Int.ofNat
  | _ => (Decimal.ofDigits? 10 cs).map Int.ofNat

/-- Reads digits, a point, digits and an exponent, the text over. -/
def read? (cs : List Char) : Option Scientific :=
  let whole := cs.takeWhile Decimal.isDigit
  let rest := cs.dropWhile Decimal.isDigit
  let (fraction, rest) := match rest with
    | '.' :: r => (r.takeWhile Decimal.isDigit, r.dropWhile Decimal.isDigit)
    | _ => ([], rest)
  if whole.isEmpty ∧ fraction.isEmpty then none
  else match rest with
    | [] => some ⟨whole ++ fraction, -fraction.length⟩
    | c :: r =>
      if c = 'e' ∨ c = 'E' then
        (readExponent? r).map fun k => ⟨whole ++ fraction, k - fraction.length⟩
      else none

/-- The digits without leading zeros. -/
def significant (s : Scientific) : List Char := s.digits.dropWhile (· == '0')

/-- The numerator and the denominator of the number. -/
def quotient (s : Scientific) : Nat × Nat :=
  let n := (Decimal.valueOf? 10 s.digits).getD 0
  if 0 ≤ s.exponent then (n * Nat.pow 10 s.exponent.toNat, 1)
  else (n, Nat.pow 10 (-s.exponent).toNat)

end Scientific

namespace Binary32

/-- The magnitude nearest to a decimal number. Its order of magnitude alone settles what is far
outside the range, so that no power is formed for it. -/
def roundDecimal (s : Scientific) : Nat :=
  let order : Int := s.significant.length + s.exponent
  if s.significant.isEmpty ∨ order < -50 then 0
  else if 50 < order then infinityBits
  else
    let (num, den) := s.quotient
    roundQuotient num den

/-- The names of what is no finite number, in lower case. -/
def special? (negative : Bool) (cs : List Char) : Option Binary32 :=
  let name := String.ofList (cs.map Char.toLower)
  if name = "inf" ∨ name = "infinity" then some (infinity negative)
  else if name = "nan" then some (nan negative)
  else none

/-- Reads a number from the whole of a text. -/
def read? (cs : List Char) : Option Binary32 :=
  let (negative, body) := match cs with
    | '-' :: r => (true, r)
    | '+' :: r => (false, r)
    | _ => (false, cs)
  match Scientific.read? body with
  | some s => some (ofMagnitude negative (roundDecimal s))
  | none => special? negative body

end Binary32

end Microweb

import Microweb.Number.Binary32
import Microweb.Number.Decimal

/-!
The shortest decimal text of a 32-bit number: of the decimals that read back as the number those
with the fewest digits, and of them the nearest. It is written without an exponent.
-/

namespace Microweb.Binary32

/-! ### The decimals that read back -/

/-- The interval of the reals that round to a magnitude, in units of `2 ^ (e - 151)`: its lower
end, the number, the upper end, `e`, and whether the ends belong to it. Below a power of two the
neighbours lie closer. -/
structure Interval where
  low : Nat
  value : Nat
  high : Nat
  scale : Nat
  closed : Bool
deriving DecidableEq, Repr

def interval (magnitude : Nat) : Interval :=
  let (m, e) := scaled magnitude
  let gap := if m = Nat.pow 2 23 ∧ 0 < e then 1 else 2
  ⟨4 * m - gap, 4 * m, 4 * m + 2, e, m % 2 = 0⟩

/-- The decimal `digits * 10 ^ exponent`. -/
structure ShortDecimal where
  digits : Nat
  exponent : Int
deriving DecidableEq, Repr

/-- A unit of the interval and a step of the decimal grid with exponent `k`, over a common
denominator. -/
def units (i : Interval) (k : Int) : Nat × Nat :=
  let two := if 151 ≤ i.scale then (Nat.pow 2 (i.scale - 151), 1) else (1, Nat.pow 2 (151 - i.scale))
  let ten := if 0 ≤ k then (Nat.pow 10 k.toNat, 1) else (1, Nat.pow 10 (-k).toNat)
  (two.1 * ten.2, ten.1 * two.2)

/-- Whether `d` steps of the grid lie in the interval. -/
def Interval.covers (i : Interval) (unit step d : Nat) : Bool :=
  if i.closed then i.low * unit ≤ d * step ∧ d * step ≤ i.high * unit
  else i.low * unit < d * step ∧ d * step < i.high * unit

/-- The grid point in the interval nearest to the number, an exact tie going up. Where the grid
meets the interval at all, one of the number's two neighbours on the grid does. -/
def onGrid? (i : Interval) (k : Int) : Option ShortDecimal :=
  let (unit, step) := units i k
  let v := i.value * unit
  let below := v / step
  let above := below + 1
  match i.covers unit step below, i.covers unit step above with
  | true, true =>
    if v - below * step < above * step - v then some ⟨below, k⟩ else some ⟨above, k⟩
  | true, false => some ⟨below, k⟩
  | false, true => some ⟨above, k⟩
  | false, false => none

/-- The exponents of the grids to try, the coarsest first. The last is fine enough for the least
number. -/
def gridExponents : List Int := (List.range 90).map fun i : Nat => 40 - Int.ofNat i

/-- The shortest decimal that reads back as a finite magnitude other than zero. -/
def shortest (magnitude : Nat) : ShortDecimal :=
  ((gridExponents.findSome? (onGrid? (interval magnitude))).getD ⟨0, 0⟩)

/-! ### Its text -/

/-- A decimal written out in full: zeros after the digits, a point among them, or zeros between
the point and the digits. -/
def ShortDecimal.text (d : ShortDecimal) : List Char :=
  let ds := Decimal.digits d.digits
  if 0 ≤ d.exponent then ds ++ List.replicate d.exponent.toNat '0'
  else
    let places := (-d.exponent).toNat
    if places < ds.length then
      ds.take (ds.length - places) ++ '.' :: ds.drop (ds.length - places)
    else ['0', '.'] ++ List.replicate (places - ds.length) '0' ++ ds

/-- The text of a number. What is no number shows no sign. -/
def text (x : Binary32) : String :=
  if x.isNaN then "NaN"
  else
    let body :=
      if ¬ x.isFinite then ['i', 'n', 'f']
      else if x.magnitude = 0 then ['0']
      else (shortest x.magnitude).text
    String.ofList (if x.isNegative then '-' :: body else body)

end Microweb.Binary32

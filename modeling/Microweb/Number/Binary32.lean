/-!
Binary floating-point numbers of 32 bits: their bits, the numbers `m * 2 ^ q` the finite ones
stand for, and the rounding of a quotient to the nearest of them.
-/

namespace Microweb

/-- A number by its bits: one of sign, eight of exponent, 23 of fraction. -/
structure Binary32 where
  bits : UInt32
deriving DecidableEq, Repr

namespace Binary32

def zero : Binary32 := ⟨0⟩

instance : Inhabited Binary32 := ⟨zero⟩

/-! ### Fields -/

def isNegative (x : Binary32) : Bool := Nat.pow 2 31 ≤ x.bits.toNat

/-- The bits below the sign. -/
def magnitude (x : Binary32) : Nat := x.bits.toNat % Nat.pow 2 31

/-- The magnitude of infinity; greater ones are no numbers. -/
def infinityBits : Nat := 255 * Nat.pow 2 23

def isFinite (x : Binary32) : Bool := x.magnitude < infinityBits

def isNaN (x : Binary32) : Bool := infinityBits < x.magnitude

/-- The number with a sign and a magnitude. -/
def ofMagnitude (negative : Bool) (magnitude : Nat) : Binary32 :=
  ⟨UInt32.ofNat ((if negative then Nat.pow 2 31 else 0) + magnitude)⟩

def infinity (negative : Bool) : Binary32 := ofMagnitude negative infinityBits

def nan (negative : Bool) : Binary32 := ofMagnitude negative (infinityBits + Nat.pow 2 22)

/-- The numbers `m * 2 ^ (e - 149)` that finite magnitudes stand for, as the pair of `m` and `e`. -/
def scaled (magnitude : Nat) : Nat × Nat :=
  let e := magnitude / Nat.pow 2 23
  let f := magnitude % Nat.pow 2 23
  if e = 0 then (f, 0) else (Nat.pow 2 23 + f, e - 1)

/-! ### Rounding -/

/-- The nearest whole number to `num / den`, a half going to the even one. -/
def roundHalfEven (num den : Nat) : Nat :=
  let t := num / den
  let r := num % den
  if 2 * r < den then t
  else if den < 2 * r then t + 1
  else t + t % 2

/-- The magnitude nearest to `num / den`, which is not zero; infinity from half a step above the
greatest finite number. The quotient is first scaled so that the whole part has 24 binary digits,
or fewer at the least exponent. -/
def roundQuotient (num den : Nat) : Nat :=
  let scaledBy (e : Nat) : Nat × Nat :=
    if 149 ≤ e then (num, den * Nat.pow 2 (e - 149)) else (num * Nat.pow 2 (149 - e), den)
  let guess := num.log2 + 149 - den.log2 - 24
  let (n, d) := scaledBy guess
  let e := if n / d < Nat.pow 2 24 then guess else guess + 1
  let (n, d) := scaledBy e
  min (e * Nat.pow 2 23 + roundHalfEven n d) infinityBits

end Binary32

end Microweb

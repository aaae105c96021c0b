import Mathlib.Algebra.Order.Field.Power
import Mathlib.Algebra.Order.Field.Rat
import Mathlib.Tactic.FieldSimp
import Mathlib.Tactic.Linarith
import Mathlib.Tactic.NormNum.Pow
import Mathlib.Tactic.Positivity
import Mathlib.Tactic.Ring
import Microweb.Number.Binary32.Shortest

/-!
Rounding to the nearest number of 32 bits. Every quotient in the interval of a magnitude is rounded
to that magnitude (`Binary32.roundQuotient_eq`), the ends of the interval included where they belong
to it.
-/

namespace Microweb.Binary32

/-! ### Intervals of rationals -/

/-- The rational lies between two others, or is one of them if those count. -/
def Between (closed : Bool) (low high x : ℚ) : Prop :=
  if closed then low ≤ x ∧ x ≤ high else low < x ∧ x < high

theorem Between.le {closed : Bool} {low high x : ℚ} (h : Between closed low high x) :
    low ≤ x ∧ x ≤ high := by
  cases closed with
  | true => exact h
  | false => exact ⟨h.1.le, h.2.le⟩

theorem Between.widen {closed : Bool} {low low' high high' x : ℚ} (h : Between closed low high x)
    (hlow : low' ≤ low) (hhigh : high ≤ high') : Between closed low' high' x := by
  cases closed with
  | true => exact ⟨hlow.trans h.1, h.2.trans hhigh⟩
  | false => exact ⟨hlow.trans_lt h.1, h.2.trans_le hhigh⟩

theorem between_mul_iff {c : ℚ} (hc : 0 < c) {closed : Bool} {low high x : ℚ} :
    Between closed (low * c) (high * c) (x * c) ↔ Between closed low high x := by
  cases closed <;> simp [Between, mul_le_mul_iff_of_pos_right hc, mul_lt_mul_iff_of_pos_right hc]

/-- The decimals and quotients that are read as the number that the interval is for. -/
def Interval.Spans (i : Interval) (r : ℚ) : Prop :=
  Between i.closed (i.low * 2 ^ ((i.scale : ℤ) - 151)) (i.high * 2 ^ ((i.scale : ℤ) - 151)) r

/-! ### Whole numbers -/

/-- **The nearest whole number**, the even one of two: a quotient half a step away from a number at
most is rounded to it, if the number is even or the quotient is nearer than that. -/
theorem roundHalfEven_eq {num den t : Nat} (hden : 0 < den)
    (h : Between (t % 2 = 0) (t - 1 / 2) (t + 1 / 2) (num / den)) : roundHalfEven num den = t := by
  have hpos : (0 : ℚ) < den := by exact_mod_cast hden
  have hlow : 2 * (den * t) ≤ 2 * num + den := by
    have := (le_div_iff₀ hpos).mp h.le.1
    exact_mod_cast (by linarith : (2 * (den * t) : ℚ) ≤ 2 * num + den)
  have hhigh : 2 * num ≤ 2 * (den * t) + den := by
    have := (div_le_iff₀ hpos).mp h.le.2
    exact_mod_cast (by linarith : (2 * num : ℚ) ≤ 2 * (den * t) + den)
  have htie : t % 2 = 0 ∨ (2 * (den * t) < 2 * num + den ∧ 2 * num < 2 * (den * t) + den) := by
    by_cases heven : t % 2 = 0
    · exact .inl heven
    · right
      simp only [heven, decide_false, Between, Bool.false_eq_true, if_false] at h
      have hlow := (lt_div_iff₀ hpos).mp h.1
      have hhigh := (div_lt_iff₀ hpos).mp h.2
      exact ⟨by exact_mod_cast (by linarith : (2 * (den * t) : ℚ) < 2 * num + den),
        by exact_mod_cast (by linarith : (2 * num : ℚ) < 2 * (den * t) + den)⟩
  have hsplit := Nat.div_add_mod num den
  have hrest := Nat.mod_lt num hden
  have hge : num / den ≤ t := by
    by_contra hlt
    have := Nat.mul_le_mul_left den (Nat.succ_le_of_lt (not_le.mp hlt))
    rw [Nat.mul_succ] at this
    omega
  have hle : t ≤ num / den + 1 := by
    by_contra hlt
    have := Nat.mul_le_mul_left den (Nat.succ_le_of_lt (not_le.mp hlt))
    rw [Nat.mul_succ, Nat.mul_succ] at this
    omega
  unfold roundHalfEven
  obtain heq | heq : t = num / den ∨ t = num / den + 1 := by omega
  · rw [heq] at hlow hhigh htie ⊢
    dsimp only
    split_ifs <;> omega
  · rw [heq, Nat.mul_succ] at hlow hhigh htie
    rw [heq]
    dsimp only
    split_ifs <;> omega

/-! ### Quotients -/

/-- The quotient in steps of the numbers with that exponent. -/
def scaledBy (num den e : Nat) : Nat × Nat :=
  if 149 ≤ e then (num, den * Nat.pow 2 (e - 149)) else (num * Nat.pow 2 (149 - e), den)

theorem scaledBy_eq (num : Nat) {den : Nat} (hden : 0 < den) (e : Nat) :
    0 < (scaledBy num den e).2 ∧
    ((scaledBy num den e).1 : ℚ) / (scaledBy num den e).2 = num / den * 2 ^ (149 - (e : ℤ)) := by
  unfold scaledBy
  split_ifs with he
  · obtain ⟨k, rfl⟩ := Nat.exists_eq_add_of_le he
    refine ⟨Nat.mul_pos hden (Nat.two_pow_pos _), ?_⟩
    have hexp : (149 : ℤ) - ((149 + k : Nat) : ℤ) = -(k : ℤ) := by
      push_cast
      ring
    rw [hexp, zpow_neg, zpow_natCast, Nat.add_sub_cancel_left]
    push_cast [Nat.pow_eq]
    field_simp
  · obtain ⟨k, hk⟩ := Nat.exists_eq_add_of_lt (not_le.mp he)
    refine ⟨hden, ?_⟩
    have hexp : (149 : ℤ) - (e : ℤ) = ((149 - e : Nat) : ℤ) := by omega
    rw [hexp, zpow_natCast]
    push_cast [Nat.pow_eq]
    field_simp

/-- A power of two on either side of a number. -/
theorem log2_bounds {n : Nat} (h : 0 < n) :
    (2 : ℚ) ^ (n.log2 : ℤ) ≤ n ∧ (n : ℚ) < 2 ^ ((n.log2 : ℤ) + 1) := by
  have hlow := Nat.log2_self_le h.ne'
  have hhigh : n < 2 ^ (n.log2 + 1) := Nat.lt_log2_self
  constructor
  · rw [zpow_natCast]
    exact_mod_cast hlow
  · have hexp : (n.log2 : ℤ) + 1 = ((n.log2 + 1 : Nat) : ℤ) := by push_cast; rfl
    rw [hexp, zpow_natCast]
    exact_mod_cast hhigh

/-- A quotient lies between powers of two whose exponents differ by two, as the logarithms are those
of whole parts. -/
theorem log2_quotient_bounds {num den : Nat} (hnum : 0 < num) (hden : 0 < den) :
    (2 : ℚ) ^ ((num.log2 : ℤ) - den.log2 - 1) ≤ num / den ∧
      (num / den : ℚ) < 2 ^ ((num.log2 : ℤ) - den.log2 + 1) := by
  have htwo : (2 : ℚ) ≠ 0 := two_ne_zero
  obtain ⟨hnumlow, hnumhigh⟩ := log2_bounds hnum
  obtain ⟨hdenlow, hdenhigh⟩ := log2_bounds hden
  have hpos : (0 : ℚ) < den := by exact_mod_cast hden
  constructor
  · rw [le_div_iff₀ hpos]
    calc (2 : ℚ) ^ ((num.log2 : ℤ) - den.log2 - 1) * den
        ≤ 2 ^ ((num.log2 : ℤ) - den.log2 - 1) * 2 ^ ((den.log2 : ℤ) + 1) := by gcongr
      _ = 2 ^ (num.log2 : ℤ) := by
        rw [← zpow_add₀ htwo]
        congr 1
        ring
      _ ≤ num := hnumlow
  · rw [div_lt_iff₀ hpos]
    calc (num : ℚ) < 2 ^ ((num.log2 : ℤ) + 1) := hnumhigh
      _ = 2 ^ ((num.log2 : ℤ) - den.log2 + 1) * 2 ^ (den.log2 : ℤ) := by
        rw [← zpow_add₀ htwo]
        congr 1
        ring
      _ ≤ 2 ^ ((num.log2 : ℤ) - den.log2 + 1) * den := by gcongr

/-- **The exponent that is chosen** is the one at which the quotient has 24 binary digits before the
point, or the least one, at which it may have fewer. -/
theorem roundQuotient_cases {num den : Nat} (hnum : 0 < num) (hden : 0 < den) :
    ∃ e : Nat, (num / den : ℚ) * 2 ^ (149 - (e : ℤ)) < 2 ^ 24 ∧
      (e = 0 ∨ 2 ^ 23 ≤ (num / den : ℚ) * 2 ^ (149 - (e : ℤ))) ∧
      roundQuotient num den = min (e * 2 ^ 23 +
        roundHalfEven (scaledBy num den e).1 (scaledBy num den e).2) infinityBits := by
  have htwo : (2 : ℚ) ≠ 0 := two_ne_zero
  obtain ⟨hlow, hhigh⟩ := log2_quotient_bounds hnum hden
  -- The guess is off by one step at most.
  let guess := num.log2 + 149 - den.log2 - 24
  have hguess : (num / den : ℚ) * 2 ^ (149 - (guess : ℤ)) < 2 ^ 25 := by
    calc (num / den : ℚ) * 2 ^ (149 - (guess : ℤ))
        < 2 ^ ((num.log2 : ℤ) - den.log2 + 1) * 2 ^ (149 - (guess : ℤ)) := by gcongr
      _ = 2 ^ ((num.log2 : ℤ) - den.log2 + 1 + (149 - (guess : ℤ))) := (zpow_add₀ htwo _ _).symm
      _ ≤ 2 ^ (25 : ℤ) := zpow_le_zpow_right₀ one_le_two (by omega)
      _ = 2 ^ 25 := zpow_natCast 2 25
  have hnext : (num / den : ℚ) * 2 ^ (149 - ((guess + 1 : Nat) : ℤ)) =
      num / den * 2 ^ (149 - (guess : ℤ)) / 2 := by
    have hexp : 149 - ((guess + 1 : Nat) : ℤ) = 149 - (guess : ℤ) - 1 := by push_cast; ring
    rw [hexp, zpow_sub_one₀ htwo]
    ring
  obtain ⟨hdpos, hscaled⟩ := scaledBy_eq num hden guess
  have hdiv : (scaledBy num den guess).1 / (scaledBy num den guess).2 < Nat.pow 2 24 ↔
      (num / den : ℚ) * 2 ^ (149 - (guess : ℤ)) < 2 ^ 24 := by
    rw [Nat.div_lt_iff_lt_mul hdpos, ← hscaled, div_lt_iff₀ (by exact_mod_cast hdpos)]
    norm_cast
  have hround : roundQuotient num den =
      let e := if (scaledBy num den guess).1 / (scaledBy num den guess).2 < Nat.pow 2 24 then guess
        else guess + 1
      min (e * 2 ^ 23 + roundHalfEven (scaledBy num den e).1 (scaledBy num den e).2)
        infinityBits := rfl
  by_cases hfits : (num / den : ℚ) * 2 ^ (149 - (guess : ℤ)) < 2 ^ 24
  · rw [if_pos (hdiv.mpr hfits)] at hround
    refine ⟨guess, hfits, ?_, hround⟩
    rcases Nat.eq_zero_or_pos guess with hzero | hguesspos
    · exact .inl hzero
    · right
      calc (2 : ℚ) ^ 23 = 2 ^ (23 : ℤ) := (zpow_natCast 2 23).symm
        _ = 2 ^ ((num.log2 : ℤ) - den.log2 - 1 + (149 - (guess : ℤ))) := by
          congr 1
          omega
        _ = 2 ^ ((num.log2 : ℤ) - den.log2 - 1) * 2 ^ (149 - (guess : ℤ)) := zpow_add₀ htwo _ _
        _ ≤ num / den * 2 ^ (149 - (guess : ℤ)) := by gcongr
  · rw [if_neg (mt hdiv.mp hfits)] at hround
    refine ⟨guess + 1, ?_, .inr ?_, hround⟩
    · rw [hnext]
      linarith
    · rw [hnext]
      linarith

/-! ### Magnitudes -/

/-- What a magnitude stands for: 24 binary digits and an exponent, or fewer digits at the least
exponent. -/
theorem scaled_spec {mag m e : Nat} (h : scaled mag = (m, e)) :
    mag = e * 2 ^ 23 + m ∧ m < 2 ^ 24 ∧ (e = 0 ∨ 2 ^ 23 ≤ m) := by
  simp only [scaled, Nat.pow_eq] at h
  have hsplit := Nat.div_add_mod mag (2 ^ 23)
  have hrest := Nat.mod_lt mag (Nat.two_pow_pos 23)
  split_ifs at h with hzero
  · obtain ⟨rfl, rfl⟩ := Prod.mk.inj h
    omega
  · obtain ⟨rfl, rfl⟩ := Prod.mk.inj h
    omega

/-- The ends of an interval, in steps of the numbers around: half a step on both sides, or less below
a power of two, where the numbers lie closer. -/
theorem between_of_spans {mag m e : Nat} {r : ℚ} (hmag : 0 < mag) (hscaled : scaled mag = (m, e))
    (hspans : (interval mag).Spans r) :
    Between (m % 2 = 0) (m - if m = 2 ^ 23 ∧ 0 < e then 1 / 4 else 1 / 2) (m + 1 / 2)
      (r * 2 ^ (149 - (e : ℤ))) := by
  obtain ⟨hmagnitude, -, he⟩ := scaled_spec hscaled
  have hpos : 0 < m := by omega
  have hunit : (2 : ℚ) ^ (149 - (e : ℤ)) * 2 ^ ((e : ℤ) - 151) = 1 / 4 := by
    rw [← zpow_add₀ two_ne_zero]
    norm_num
  have hstep : (0 : ℚ) < 2 ^ (149 - (e : ℤ)) := by positivity
  rw [Interval.Spans, ← between_mul_iff hstep] at hspans
  simp only [interval, hscaled, Nat.pow_eq] at hspans
  refine hspans.widen ?_ ?_
  · rw [mul_assoc, mul_comm ((2 : ℚ) ^ ((e : ℤ) - 151)), hunit, Nat.cast_sub (by split <;> omega)]
    split_ifs
    · push_cast
      linarith
    · push_cast
      linarith
  · rw [mul_assoc, mul_comm ((2 : ℚ) ^ ((e : ℤ) - 151)), hunit]
    push_cast
    linarith

/-- No end of an interval is more than half a step away. -/
theorem half_of_spans {mag m e : Nat} {r : ℚ} (hmag : 0 < mag) (hscaled : scaled mag = (m, e))
    (hspans : (interval mag).Spans r) :
    Between (m % 2 = 0) (m - 1 / 2) (m + 1 / 2) (r * 2 ^ (149 - (e : ℤ))) := by
  refine (between_of_spans hmag hscaled hspans).widen ?_ le_rfl
  split_ifs <;> linarith

/-- **The exponent that is chosen for what lies in the interval of a magnitude** is that of the
magnitude, or one less if the magnitude is a power of two. -/
theorem exponent_cases {m e e' : Nat} {r : ℚ} (hm : m < 2 ^ 24) (he : e = 0 ∨ 2 ^ 23 ≤ m)
    (hlow : (m : ℚ) - (if m = 2 ^ 23 ∧ 0 < e then 1 / 4 else 1 / 2) ≤ r * 2 ^ (149 - (e : ℤ)))
    (hhigh : r * 2 ^ (149 - (e : ℤ)) ≤ m + 1 / 2) (hlt : r * 2 ^ (149 - (e' : ℤ)) < 2 ^ 24)
    (hge : e' = 0 ∨ 2 ^ 23 ≤ r * 2 ^ (149 - (e' : ℤ))) : e = e' ∨ (e = e' + 1 ∧ m = 2 ^ 23) := by
  have hmq : (m : ℚ) + 1 ≤ 2 ^ 24 := by exact_mod_cast hm
  have hshift : r * 2 ^ (149 - (e' : ℤ)) = r * 2 ^ (149 - (e : ℤ)) * 2 ^ ((e : ℤ) - e') := by
    rw [mul_assoc, ← zpow_add₀ two_ne_zero]
    congr 2
    ring
  rw [hshift] at hlt hge
  generalize r * 2 ^ (149 - (e : ℤ)) = x at hlow hhigh hlt hge
  rcases lt_trichotomy e' e with hless | rfl | hmore
  · right
    have hm23 : 2 ^ 23 ≤ m := by omega
    have hmq23 : (2 : ℚ) ^ 23 ≤ m := by exact_mod_cast hm23
    have hnear : (m : ℚ) - 1 / 2 ≤ x := by
      split_ifs at hlow <;> linarith
    obtain ⟨k, rfl⟩ := Nat.exists_eq_add_of_lt hless
    have hpow : (2 : ℚ) ^ (((e' + k + 1 : Nat) : ℤ) - e') = 2 ^ k * 2 := by
      rw [← pow_succ, ← zpow_natCast]
      congr 1
      push_cast
      ring
    rw [hpow] at hlt
    have hx : (0 : ℚ) ≤ x := by linarith
    have hk : (1 : ℚ) ≤ 2 ^ k := one_le_pow₀ one_le_two
    have htwice : x * 2 < 2 ^ 24 := by
      calc x * 2 ≤ x * (2 ^ k * 2) := by gcongr; linarith
        _ < 2 ^ 24 := hlt
    obtain rfl : m = 2 ^ 23 := by
      have hsmall : (m : ℚ) < 2 ^ 23 + 1 := by linarith
      have : m < 2 ^ 23 + 1 := by exact_mod_cast hsmall
      omega
    refine ⟨?_, rfl⟩
    by_contra hne
    have hfour : x * 4 < 2 ^ 24 := by
      have htwo : (2 : ℚ) ≤ 2 ^ k := le_self_pow₀ one_le_two (by omega)
      calc x * 4 ≤ x * (2 ^ k * 2) := by gcongr; linarith
        _ < 2 ^ 24 := hlt
    push_cast at hnear
    linarith
  · exact .inl rfl
  · -- The quotient would be too great for the exponent of the magnitude.
    obtain ⟨k, rfl⟩ := Nat.exists_eq_add_of_lt hmore
    have hpow : (2 : ℚ) ^ ((e : ℤ) - ((e + k + 1 : Nat) : ℤ)) * (2 ^ k * 2) = 1 := by
      rw [← pow_succ, ← zpow_natCast, ← zpow_add₀ two_ne_zero, ← zpow_zero (2 : ℚ)]
      congr 1
      push_cast
      ring
    have hge := hge.resolve_left (by omega)
    have hk : (1 : ℚ) ≤ 2 ^ k := one_le_pow₀ one_le_two
    have hx : (2 : ℚ) ^ 24 ≤ x := by
      calc (2 : ℚ) ^ 24 ≤ 2 ^ 23 * (2 ^ k * 2) := by linarith
        _ ≤ x * 2 ^ ((e : ℤ) - ((e + k + 1 : Nat) : ℤ)) * (2 ^ k * 2) := by gcongr
        _ = x := by rw [mul_assoc, hpow, mul_one]
    linarith

/-- **What lies in the interval of a magnitude is rounded to it.** Where the exponent is one less than
that of the magnitude, what is rounded up has one binary digit more. -/
theorem roundQuotient_eq {mag num den : Nat} (hmag : 0 < mag) (hfin : mag < infinityBits)
    (hnum : 0 < num) (hden : 0 < den) (hspans : (interval mag).Spans (num / den)) :
    roundQuotient num den = mag := by
  obtain ⟨m, e, hscaled⟩ : ∃ m e, scaled mag = (m, e) := ⟨_, _, rfl⟩
  obtain ⟨hmagnitude, hm, he⟩ := scaled_spec hscaled
  have hnear := between_of_spans hmag hscaled hspans
  obtain ⟨e', hlt, hge, hround⟩ := roundQuotient_cases hnum hden
  obtain ⟨hdpos, hquotient⟩ := scaledBy_eq num hden e'
  rw [hround]
  rcases exponent_cases hm he hnear.le.1 hnear.le.2 hlt hge with rfl | ⟨rfl, rfl⟩
  · have hhalf := half_of_spans hmag hscaled hspans
    rw [roundHalfEven_eq hdpos (by rwa [hquotient]), ← hmagnitude]
    omega
  · have hexp : 149 - (e' : ℤ) = 149 - ((e' + 1 : Nat) : ℤ) + 1 := by
      push_cast
      ring
    have htwice : (num / den : ℚ) * 2 ^ (149 - (e' : ℤ)) =
        num / den * 2 ^ (149 - ((e' + 1 : Nat) : ℤ)) * 2 := by
      rw [hexp, zpow_add_one₀ two_ne_zero, mul_assoc]
    have hup : roundHalfEven (scaledBy num den e').1 (scaledBy num den e').2 = 2 ^ 24 := by
      apply roundHalfEven_eq hdpos
      have hquarter := hnear.le.1
      simp only [Nat.zero_lt_succ, and_self, if_true] at hquarter
      rw [htwice] at hlt
      rw [hquotient, htwice]
      generalize (num / den : ℚ) * 2 ^ (149 - ((e' + 1 : Nat) : ℤ)) = x at hquarter hlt ⊢
      push_cast at hquarter ⊢
      exact ⟨by linarith, by linarith⟩
    rw [hup]
    omega

end Microweb.Binary32

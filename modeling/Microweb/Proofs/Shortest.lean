import Microweb.Proofs.Rounding

/-!
The shortest decimal of a number lies in the number's interval (`Binary32.shortest_spans`): the finest
grid has a point in every interval, and no point is taken that is not in it.
-/

namespace Microweb.Binary32

/-- What a decimal stands for. -/
def ShortDecimal.value (d : ShortDecimal) : ℚ := d.digits * 10 ^ d.exponent

/-- A power, as the numerator and the denominator that are written for it. -/
theorem power_eq {b : Nat} (hb : 0 < b) {k : ℤ} {p : Nat × Nat}
    (h : (∃ n : Nat, k = n ∧ p = (b ^ n, 1)) ∨ ∃ n : Nat, k = -n ∧ p = (1, b ^ n)) :
    0 < p.2 ∧ (p.1 : ℚ) = b ^ k * p.2 := by
  have hne : (b : ℚ) ≠ 0 := by exact_mod_cast hb.ne'
  rcases h with ⟨n, rfl, rfl⟩ | ⟨n, rfl, rfl⟩
  · simp
  · exact ⟨Nat.pow_pos hb, by simp [hne]⟩

/-- A unit and a step over their common denominator. -/
theorem units_eq (i : Interval) (k : ℤ) : ∃ c : ℚ, 0 < c ∧
    ((units i k).1 : ℚ) = 2 ^ ((i.scale : ℤ) - 151) * c ∧ ((units i k).2 : ℚ) = 10 ^ k * c := by
  let two := if 151 ≤ i.scale then (Nat.pow 2 (i.scale - 151), 1) else (1, Nat.pow 2 (151 - i.scale))
  let ten := if 0 ≤ k then (Nat.pow 10 k.toNat, 1) else (1, Nat.pow 10 (-k).toNat)
  have hunits : units i k = (two.1 * ten.2, ten.1 * two.2) := rfl
  have htwo : 0 < two.2 ∧ (two.1 : ℚ) = (2 : Nat) ^ ((i.scale : ℤ) - 151) * two.2 := by
    apply power_eq two_pos
    by_cases h : 151 ≤ i.scale
    · exact .inl ⟨i.scale - 151, by omega, if_pos h⟩
    · exact .inr ⟨151 - i.scale, by omega, if_neg h⟩
  have hten : 0 < ten.2 ∧ (ten.1 : ℚ) = (10 : Nat) ^ k * ten.2 := by
    apply power_eq (by decide)
    by_cases h : 0 ≤ k
    · exact .inl ⟨k.toNat, by omega, if_pos h⟩
    · exact .inr ⟨(-k).toNat, by omega, if_neg h⟩
  obtain ⟨htwopos, htwo⟩ := htwo
  obtain ⟨htenpos, hten⟩ := hten
  push_cast at htwo hten
  refine ⟨ten.2 * two.2, by positivity, ?_, ?_⟩
  · rw [hunits, Nat.cast_mul, htwo]
    ring
  · rw [hunits, Nat.cast_mul, hten]
    ring

/-- **A point of a grid is tested** by what it stands for. -/
theorem covers_iff (i : Interval) (k : ℤ) (d : Nat) :
    i.covers (units i k).1 (units i k).2 d = true ↔ i.Spans (d * 10 ^ k) := by
  obtain ⟨c, hc, hunit, hstep⟩ := units_eq i k
  have hspans : i.Spans (d * 10 ^ k) ↔ Between i.closed (i.low * (units i k).1)
      (i.high * (units i k).1) (d * (units i k).2) := by
    rw [Interval.Spans, ← between_mul_iff hc, hunit, hstep]
    simp only [mul_assoc]
  rw [hspans, Interval.covers, Between]
  generalize (units i k).1 = unit
  generalize (units i k).2 = step
  cases i.closed with
  | true =>
    simp only [if_true, decide_eq_true_eq]
    norm_cast
  | false =>
    simp only [Bool.false_eq_true, if_false, decide_eq_true_eq]
    norm_cast

/-- **What is taken of a grid** lies in the interval. -/
theorem spans_of_onGrid? {i : Interval} {k : ℤ} {d : ShortDecimal} (h : onGrid? i k = some d) :
    i.Spans d.value := by
  have hcovers := covers_iff i k
  unfold onGrid? at h
  dsimp only at h
  split at h
  · next hbelow habove =>
    split_ifs at h
    · obtain rfl := Option.some.inj h
      exact (hcovers _).mp hbelow
    · obtain rfl := Option.some.inj h
      exact (hcovers _).mp habove
  · next hbelow _ =>
    obtain rfl := Option.some.inj h
    exact (hcovers _).mp hbelow
  · next _ habove =>
    obtain rfl := Option.some.inj h
    exact (hcovers _).mp habove
  · cases h

/-- A step of the finest grid is less than what an interval has above its number. -/
theorem finest_step (i : Interval) : 0 < (units i (-49)).2 ∧
    (units i (-49)).2 < 2 * (units i (-49)).1 := by
  obtain ⟨c, hc, hunit, hstep⟩ := units_eq i (-49)
  have hscale : (2 : ℚ) ^ (-151 : ℤ) ≤ 2 ^ ((i.scale : ℤ) - 151) :=
    zpow_le_zpow_right₀ one_le_two (by omega)
  have hpos : (0 : ℚ) < (units i (-49)).2 := by
    rw [hstep]
    positivity
  have hlt : ((units i (-49)).2 : ℚ) < 2 * (units i (-49)).1 := by
    rw [hstep, hunit]
    calc (10 : ℚ) ^ (-49 : ℤ) * c < 2 * 2 ^ (-151 : ℤ) * c := by gcongr; norm_num
      _ ≤ 2 * 2 ^ ((i.scale : ℤ) - 151) * c := by gcongr
      _ = 2 * (2 ^ ((i.scale : ℤ) - 151) * c) := by ring
  exact ⟨by exact_mod_cast hpos, by exact_mod_cast hlt⟩

/-- Of the finest grid, the point above the number lies in its interval. -/
theorem onGrid?_finest (mag : Nat) : (onGrid? (interval mag) (-49)).isSome = true := by
  obtain ⟨hpos, hstep⟩ := finest_step (interval mag)
  have habove : (interval mag).covers (units (interval mag) (-49)).1 (units (interval mag) (-49)).2
      ((interval mag).value * (units (interval mag) (-49)).1 /
        (units (interval mag) (-49)).2 + 1) = true := by
    have hlow : (interval mag).low ≤ (interval mag).value := Nat.sub_le _ _
    have hhigh : (interval mag).high = (interval mag).value + 2 := rfl
    generalize (units (interval mag) (-49)).1 = unit at *
    generalize (units (interval mag) (-49)).2 = step at *
    have hsplit := Nat.div_add_mod ((interval mag).value * unit) step
    have hrest := Nat.mod_lt ((interval mag).value * unit) hpos
    have hlowunit := Nat.mul_le_mul_right unit hlow
    rw [Interval.covers, hhigh, Nat.add_mul, Nat.add_mul, Nat.mul_comm _ step]
    split_ifs
    · simp only [decide_eq_true_eq]
      omega
    · simp only [decide_eq_true_eq]
      omega
  unfold onGrid?
  dsimp only
  rw [habove]
  split
  · split_ifs <;> rfl
  · rfl
  · rfl
  · next h => cases h

/-- **The shortest decimal of a number lies in its interval.** -/
theorem shortest_spans (mag : Nat) : (interval mag).Spans (shortest mag).value := by
  have hsome : (gridExponents.findSome? (onGrid? (interval mag))).isSome = true := by
    rw [List.findSome?_isSome_iff]
    exact ⟨-49, by decide, onGrid?_finest mag⟩
  obtain ⟨d, hd⟩ := Option.isSome_iff_exists.mp hsome
  obtain ⟨k, -, hk⟩ := List.exists_of_findSome?_eq_some hd
  rw [shortest, hd]
  exact spans_of_onGrid? hk

end Microweb.Binary32

import Mathlib.Data.List.TakeWhile
import Microweb.Number.Binary32.Reader
import Microweb.Proofs.Decimal
import Microweb.Proofs.Shortest

/-!
Numbers of 32 bits are read back from their texts (`Binary32.read?_text`): a decimal that is written
out in full is read as what it stands for, and what lies in the interval of a number is rounded to
it.
-/

namespace Microweb

/-! ### The value of digits -/

namespace Decimal

theorem ofDigitChars_dropWhile_zero (cs : List Char) :
    Nat.ofDigitChars 10 (cs.dropWhile (· == '0')) 0 = Nat.ofDigitChars 10 cs 0 := by
  induction cs with
  | nil => rfl
  | cons c cs ih =>
    by_cases hc : c = '0'
    · subst hc
      rw [List.dropWhile_cons_of_pos (by decide), ih, Nat.ofDigitChars_cons]
      rfl
    · rw [List.dropWhile_cons_of_neg (by simpa using hc)]

/-- Digits stand for less than a step of the next one. -/
theorem ofDigitChars_lt {cs : List Char} (h : ∀ c ∈ cs, isDigit c = true) :
    Nat.ofDigitChars 10 cs 0 < 10 ^ cs.length := by
  induction cs with
  | nil => decide
  | cons c cs ih =>
    obtain ⟨hc, hcs⟩ := List.forall_mem_cons.mp h
    have hrest := ih hcs
    have hdigit : c.toNat - '0'.toNat ≤ 9 := by
      have := toNat_of_isDigit hc
      have hzero : '0'.toNat = 48 := rfl
      omega
    have hfirst := Nat.mul_le_mul_left (10 ^ cs.length) hdigit
    rw [Nat.ofDigitChars_cons, Nat.ofDigitChars_eq_ofDigitChars_zero, Nat.mul_zero, Nat.zero_add,
      List.length_cons, Nat.pow_succ]
    omega

/-- Digits stand for as much as the first of them at least, if that is not a zero. -/
theorem le_ofDigitChars {c : Char} (cs : List Char) (hc : isDigit c = true) (hzero : c ≠ '0') :
    10 ^ cs.length ≤ Nat.ofDigitChars 10 (c :: cs) 0 := by
  have hdigit : 1 ≤ c.toNat - '0'.toNat := by
    have hcode := toNat_of_isDigit hc
    have hne : c.toNat ≠ '0'.toNat := by
      intro heq
      exact hzero (Char.toNat_inj.mp heq)
    have hval : '0'.toNat = 48 := rfl
    omega
  have hfirst := Nat.mul_le_mul_left (10 ^ cs.length) hdigit
  rw [Nat.ofDigitChars_cons, Nat.ofDigitChars_eq_ofDigitChars_zero, Nat.mul_zero, Nat.zero_add]
  omega

end Decimal

/-! ### Decimals that are read -/

namespace Scientific

/-- What a decimal that was read stands for. -/
def value (s : Scientific) : ℚ := Nat.ofDigitChars 10 s.digits 0 * 10 ^ s.exponent

/-- A text of digits alone. -/
theorem read?_digits {whole : List Char} (hwhole : ∀ c ∈ whole, Decimal.isDigit c = true)
    (hne : whole ≠ []) : read? whole = some ⟨whole, 0⟩ := by
  have htake : whole.takeWhile Decimal.isDigit = whole := List.takeWhile_eq_self_iff.mpr hwhole
  have hdrop : whole.dropWhile Decimal.isDigit = [] := List.dropWhile_eq_nil_iff.mpr hwhole
  simp [read?, htake, hdrop, hne]

/-- A text of digits and a point among them. -/
theorem read?_point {whole fraction : List Char} (hwhole : ∀ c ∈ whole, Decimal.isDigit c = true)
    (hfraction : ∀ c ∈ fraction, Decimal.isDigit c = true) (hne : whole ≠ []) :
    read? (whole ++ '.' :: fraction) = some ⟨whole ++ fraction, -fraction.length⟩ := by
  have htake : (whole ++ '.' :: fraction).takeWhile Decimal.isDigit = whole := by
    rw [List.takeWhile_append_of_pos hwhole, List.takeWhile_cons_of_neg (by decide), List.append_nil]
  have hdrop : (whole ++ '.' :: fraction).dropWhile Decimal.isDigit = '.' :: fraction := by
    rw [List.dropWhile_append_of_pos hwhole, List.dropWhile_cons_of_neg (by decide)]
  have htake' : fraction.takeWhile Decimal.isDigit = fraction :=
    List.takeWhile_eq_self_iff.mpr hfraction
  have hdrop' : fraction.dropWhile Decimal.isDigit = [] := List.dropWhile_eq_nil_iff.mpr hfraction
  simp [read?, htake, hdrop, htake', hdrop', hne]

/-- No number starts with a letter or a sign. -/
theorem read?_of_not_digit {c : Char} (hc : Decimal.isDigit c = false) (hpoint : c ≠ '.')
    (cs : List Char) : read? (c :: cs) = none := by
  have htake : (c :: cs).takeWhile Decimal.isDigit = [] := List.takeWhile_cons_of_neg (by simp [hc])
  have hdrop : (c :: cs).dropWhile Decimal.isDigit = c :: cs :=
    List.dropWhile_cons_of_neg (by simp [hc])
  unfold read?
  rw [htake, hdrop]
  dsimp only
  split
  · next heq => exact absurd (List.cons.inj heq).1 hpoint
  · simp

end Scientific

namespace Binary32

/-- **A decimal that is written out in full is read** as what it stands for. -/
theorem ShortDecimal.read?_text (d : ShortDecimal) : ∃ s, Scientific.read? d.text = some s ∧
    (∀ c ∈ s.digits, Decimal.isDigit c = true) ∧ s.value = d.value := by
  have hdigits : ∀ c ∈ Decimal.digits d.digits, Decimal.isDigit c = true :=
    fun c hc => Decimal.isDigit_of_mem_digits hc
  have hzeros : ∀ n, ∀ c ∈ List.replicate n '0', Decimal.isDigit c = true := by
    intro n c hc
    rw [List.eq_of_mem_replicate hc]
    decide
  have hne := Decimal.digits_ne_nil d.digits
  have hvalue := Decimal.ofDigitChars_digits d.digits
  unfold ShortDecimal.text
  generalize Decimal.digits d.digits = ds at *
  dsimp only
  split_ifs with hexp hplaces
  · -- Zeros after the digits.
    obtain ⟨n, hn⟩ := Int.eq_ofNat_of_zero_le hexp
    have hall : ∀ c ∈ ds ++ List.replicate d.exponent.toNat '0', Decimal.isDigit c = true :=
      List.forall_mem_append.mpr ⟨hdigits, hzeros _⟩
    refine ⟨_, Scientific.read?_digits hall (by simp [hne]), hall, ?_⟩
    rw [Scientific.value, Nat.ofDigitChars_append, hvalue, Nat.ofDigitChars_replicate_zero,
      ShortDecimal.value, hn]
    simp [mul_comm]
  · -- A point among the digits.
    have hfront : ds.take (ds.length - (-d.exponent).toNat) ≠ [] := by
      rw [Ne, List.take_eq_nil_iff, not_or]
      exact ⟨by omega, hne⟩
    refine ⟨_, Scientific.read?_point (fun c hc => hdigits c (List.mem_of_mem_take hc))
      (fun c hc => hdigits c (List.mem_of_mem_drop hc)) hfront, ?_, ?_⟩
    · simpa using hdigits
    · simp only [Scientific.value, List.take_append_drop, hvalue, ShortDecimal.value,
        List.length_drop]
      congr 2
      omega
  · -- Zeros between the point and the digits.
    generalize hzero : (-d.exponent).toNat - ds.length = n
    have hwhole : ∀ c ∈ ['0'], Decimal.isDigit c = true := hzeros 1
    have hfraction : ∀ c ∈ List.replicate n '0' ++ ds, Decimal.isDigit c = true :=
      List.forall_mem_append.mpr ⟨hzeros _, hdigits⟩
    have hread : Scientific.read? (['0'] ++ '.' :: (List.replicate n '0' ++ ds)) =
        some ⟨['0'] ++ (List.replicate n '0' ++ ds), -(List.replicate n '0' ++ ds).length⟩ :=
      Scientific.read?_point hwhole hfraction (by simp)
    refine ⟨_, hread, List.forall_mem_append.mpr ⟨hwhole, hfraction⟩, ?_⟩
    have hsum : Nat.ofDigitChars 10 (['0'] ++ (List.replicate n '0' ++ ds)) 0 = d.digits := by
      rw [Nat.ofDigitChars_append, Nat.ofDigitChars_append, Nat.ofDigitChars_replicate_zero]
      exact hvalue
    rw [Scientific.value, hsum, ShortDecimal.value, List.length_append, List.length_replicate]
    congr 2
    dsimp only
    omega

/-! ### Decimals that are rounded -/

/-- The numerator and the denominator of what was read. -/
theorem quotient_eq {s : Scientific} (hdigits : ∀ c ∈ s.digits, Decimal.isDigit c = true) :
    0 < s.quotient.2 ∧ (s.quotient.1 : ℚ) / s.quotient.2 = s.value := by
  have hnumber : (Decimal.valueOf? 10 s.digits).getD 0 = Nat.ofDigitChars 10 s.digits 0 := by
    rw [Decimal.valueOf?_of_isDigit hdigits, Option.getD_some]
  unfold Scientific.quotient Scientific.value
  rw [hnumber]
  dsimp only
  split_ifs with hexp
  · obtain ⟨n, hn⟩ := Int.eq_ofNat_of_zero_le hexp
    simp [hn]
  · obtain ⟨n, hn⟩ := Int.eq_ofNat_of_zero_le (by omega : 0 ≤ -s.exponent)
    have hneg : s.exponent = -(n : ℤ) := by omega
    simp [hneg, div_eq_mul_inv]

/-- What lies in an interval is neither too small nor too great for a number. -/
theorem range_of_spans {mag : Nat} {r : ℚ} (hmag : 0 < mag) (hfin : mag < infinityBits)
    (hspans : (interval mag).Spans r) : 2 ^ (-150 : ℤ) ≤ r ∧ r ≤ 2 ^ (128 : ℤ) := by
  obtain ⟨m, e, hscaled⟩ : ∃ m e, scaled mag = (m, e) := ⟨_, _, rfl⟩
  obtain ⟨hmagnitude, hm, he⟩ := scaled_spec hscaled
  obtain ⟨hlow, hhigh⟩ := (half_of_spans hmag hscaled hspans).le
  have hmlow : (1 : ℚ) ≤ m := by exact_mod_cast (by omega : 1 ≤ m)
  have hmhigh : (m : ℚ) + 1 ≤ 2 ^ 24 := by exact_mod_cast hm
  have he254 : e ≤ 253 := by
    have hinfinity : infinityBits = 255 * 2 ^ 23 := rfl
    omega
  have hback : r = r * 2 ^ (149 - (e : ℤ)) * 2 ^ ((e : ℤ) - 149) := by
    rw [mul_assoc, ← zpow_add₀ two_ne_zero]
    simp
  rw [hback]
  constructor
  · have hstep : (2 : ℚ) ^ (-149 : ℤ) ≤ 2 ^ ((e : ℤ) - 149) :=
      zpow_le_zpow_right₀ one_le_two (by omega)
    calc (2 : ℚ) ^ (-150 : ℤ) = 1 / 2 * 2 ^ (-149 : ℤ) := by norm_num
      _ ≤ r * 2 ^ (149 - (e : ℤ)) * 2 ^ ((e : ℤ) - 149) :=
        mul_le_mul (by linarith) hstep (by positivity) (by linarith)
  · have hstep : (2 : ℚ) ^ ((e : ℤ) - 149) ≤ 2 ^ (104 : ℤ) :=
      zpow_le_zpow_right₀ one_le_two (by omega)
    calc r * 2 ^ (149 - (e : ℤ)) * 2 ^ ((e : ℤ) - 149)
        ≤ 2 ^ 24 * 2 ^ (104 : ℤ) := mul_le_mul (by linarith) hstep (by positivity) (by positivity)
      _ = 2 ^ (128 : ℤ) := by norm_num

/-- The significant digits of what was read say how great it is. -/
theorem significant_bounds {s : Scientific} (hdigits : ∀ c ∈ s.digits, Decimal.isDigit c = true)
    (hpos : 0 < s.value) : s.significant ≠ [] ∧
      (10 : ℚ) ^ ((s.significant.length : ℤ) + s.exponent - 1) ≤ s.value ∧
      s.value < 10 ^ ((s.significant.length : ℤ) + s.exponent) := by
  have hsignificant : s.value = Nat.ofDigitChars 10 s.significant 0 * 10 ^ s.exponent := by
    rw [Scientific.significant, Decimal.ofDigitChars_dropWhile_zero, Scientific.value]
  have hmem : ∀ d ∈ s.significant, Decimal.isDigit d = true :=
    fun d hd => hdigits d ((List.dropWhile_sublist _).mem hd)
  have hhead : ∀ c ∈ s.significant.head?, c ≠ '0' := by
    intro c hc
    have hfirst := List.head?_dropWhile_not (· == '0') s.digits
    rw [← Scientific.significant, Option.mem_def.mp hc] at hfirst
    simpa using hfirst
  generalize s.significant = cs at hsignificant hmem hhead ⊢
  cases cs with
  | nil =>
    rw [hsignificant] at hpos
    simp at hpos
  | cons c cs =>
    refine ⟨List.cons_ne_nil c cs, ?_, ?_⟩
    · have hle := Decimal.le_ofDigitChars cs (hmem c List.mem_cons_self) (hhead c rfl)
      have hexp : (((c :: cs).length : Nat) : ℤ) + s.exponent - 1 = cs.length + s.exponent := by
        rw [List.length_cons]
        push_cast
        ring
      calc (10 : ℚ) ^ (((c :: cs).length : ℤ) + s.exponent - 1)
          = 10 ^ cs.length * 10 ^ s.exponent := by
            rw [hexp, zpow_add₀ (by norm_num), zpow_natCast]
        _ ≤ Nat.ofDigitChars 10 (c :: cs) 0 * 10 ^ s.exponent := by gcongr; exact_mod_cast hle
        _ = s.value := hsignificant.symm
    · have hlt := Decimal.ofDigitChars_lt hmem
      calc s.value = Nat.ofDigitChars 10 (c :: cs) 0 * 10 ^ s.exponent := hsignificant
        _ < 10 ^ (c :: cs).length * 10 ^ s.exponent := by gcongr; exact_mod_cast hlt
        _ = 10 ^ (((c :: cs).length : ℤ) + s.exponent) := by
          rw [zpow_add₀ (by norm_num), zpow_natCast]

/-- **What lies in the interval of a number is rounded to it**, however it is written. -/
theorem roundDecimal_eq {mag : Nat} {s : Scientific} (hmag : 0 < mag) (hfin : mag < infinityBits)
    (hdigits : ∀ c ∈ s.digits, Decimal.isDigit c = true) (hspans : (interval mag).Spans s.value) :
    roundDecimal s = mag := by
  obtain ⟨hlow, hhigh⟩ := range_of_spans hmag hfin hspans
  obtain ⟨hden, hquotient⟩ := quotient_eq hdigits
  have hpos : 0 < s.value := lt_of_lt_of_le (by positivity) hlow
  have hnum : 0 < s.quotient.1 := by
    rw [← hquotient] at hpos
    by_contra hzero
    simp [Nat.eq_zero_of_not_pos hzero] at hpos
  obtain ⟨hne, habove, hbelow⟩ := significant_bounds hdigits hpos
  have hbig : (s.significant.length : ℤ) + s.exponent ≥ -50 := by
    by_contra hsmall
    have : (10 : ℚ) ^ ((s.significant.length : ℤ) + s.exponent) ≤ 10 ^ (-50 : ℤ) :=
      zpow_le_zpow_right₀ (by norm_num) (by omega)
    have : (10 : ℚ) ^ (-50 : ℤ) < 2 ^ (-150 : ℤ) := by norm_num
    linarith
  have hsmall : (s.significant.length : ℤ) + s.exponent ≤ 50 := by
    by_contra hbig
    have : (10 : ℚ) ^ (50 : ℤ) ≤ 10 ^ ((s.significant.length : ℤ) + s.exponent - 1) :=
      zpow_le_zpow_right₀ (by norm_num) (by omega)
    have : (2 : ℚ) ^ (128 : ℤ) < 10 ^ (50 : ℤ) := by norm_num
    linarith
  have hempty : s.significant.isEmpty = false := by
    simpa using hne
  unfold roundDecimal
  dsimp only
  rw [if_neg (not_or.mpr ⟨by simp [hempty], by omega⟩), if_neg (by omega)]
  exact roundQuotient_eq hmag hfin hnum hden (by rwa [hquotient])

/-! ### Numbers -/

theorem ofMagnitude_magnitude (x : Binary32) : ofMagnitude x.isNegative x.magnitude = x := by
  have hlt : x.bits.toNat < 2 ^ 32 := x.bits.toNat_lt
  have hsign : (if x.isNegative then Nat.pow 2 31 else 0) + x.magnitude = x.bits.toNat := by
    unfold isNegative magnitude
    split_ifs with h
    · simp only [decide_eq_true_eq, Nat.pow_eq] at h ⊢
      omega
    · simp only [decide_eq_true_eq, Nat.pow_eq] at h ⊢
      omega
  rw [ofMagnitude, hsign, UInt32.ofNat_toNat]

/-- What the text of a number shows behind its sign. -/
def body (x : Binary32) : List Char :=
  if ¬ x.isFinite then ['i', 'n', 'f']
  else if x.magnitude = 0 then ['0']
  else (shortest x.magnitude).text

theorem toList_text {x : Binary32} (h : x.isNaN = false) :
    x.text.toList = if x.isNegative then '-' :: x.body else x.body := by
  rw [text, h, if_neg (by decide), String.toList_ofList, body]

/-- The sign of a text is read by itself, if there is just one. -/
theorem read?_signed {cs : List Char} (hminus : ∀ r, cs ≠ '-' :: r) (hplus : ∀ r, cs ≠ '+' :: r)
    (negative : Bool) : read? (if negative then '-' :: cs else cs) =
      match Scientific.read? cs with
      | some s => some (ofMagnitude negative (roundDecimal s))
      | none => special? negative cs := by
  cases negative with
  | true => rfl
  | false =>
    simp only [Bool.false_eq_true, if_false]
    unfold read?
    split
    next _ _ hsign =>
    split at hsign
    · next r => exact absurd rfl (hminus r)
    · next r => exact absurd rfl (hplus r)
    · obtain ⟨rfl, rfl⟩ := Prod.mk.inj hsign
      rfl

/-- **A number is read back from its text**, bit for bit. -/
theorem read?_text {x : Binary32} (h : x.isNaN = false) : read? x.text.toList = some x := by
  rw [toList_text h]
  by_cases hfin : x.isFinite = true
  · have hread : ∃ s, Scientific.read? x.body = some s ∧ roundDecimal s = x.magnitude := by
      have hlt : x.magnitude < infinityBits := by simpa [isFinite] using hfin
      unfold body
      rw [if_neg (by simpa using hfin)]
      split_ifs with hzero
      · exact ⟨⟨['0'], 0⟩, by decide, by rw [hzero]; decide⟩
      · obtain ⟨s, hs, hdigits, hvalue⟩ := (shortest x.magnitude).read?_text
        refine ⟨s, hs, roundDecimal_eq (Nat.pos_of_ne_zero hzero) hlt hdigits ?_⟩
        rw [hvalue]
        exact shortest_spans x.magnitude
    obtain ⟨s, hs, hround⟩ := hread
    have hsign : ∀ c : Char, Decimal.isDigit c = false → c ≠ '.' → ∀ r, x.body ≠ c :: r := by
      intro c hc hpoint r hbody
      rw [hbody, Scientific.read?_of_not_digit hc hpoint] at hs
      cases hs
    rw [read?_signed (hsign '-' (by decide) (by decide)) (hsign '+' (by decide) (by decide)), hs]
    dsimp only
    rw [hround, ofMagnitude_magnitude]
  · have hbody : x.body = ['i', 'n', 'f'] := if_pos hfin
    have hmagnitude : x.magnitude = infinityBits := by
      simp only [isFinite, isNaN, decide_eq_true_eq, decide_eq_false_iff_not] at hfin h
      omega
    rw [hbody, read?_signed (by simp) (by simp),
      Scientific.read?_of_not_digit (by decide) (by decide)]
    dsimp only
    rw [special?, if_pos (by decide), infinity, ← hmagnitude, ofMagnitude_magnitude]

/-- **Texts of numbers are stable**: what is read from one has that text, even if it is no number. -/
theorem text_stable (x : Binary32) : ∃ y, read? x.text.toList = some y ∧ y.text = x.text := by
  by_cases h : x.isNaN = true
  · have htext : x.text = "NaN" := if_pos h
    rw [htext]
    exact ⟨nan false, by decide, by decide⟩
  · exact ⟨x, read?_text (by simpa using h), rfl⟩

end Binary32

end Microweb

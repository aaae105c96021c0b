import Microweb.Number.Decimal

/-!
The decimal digits of a number, and the number that is read off them.
-/

namespace Microweb.Decimal

theorem isDigit_iff {c : Char} : isDigit c = true ↔ c.isDigit = true := by
  simp only [isDigit, Char.isDigit, decide_eq_true_eq, Bool.and_eq_true]
  exact Iff.rfl

theorem isDigit_of_mem_digits {n : Nat} {c : Char} (h : c ∈ digits n) : isDigit c = true :=
  isDigit_iff.mpr (Nat.isDigit_of_mem_toDigits (by decide) (by decide) h)

theorem digits_ne_nil (n : Nat) : digits n ≠ [] := Nat.toDigits_ne_nil

/-- The characters of digits, by their codes. -/
theorem toNat_of_isDigit {c : Char} (h : isDigit c = true) : 48 ≤ c.toNat ∧ c.toNat ≤ 57 := by
  simp only [isDigit, Bool.decide_and, Bool.and_eq_true, decide_eq_true_eq] at h
  exact ⟨UInt32.le_iff_toNat_le.mp h.1, UInt32.le_iff_toNat_le.mp h.2⟩

theorem ne_of_isDigit {c d : Char} (h : isDigit c = true) (hd : isDigit d = false) : c ≠ d := by
  rintro rfl
  rw [h] at hd
  cases hd

/-- Nothing but digits is in the text of a number. -/
theorem not_mem_text {n : Nat} {c : Char} (hc : isDigit c = false) : c ∉ (text n).toList := by
  intro hmem
  rw [text, String.toList_ofList] at hmem
  exact ne_of_isDigit (isDigit_of_mem_digits hmem) hc rfl

theorem digitValue?_of_isDigit {c : Char} (h : isDigit c = true) :
    digitValue? 10 c = some (c.toNat - 48) := by
  have hcode := toNat_of_isDigit h
  have hbounds : '0' ≤ c ∧ c ≤ '9' := by
    simpa [isDigit] using h
  simp only [digitValue?, if_pos hbounds, Option.filter_some]
  rw [if_pos]
  simp only [decide_eq_true_eq]
  omega

/-- **Digits are read**, whatever their number: each makes ten times what is before it, and its own
value more. -/
theorem valueOf?_of_isDigit {cs : List Char} (h : ∀ c ∈ cs, isDigit c = true) :
    valueOf? 10 cs = some (Nat.ofDigitChars 10 cs 0) := by
  have hfold : ∀ n, cs.foldl (fun acc c => do return (← acc) * 10 + (← digitValue? 10 c)) (some n) =
      some (Nat.ofDigitChars 10 cs n) := by
    induction cs with
    | nil => exact fun n => rfl
    | cons c cs ih =>
      intro n
      obtain ⟨hc, hcs⟩ := List.forall_mem_cons.mp h
      rw [List.foldl_cons, digitValue?_of_isDigit hc, Nat.ofDigitChars, List.foldl_cons,
        Nat.mul_comm]
      exact ih hcs _
  exact hfold 0

theorem ofDigitChars_digits (n : Nat) : Nat.ofDigitChars 10 (digits n) 0 = n :=
  Nat.ofDigitChars_toDigits (by decide) (by decide)

theorem valueOf?_digits (n : Nat) : valueOf? 10 (digits n) = some n := by
  rw [valueOf?_of_isDigit fun c hc => isDigit_of_mem_digits hc, ofDigitChars_digits]

/-- **A number is read off its digits**, if it is within the bound. -/
theorem readUpTo?_digits {bound n : Nat} (h : n ≤ bound) : readUpTo? bound (digits n) = some n := by
  have hplus : ∀ r, digits n ≠ '+' :: r := by
    intro r heq
    have hmem : '+' ∈ digits n := by
      rw [heq]
      exact List.mem_cons_self
    exact absurd (isDigit_of_mem_digits hmem) (by decide)
  have hempty : (digits n).isEmpty = false := by
    simpa using digits_ne_nil n
  unfold readUpTo?
  split
  · next r heq => exact absurd heq (hplus r)
  · simp [ofDigits?, hempty, valueOf?_digits, h]

end Microweb.Decimal

import Microweb.Digest.Base64
import Microweb.Proofs.Utf8

/-!
Reading Base64 takes the canonical text of a byte string and nothing else
(`Base64.decode?_eq_some_iff`), so that every byte string has one text. The readings of the three
kinds of groups are those of their values; what the values of a byte are cut into fits together
again.
-/

namespace Microweb.Base64

/-! ### Symbols -/

theorem value?_symbol {v : Nat} (h : v < 64) : value? (symbol v) = some v := by
  revert h
  revert v
  decide +kernel

theorem symbol_ne_pad {v : Nat} (h : v < 64) : symbol v ≠ pad := by
  intro heq
  have hvalue := value?_symbol h
  rw [heq] at hvalue
  cases hvalue

theorem ofNat_eq {n : Nat} {b : UInt8} (h : n = b.toNat) : UInt8.ofNat n = b := by
  rw [h, UInt8.ofNat_toNat]

/-- A byte with a value is the symbol for it. -/
theorem value?_eq_some {b : UInt8} {v : Nat} (h : value? b = some v) : v < 64 ∧ b = symbol v := by
  unfold value? at h
  simp only at h
  unfold symbol
  split_ifs at h with hupper hlower hdigit hplus hslash
  · cases h
    refine ⟨by omega, ?_⟩
    rw [if_pos (by omega), ofNat_eq (b := b) (by omega)]
  · cases h
    refine ⟨by omega, ?_⟩
    rw [if_neg (by omega), if_pos (by omega), ofNat_eq (b := b) (by omega)]
  · cases h
    refine ⟨by omega, ?_⟩
    rw [if_neg (by omega), if_neg (by omega), if_pos (by omega), ofNat_eq (b := b) (by omega)]
  · cases h
    exact ⟨by omega, (ofNat_eq hplus.symm).symm⟩
  · cases h
    exact ⟨by omega, (ofNat_eq hslash.symm).symm⟩

/-! ### Groups -/

section Groups

variable {v w x y : Nat}

/-- The last group of one byte. -/
theorem decode?_one (hv : v < 64) (hw : w < 64) :
    decode? [symbol v, symbol w, pad, pad] =
      if w % 16 = 0 then some [.ofNat (v * 4 + w / 16)] else none := by
  simp only [decode?, value?_symbol hv, value?_symbol hw]
  rfl

/-- The last group of two bytes. -/
theorem decode?_two (hv : v < 64) (hw : w < 64) (hx : x < 64) :
    decode? [symbol v, symbol w, symbol x, pad] =
      if x % 4 = 0 then some [.ofNat (v * 4 + w / 16), .ofNat (w % 16 * 16 + x / 4)]
      else none := by
  simp only [decode?, value?_symbol hv, value?_symbol hw, value?_symbol hx, symbol_ne_pad hx]
  rfl

/-- A full group. -/
theorem decode?_three (hv : v < 64) (hw : w < 64) (hx : x < 64) (hy : y < 64) (rest : Bytes) :
    decode? (symbol v :: symbol w :: symbol x :: symbol y :: rest) =
      (decode? rest).map fun bs => .ofNat (v * 4 + w / 16) :: .ofNat (w % 16 * 16 + x / 4) ::
        .ofNat (x % 4 * 64 + y) :: bs := by
  simp only [decode?, value?_symbol hv, value?_symbol hw, value?_symbol hx, value?_symbol hy,
    symbol_ne_pad hx, symbol_ne_pad hy, and_false, if_false]
  cases decode? rest <;> rfl

/-- **A group that is read** is one of these. -/
theorem decode?_cons_eq_some {a b c d : UInt8} {rest bs : Bytes}
    (h : decode? (a :: b :: c :: d :: rest) = some bs) :
    ∃ v w, v < 64 ∧ w < 64 ∧ a = symbol v ∧ b = symbol w ∧
      ((c = pad ∧ d = pad ∧ rest = []) ∨ ∃ x < 64, c = symbol x ∧
        ((d = pad ∧ rest = []) ∨ ∃ y < 64, d = symbol y)) := by
  rw [decode?] at h
  simp only [Option.bind_eq_bind, Option.bind_eq_some_iff] at h
  obtain ⟨v, hvread, w, hwread, hrest⟩ := h
  obtain ⟨hv, rfl⟩ := value?_eq_some hvread
  obtain ⟨hw, rfl⟩ := value?_eq_some hwread
  refine ⟨v, w, hv, hw, rfl, rfl, ?_⟩
  by_cases hpads : rest = [] ∧ c = pad ∧ d = pad
  · exact .inl ⟨hpads.2.1, hpads.2.2, hpads.1⟩
  · rw [if_neg hpads, Option.bind_eq_some_iff] at hrest
    obtain ⟨x, hxread, hlast⟩ := hrest
    obtain ⟨hx, rfl⟩ := value?_eq_some hxread
    refine .inr ⟨x, hx, rfl, ?_⟩
    by_cases hpad : rest = [] ∧ d = pad
    · exact .inl ⟨hpad.2, hpad.1⟩
    · rw [if_neg hpad, Option.bind_eq_some_iff] at hlast
      obtain ⟨y, hyread, -⟩ := hlast
      obtain ⟨hy, rfl⟩ := value?_eq_some hyread
      exact .inr ⟨y, hy, rfl⟩

end Groups

/-! ### Texts -/

/-- **The text of a byte string** is read as that byte string. -/
theorem decode?_encode (bs : Bytes) : decode? (encode bs) = some bs := by
  induction bs using encode.induct with
  | case1 => rfl
  | case2 a =>
    have ha := a.toNat_lt
    rw [encode, decode?_one (by omega) (by omega), if_pos (by omega), ofNat_eq (b := a) (by omega)]
  | case3 a b =>
    have ha := a.toNat_lt
    have hb := b.toNat_lt
    rw [encode, decode?_two (by omega) (by omega) (by omega), if_pos (by omega),
      ofNat_eq (b := a) (by omega), ofNat_eq (b := b) (by omega)]
  | case4 a b c rest ih =>
    have ha := a.toNat_lt
    have hb := b.toNat_lt
    have hc := c.toNat_lt
    rw [encode, decode?_three (by omega) (by omega) (by omega) (by omega), ih, Option.map_some,
      ofNat_eq (b := a) (by omega), ofNat_eq (b := b) (by omega), ofNat_eq (b := c) (by omega)]

/-- **Only the text of a byte string** is read as one. -/
theorem eq_encode_of_decode? : ∀ {text bs : Bytes}, decode? text = some bs → text = encode bs
  | [], bs, h => by
    cases h
    rfl
  | [_], bs, h => by cases h
  | [_, _], bs, h => by cases h
  | [_, _, _], bs, h => by cases h
  | a :: b :: c :: d :: rest, bs, h => by
    obtain ⟨v, w, hv, hw, rfl, rfl, hcases⟩ := decode?_cons_eq_some h
    obtain ⟨rfl, rfl, rfl⟩ | ⟨x, hx, rfl, ⟨rfl, rfl⟩ | ⟨y, hy, rfl⟩⟩ := hcases
    · rw [decode?_one hv hw] at h
      split_ifs at h with hstray
      cases h
      have hfirst := Utf8.toNat_ofNat (show v * 4 + w / 16 < 256 by omega)
      rw [encode, hfirst, show (v * 4 + w / 16) / 4 = v by omega,
        show (v * 4 + w / 16) % 4 * 16 = w by omega]
    · rw [decode?_two hv hw hx] at h
      split_ifs at h with hstray
      cases h
      have hfirst := Utf8.toNat_ofNat (show v * 4 + w / 16 < 256 by omega)
      have hsecond := Utf8.toNat_ofNat (show w % 16 * 16 + x / 4 < 256 by omega)
      rw [encode, hfirst, hsecond, show (v * 4 + w / 16) / 4 = v by omega,
        show (v * 4 + w / 16) % 4 * 16 + (w % 16 * 16 + x / 4) / 16 = w by omega,
        show (w % 16 * 16 + x / 4) % 16 * 4 = x by omega]
    · rw [decode?_three hv hw hx hy] at h
      obtain ⟨bs', hrest, rfl⟩ := Option.map_eq_some_iff.mp h
      have hfirst := Utf8.toNat_ofNat (show v * 4 + w / 16 < 256 by omega)
      have hsecond := Utf8.toNat_ofNat (show w % 16 * 16 + x / 4 < 256 by omega)
      have hthird := Utf8.toNat_ofNat (show x % 4 * 64 + y < 256 by omega)
      rw [encode, hfirst, hsecond, hthird, ← eq_encode_of_decode? hrest,
        show (v * 4 + w / 16) / 4 = v by omega,
        show (v * 4 + w / 16) % 4 * 16 + (w % 16 * 16 + x / 4) / 16 = w by omega,
        show (w % 16 * 16 + x / 4) % 16 * 4 + (x % 4 * 64 + y) / 64 = x by omega,
        show (x % 4 * 64 + y) % 64 = y by omega]

theorem decode?_eq_some_iff {text bs : Bytes} : decode? text = some bs ↔ text = encode bs :=
  ⟨eq_encode_of_decode?, fun h => h ▸ decode?_encode bs⟩

theorem length_encode (bs : Bytes) : (encode bs).length = (bs.length + 2) / 3 * 4 := by
  induction bs using encode.induct with
  | case1 => rfl
  | case2 a => simp [encode]
  | case3 a b => simp [encode]
  | case4 a b c rest ih =>
    simp only [encode, List.length_cons, ih]
    omega

end Microweb.Base64

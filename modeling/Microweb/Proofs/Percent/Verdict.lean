import Microweb.Proofs.Percent

/-!
What comes of any percent-encoded bytes (`Percent.decode_verdict`). They are read from the left, and
an escape at a time. Either all of them spell bytes, of which each stands for itself, unless it is a
percent sign, or is escaped; or there is a percent sign behind such a spelling which is no escape.
-/

namespace Microweb.Percent

/-! ### Digits -/

/-- **The digits that are read** are the hexadecimal ones. -/
theorem HexDigit.of_read {d v : UInt8} (h : Byte.hexDigit? d = some v) : HexDigit d v.toNat := by
  have hcases : (∃ n < 10, d = .ofNat (n + 0x30)) ∨ (∃ n < 6, d = .ofNat (n + 0x61)) ∨
      ∃ n < 6, d = .ofNat (n + 0x41) := by
    unfold Byte.hexDigit? at h
    simp only [UInt8.le_iff_toNat_le, UInt8.reduceToNat] at h
    split_ifs at h with hdecimal hlower hupper
    · exact .inl (Utf8.exists_eq_ofNat_add hdecimal.1 (by omega))
    · exact .inr (.inl (Utf8.exists_eq_ofNat_add hlower.1 (by omega)))
    · exact .inr (.inr (Utf8.exists_eq_ofNat_add hupper.1 (by omega)))
  rcases hcases with ⟨n, hn, rfl⟩ | ⟨n, hn, rfl⟩ | ⟨n, hn, rfl⟩
  · rw [Nat.add_comm] at h ⊢
    rw [(HexDigit.decimal hn).read] at h
    cases h
    rw [Utf8.toNat_ofNat (by omega)]
    exact .decimal hn
  · rw [Nat.add_comm] at h ⊢
    rw [(HexDigit.lower hn).read] at h
    cases h
    rw [Utf8.toNat_ofNat (by omega)]
    exact .lower hn
  · rw [Nat.add_comm] at h ⊢
    rw [(HexDigit.upper hn).read] at h
    cases h
    rw [Utf8.toNat_ofNat (by omega)]
    exact .upper hn

theorem HexDigit.lt {d : UInt8} {n : Nat} (h : HexDigit d n) : n < 16 := by
  cases h <;> omega

/-- Two digits are those of a byte. -/
theorem HexDigit.of_pair {high low : UInt8} {h l : Nat} (hhigh : HexDigit high h)
    (hlow : HexDigit low l) : ∃ b : UInt8, HexDigit high (b.toNat / 16) ∧
      HexDigit low (b.toNat % 16) := by
  have hh := hhigh.lt
  have hl := hlow.lt
  have hb : (UInt8.ofNat (h * 16 + l)).toNat = h * 16 + l := Utf8.toNat_ofNat (by omega)
  refine ⟨.ofNat (h * 16 + l), ?_, ?_⟩
  · rwa [hb, show (h * 16 + l) / 16 = h by omega]
  · rwa [hb, show (h * 16 + l) % 16 = l by omega]

theorem isSome_hexDigit?_iff {d : UInt8} : (Byte.hexDigit? d).isSome ↔ d ∈ hexDigits := by
  constructor
  · intro h
    obtain ⟨v, hv⟩ := Option.isSome_iff_exists.mp h
    exact (HexDigit.of_read hv).mem
  · revert d
    decide +kernel

/-! ### Spellings and what is none -/

/-- Any byte but a percent sign stands for itself. -/
abbrev Plain (b : UInt8) : Prop := b ≠ Byte.percent

/-- The bytes start with two hexadecimal digits. -/
def DigitsFirst (bs : Bytes) : Prop :=
  ∃ high low tail, bs = high :: low :: tail ∧ high ∈ hexDigits ∧ low ∈ hexDigits

/-- **A malformed encoding**: behind bytes and escapes, which are passed over whole, there is a
percent sign without two hexadecimal digits after it. -/
def Malformed (bs : Bytes) : Prop :=
  ∃ raw front rest, Spells Plain raw front ∧ bs = front ++ Byte.percent :: rest ∧ ¬ DigitsFirst rest

theorem Malformed.literal {b : UInt8} (hb : Plain b) {bs : Bytes} (h : Malformed bs) :
    Malformed (b :: bs) := by
  obtain ⟨raw, front, rest, hfront, rfl, hrest⟩ := h
  exact ⟨b :: raw, b :: front, rest, .literal hb hfront, rfl, hrest⟩

theorem Malformed.escaped {b high low : UInt8} (hhigh : HexDigit high (b.toNat / 16))
    (hlow : HexDigit low (b.toNat % 16)) {bs : Bytes} (h : Malformed bs) :
    Malformed (Byte.percent :: high :: low :: bs) := by
  obtain ⟨raw, front, rest, hfront, rfl, hrest⟩ := h
  exact ⟨b :: raw, Byte.percent :: high :: low :: front, rest, .escaped hhigh hlow hfront, rfl,
    hrest⟩

/-- **Any bytes** spell some, or are malformed. -/
theorem spells_or_malformed (bs : Bytes) :
    (∃ raw, Spells Plain raw bs) ∨ Malformed bs := by
  -- as the reader does, whatever was read before
  induction ([] : Bytes), bs using bytesAfter?.induct with
  | case1 done => exact .inl ⟨[], .nil⟩
  | case2 done high low rest h l hlow hhigh ih =>
    obtain ⟨b, hbhigh, hblow⟩ := (HexDigit.of_read hhigh).of_pair (HexDigit.of_read hlow)
    rcases ih with ⟨raw, hraw⟩ | hbad
    · exact .inl ⟨b :: raw, .escaped hbhigh hblow hraw⟩
    · exact .inr (hbad.escaped hbhigh hblow)
  | case3 done high low rest hno =>
    refine .inr ⟨[], [], _, .nil, rfl, ?_⟩
    rintro ⟨high', low', tail, heq, hhigh, hlow⟩
    obtain ⟨rfl, rfl, rfl⟩ : high = high' ∧ low = low' ∧ rest = tail := by simpa using heq
    obtain ⟨h, hh⟩ := Option.isSome_iff_exists.mp (isSome_hexDigit?_iff.mpr hhigh)
    obtain ⟨l, hl⟩ := Option.isSome_iff_exists.mp (isSome_hexDigit?_iff.mpr hlow)
    exact hno h l hh hl
  | case4 done rest hshort =>
    refine .inr ⟨[], [], rest, .nil, rfl, ?_⟩
    rintro ⟨high, low, tail, heq, -⟩
    exact hshort high low tail heq
  | case5 done b rest hb ih =>
    rcases ih with ⟨raw, hraw⟩ | hbad
    · exact .inl ⟨b :: raw, .literal hb hraw⟩
    · exact .inr (hbad.literal hb)

/-- A percent sign that is none of an escape ends the reading. -/
theorem bytesAfter?_of_not_digitsFirst {rest : Bytes} (h : ¬ DigitsFirst rest) (done : Bytes) :
    bytesAfter? done (Byte.percent :: rest) = none := by
  rw [bytesAfter?.eq_def]
  simp only [if_true]
  split
  · next high low tail =>
    split
    · next hhigh hlow =>
      refine absurd ⟨high, low, tail, rfl, ?_, ?_⟩ h
      · exact isSome_hexDigit?_iff.mp (by rw [hhigh]; rfl)
      · exact isSome_hexDigit?_iff.mp (by rw [hlow]; rfl)
    · rfl
  · rfl

theorem Malformed.bytes?_eq_none {bs : Bytes} (h : Malformed bs) : bytes? bs = none := by
  obtain ⟨raw, front, rest, hfront, rfl, hrest⟩ := h
  rw [bytes?, bytesAfter?_append (fun _ hb => hb) hfront]
  exact bytesAfter?_of_not_digitsFirst hrest _

theorem bytes?_eq_none_iff {bs : Bytes} : bytes? bs = none ↔ Malformed bs := by
  constructor
  · intro h
    rcases spells_or_malformed bs with ⟨raw, hraw⟩ | hbad
    · rw [bytes?_spelling (fun _ hb => hb) hraw] at h
      cases h
    · exact hbad
  · exact Malformed.bytes?_eq_none

theorem bytes?_eq_some_iff {bs raw : Bytes} : bytes? bs = some raw ↔ Spells Plain raw bs := by
  constructor
  · intro h
    rcases spells_or_malformed bs with ⟨raw', hraw⟩ | hbad
    · rw [bytes?_spelling (fun _ hb => hb) hraw] at h
      cases h
      exact hraw
    · rw [hbad.bytes?_eq_none] at h
      cases h
  · exact bytes?_spelling fun _ hb => hb

/-! ### The verdict -/

theorem Spells.length_le {plain : UInt8 → Prop} {raw spelling : Bytes}
    (h : Spells plain raw spelling) : raw.length ≤ spelling.length := by
  induction h with
  | nil => exact Nat.le_refl _
  | literal _ _ ih =>
    simp only [List.length_cons]
    omega
  | escaped _ _ _ ih =>
    simp only [List.length_cons]
    omega

/-- Bytes that may stand for themselves are a spelling of themselves. -/
theorem spells_self {plain : UInt8 → Prop} {bs : Bytes} (h : ∀ b ∈ bs, plain b) :
    Spells plain bs bs := by
  induction bs with
  | nil => exact .nil
  | cons b bs ih =>
    obtain ⟨hb, hbs⟩ := List.forall_mem_cons.mp h
    exact .literal hb (ih hbs)

theorem decode_eq_ok_iff {bs : Bytes} {s : String} :
    decode bs = .ok s ↔ Spells Plain (Utf8.encode s) bs := by
  rw [← bytes?_eq_some_iff]
  unfold decode
  cases bytes? bs with
  | none => simp
  | some raw =>
    rw [Option.some.injEq, ← Utf8.decode_eq_ok_iff]
    dsimp only
    rcases Utf8.decode raw with fault | t <;> simp [Except.mapError]

theorem decode_eq_malformed_iff {bs : Bytes} : decode bs = .error .malformed ↔ Malformed bs := by
  rw [← bytes?_eq_none_iff]
  unfold decode
  cases bytes? bs with
  | none => simp
  | some raw =>
    dsimp only
    rcases Utf8.decode raw with fault | t <;> simp [Except.mapError]

theorem decode_eq_invalidUtf8_iff {bs : Bytes} :
    (∃ fault, decode bs = .error (.invalidUtf8 fault)) ↔
      ∃ raw, Spells Plain raw bs ∧ ∀ s, raw ≠ Utf8.encode s := by
  simp only [← bytes?_eq_some_iff, ne_eq, ← Utf8.decode_eq_ok_iff]
  unfold decode
  cases bytes? bs with
  | none => simp
  | some raw =>
    simp only [Option.some.injEq, exists_eq_left']
    rcases Utf8.decode raw with fault | t <;> simp [Except.mapError]

/-- **What comes of any bytes.** They are refused as malformed if behind bytes and escapes there is a
percent sign that is no escape, whatever text the bytes before it may be; else, if what they spell
is no text, they are refused as no text; else the text that they spell comes of them. So every
spelling of a text comes to the text, nothing gets longer, and a text without percent signs is its
own. -/
theorem decode_verdict (bs : Bytes) :
    (decode bs = .error .malformed ↔ Malformed bs) ∧
      ((∃ fault, decode bs = .error (.invalidUtf8 fault)) ↔
        ∃ raw, Spells Plain raw bs ∧ ∀ s, raw ≠ Utf8.encode s) ∧
      (∀ s, decode bs = .ok s ↔ Spells Plain (Utf8.encode s) bs) ∧
      (∀ s, decode bs = .ok s → (Utf8.encode s).length ≤ bs.length) ∧
      (Byte.percent ∉ bs → ∀ s, bs = Utf8.encode s → decode bs = .ok s) := by
  refine ⟨decode_eq_malformed_iff, decode_eq_invalidUtf8_iff, fun s => decode_eq_ok_iff,
    fun s hs => (decode_eq_ok_iff.mp hs).length_le, ?_⟩
  rintro hfree s rfl
  exact decode_eq_ok_iff.mpr (spells_self fun b hb heq => hfree (heq ▸ hb))

/-- The digits of `%4%31` are not two, though `%31` alone would be an escape; a plus sign is none of
a space; and the escapes of a letter may be of either case. -/
theorem decode_verdict_overlapping :
    decode (Utf8.encode "%4%31") = .error .malformed ∧
      decode (Utf8.encode "é+") = .ok "é+" ∧
      decode (Utf8.encode "%c3%A9+") = .ok "é+" ∧
      (Utf8.encode "é+").length ≤ (Utf8.encode "%c3%A9+").length := by
  have hmalformed : Malformed (Utf8.encode "%4%31") := by
    refine ⟨[], [], [0x34, 0x25, 0x33, 0x31], .nil, by decide +kernel, ?_⟩
    rintro ⟨high, low, tail, heq, -, hlow⟩
    have hpercent : low = Byte.percent := by
      simp only [List.cons.injEq] at heq
      exact heq.2.1.symm
    rw [hpercent] at hlow
    revert hlow
    decide +kernel
  have hread : decode (Utf8.encode "%c3%A9+") = .ok "é+" := by decide +kernel
  exact ⟨(decode_verdict _).1.mpr hmalformed,
    (decode_verdict _).2.2.2.2 (by decide +kernel) "é+" rfl, hread,
    (decode_verdict _).2.2.2.1 "é+" hread⟩

end Microweb.Percent

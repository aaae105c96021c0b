import Mathlib.Data.List.TakeWhile
import Mathlib.Data.Nat.Digits.Defs
import Microweb.Head.RequestLine

/-!
How a version is written: the name of the protocol, and two numbers of one byte with a point
between them. The grammar is on bytes (`WritesByte`, `Version.Writes`), and a version word is read
exactly if it is of the grammar (`RequestLine.readVersion?_eq_some_iff`).
-/

namespace Microweb

/-! ### ASCII bytes as characters -/

section Chars

/-- The characters of ASCII bytes. -/
def asciiChars (bs : Bytes) : List Char := bs.map fun b => Char.ofNat b.toNat

theorem toNat_ofNat_byte (b : UInt8) : (Char.ofNat b.toNat).toNat = b.toNat := by
  have hlt := b.toNat_lt
  have hvalid : b.toNat.isValidChar := Or.inl (by omega)
  rw [Char.ofNat, dif_pos hvalid]
  rfl

theorem ofNat_byte_eq_iff (b b' : UInt8) {c : Char} (hc : Char.ofNat b'.toNat = c) :
    Char.ofNat b.toNat = c ↔ b = b' := by
  refine ⟨fun h => UInt8.toNat_inj.mp ?_, fun h => h ▸ hc⟩
  rw [← toNat_ofNat_byte b, h, ← hc, toNat_ofNat_byte]

theorem asciiChars_inj {bs bs' : Bytes} : asciiChars bs = asciiChars bs' ↔ bs = bs' :=
  ⟨List.map_inj_right (fun _ _ h => (ofNat_byte_eq_iff _ _ rfl).mp h) |>.mp, congrArg _⟩

theorem asciiChars_eq_append_iff {bs : Bytes} {cs ds : List Char} : asciiChars bs = cs ++ ds ↔
    ∃ name tail, bs = name ++ tail ∧ asciiChars name = cs ∧ asciiChars tail = ds :=
  List.map_eq_append_iff

theorem asciiChars_append (bs bs' : Bytes) :
    asciiChars (bs ++ bs') = asciiChars bs ++ asciiChars bs' :=
  List.map_append

theorem AsciiText.toList_text {bs : Bytes} {name : AsciiText} (h : ofBytes? bs = some name) :
    name.text.toList = asciiChars bs := by
  rw [text, String.toList_ofList, bytes_of_ofBytes? h, asciiChars]

theorem ne_point_of_mem {bs : Bytes} (h : (0x2E : UInt8) ∉ bs) :
    ∀ c ∈ asciiChars bs, (c != '.') = true := by
  intro c hc
  obtain ⟨b, hb, rfl⟩ := List.mem_map.mp hc
  refine bne_iff_ne.mpr fun heq => h ?_
  rwa [← (ofNat_byte_eq_iff b 0x2E rfl).mp heq]

end Chars

/-! ### Numbers of one byte -/

/-- A decimal digit. -/
def Byte.IsDecimal (b : UInt8) : Prop := 0x30 ≤ b ∧ b ≤ 0x39

instance (b : UInt8) : Decidable (Byte.IsDecimal b) := inferInstanceAs (Decidable (_ ∧ _))

/-- The number that decimal digits stand for, the highest digit first. -/
def decimalValue (ds : Bytes) : Nat := Nat.ofDigits 10 (ds.reverse.map fun b => b.toNat - 0x30)

/-- **The texts of a number of one byte**: decimal digits, which one plus sign may stand before. -/
inductive WritesByte : Bytes → UInt8 → Prop
  | plain {ds : Bytes} {v : UInt8} (hne : ds ≠ []) (hds : ∀ b ∈ ds, Byte.IsDecimal b)
      (hv : decimalValue ds = v.toNat) : WritesByte ds v
  | signed {ds : Bytes} {v : UInt8} (hne : ds ≠ []) (hds : ∀ b ∈ ds, Byte.IsDecimal b)
      (hv : decimalValue ds = v.toNat) : WritesByte (0x2B :: ds) v

namespace Decimal

theorem digitValue?_ofNat_byte (b : UInt8) : digitValue? 10 (Char.ofNat b.toNat) =
    if Byte.IsDecimal b then some (b.toNat - 0x30) else none := by
  have hle : ∀ c d : Char, c ≤ d ↔ c.toNat ≤ d.toNat := fun _ _ => UInt32.le_iff_toNat_le
  have hchars : 'a'.toNat = 97 ∧ 'f'.toNat = 102 ∧ 'A'.toNat = 65 ∧ 'F'.toNat = 70 ∧
      '0'.toNat = 48 ∧ '9'.toNat = 57 := ⟨rfl, rfl, rfl, rfl, rfl, rfl⟩
  have hbytes : (0x30 : UInt8).toNat = 48 ∧ (0x39 : UInt8).toNat = 57 := ⟨rfl, rfl⟩
  simp only [digitValue?, hle, toNat_ofNat_byte, Byte.IsDecimal, UInt8.le_iff_toNat_le, hchars,
    hbytes]
  split_ifs <;> simp [Option.filter] <;> omega

/-- Digits are read one by one, as by Horner's rule, and nothing is read off anything else. -/
theorem foldl_digits (ds : Bytes) (n m : Nat) :
    (asciiChars ds).foldl (fun acc c => do return (← acc) * 10 + (← digitValue? 10 c)) (some n) =
        some m ↔
      (∀ b ∈ ds, Byte.IsDecimal b) ∧ ds.foldl (fun n b => n * 10 + (b.toNat - 0x30)) n = m := by
  induction ds generalizing n with
  | nil => simp [asciiChars]
  | cons b ds ih =>
    have hnone : ∀ cs : List Char,
        cs.foldl (fun acc c => do return (← acc) * 10 + (← digitValue? 10 c)) none = none := by
      intro cs
      induction cs with
      | nil => rfl
      | cons c cs ih => exact ih
    rw [asciiChars, List.map_cons, List.foldl_cons, digitValue?_ofNat_byte, List.forall_mem_cons,
      List.foldl_cons, and_assoc]
    by_cases hb : Byte.IsDecimal b
    · rw [if_pos hb]
      exact (ih _).trans (and_iff_right hb).symm
    · rw [if_neg hb]
      exact iff_of_false (fun h => nomatch (hnone _).symm.trans h) fun h => hb h.1

theorem decimalValue_eq_foldl (ds : Bytes) :
    decimalValue ds = ds.foldl (fun n b => n * 10 + (b.toNat - 0x30)) 0 := by
  rw [decimalValue, Nat.ofDigits_eq_foldr, List.map_reverse, List.foldr_reverse, List.foldl_map]
  congr 1
  funext n b
  rw [Nat.cast_id, Nat.add_comm, Nat.mul_comm]

/-- A number is read off digits alone, at least one of them. -/
theorem ofDigits?_eq_some_iff {ds : Bytes} {n : Nat} : ofDigits? 10 (asciiChars ds) = some n ↔
    ds ≠ [] ∧ (∀ b ∈ ds, Byte.IsDecimal b) ∧ decimalValue ds = n := by
  have hempty : (asciiChars ds).isEmpty = ds.isEmpty := by cases ds <;> rfl
  rw [ofDigits?, hempty, valueOf?, decimalValue_eq_foldl, ← foldl_digits]
  cases ds with
  | nil => simp
  | cons b ds => simp

theorem le_of_readUpTo? {bound n : Nat} {cs : List Char} (h : readUpTo? bound cs = some n) :
    n ≤ bound := by
  unfold readUpTo? at h
  exact of_decide_eq_true (Option.filter_eq_some_iff.mp h).2

/-- **Which texts are numbers of a byte.** -/
theorem readUpTo?_byte_iff {bs : Bytes} {v : UInt8} :
    readUpTo? 255 (asciiChars bs) = some v.toNat ↔ WritesByte bs v := by
  have hv : v.toNat ≤ 255 := Nat.le_of_lt_succ v.toNat_lt
  have hdigits : ∀ ds, (ofDigits? 10 (asciiChars ds)).filter (· ≤ 255) = some v.toNat ↔
      ds ≠ [] ∧ (∀ b ∈ ds, Byte.IsDecimal b) ∧ decimalValue ds = v.toNat := fun ds => by
    simp only [Option.filter_eq_some_iff, ofDigits?_eq_some_iff, hv, decide_true, and_true]
  by_cases hplus : ∃ ds, bs = 0x2B :: ds
  · obtain ⟨ds, rfl⟩ := hplus
    refine (hdigits ds).trans ⟨fun ⟨hne, hds, hval⟩ => .signed hne hds hval, fun h => ?_⟩
    cases h with
    | plain _ hds _ => exact absurd (hds _ List.mem_cons_self) (by decide)
    | signed hne hds hval => exact ⟨hne, hds, hval⟩
  · have hread : readUpTo? 255 (asciiChars bs) =
        (ofDigits? 10 (asciiChars bs)).filter (· ≤ 255) := by
      unfold readUpTo?
      split
      · next r hr =>
        obtain ⟨b, ds, rfl, hb, -⟩ := List.map_eq_cons_iff.mp hr
        exact absurd ⟨ds, by rw [(ofNat_byte_eq_iff b 0x2B rfl).mp hb]⟩ hplus
      · rfl
    rw [hread, hdigits]
    refine ⟨fun ⟨hne, hds, hval⟩ => .plain hne hds hval, fun h => ?_⟩
    cases h with
    | plain hne hds hval => exact ⟨hne, hds, hval⟩
    | signed _ _ _ => exact absurd ⟨_, rfl⟩ hplus

end Decimal

/-- The bytes of a number: digits, and the plus sign. -/
theorem WritesByte.isDecimal_of_mem {bs : Bytes} {v b : UInt8} (h : WritesByte bs v) (hb : b ∈ bs) :
    b = 0x2B ∨ Byte.IsDecimal b := by
  cases h with
  | plain _ hds _ => exact .inr (hds b hb)
  | signed _ hds _ => exact (List.mem_cons.mp hb).imp id (hds b)

theorem WritesByte.not_mem_point {bs : Bytes} {v : UInt8} (h : WritesByte bs v) :
    (0x2E : UInt8) ∉ bs :=
  fun hb => absurd (h.isDecimal_of_mem hb) (by decide)

theorem WritesByte.ascii {bs : Bytes} {v b : UInt8} (h : WritesByte bs v) (hb : b ∈ bs) :
    b < 0x80 := by
  rcases h.isDecimal_of_mem hb with rfl | hb
  · decide
  · exact UInt8.lt_of_le_of_lt hb.2 (by decide)

theorem WritesByte.not_blank {bs : Bytes} {v b : UInt8} (h : WritesByte bs v) (hb : b ∈ bs) :
    Byte.isBlank b = false := by
  by_contra hblank
  have hb' := h.isDecimal_of_mem hb
  simp only [Byte.isBlank, Bool.not_eq_false, Bool.or_eq_true, beq_iff_eq] at hblank
  rcases hblank with rfl | rfl <;> exact absurd hb' (by decide)

/-! ### Versions -/

namespace Version

/-- The name of the protocol, with the slash behind it. -/
def protocol : Bytes := [0x48, 0x54, 0x54, 0x50, 0x2F]

/-- **The version words**: the name of the protocol and two numbers, a point between them. -/
inductive Writes : Bytes → Version → Prop
  | intro {major minor : Bytes} {v : Version} (hmajor : WritesByte major v.major)
      (hminor : WritesByte minor v.minor) : Writes (protocol ++ (major ++ 0x2E :: minor)) v

theorem part?_eq_some_iff {bs : Bytes} {v : UInt8} :
    part? (asciiChars bs) = some v ↔ WritesByte bs v := by
  rw [← Decimal.readUpTo?_byte_iff, part?, Option.map_eq_some_iff]
  constructor
  · rintro ⟨n, hread, rfl⟩
    have hle := Decimal.le_of_readUpTo? hread
    rw [hread, UInt8.toNat_ofNat_of_lt' (Nat.lt_succ_of_le hle)]
  · intro hread
    exact ⟨_, hread, UInt8.ofNat_toNat⟩

/-- What is read behind the name of the protocol: the parts before and behind the first point. -/
theorem read_protocol (major minor : Bytes) (hmajor : (0x2E : UInt8) ∉ major) {v : Version} :
    read (asciiChars (protocol ++ (major ++ 0x2E :: minor))) = .ok v ↔
      part? (asciiChars major) = some v.major ∧ part? (asciiChars minor) = some v.minor := by
  have hfree := ne_point_of_mem hmajor
  have hchars : asciiChars (protocol ++ (major ++ 0x2E :: minor)) =
      'H' :: 'T' :: 'T' :: 'P' :: '/' :: (asciiChars major ++ '.' :: asciiChars minor) := by
    rw [asciiChars_append, asciiChars_append]
    rfl
  have hdrop : (asciiChars major ++ '.' :: asciiChars minor).dropWhile (· != '.') =
      '.' :: asciiChars minor := List.dropWhile_append_of_pos hfree
  have htake : (asciiChars major ++ '.' :: asciiChars minor).takeWhile (· != '.') =
      asciiChars major := (List.takeWhile_append_of_pos hfree).trans (List.append_nil _)
  obtain ⟨first, second⟩ := v
  rw [hchars]
  simp only [read, hdrop, htake]
  cases part? (asciiChars major) <;> cases part? (asciiChars minor) <;> simp

/-- **Which words are versions.** -/
theorem read_eq_ok_iff {bs : Bytes} {v : Version} :
    read (asciiChars bs) = .ok v ↔ Writes bs v := by
  constructor
  · intro h
    have hread := h
    unfold read at h
    split at h
    · next r hr =>
      obtain ⟨name, tail, rfl, hname, rfl⟩ := asciiChars_eq_append_iff.mp
        (show asciiChars bs = ['H', 'T', 'T', 'P', '/'] ++ r from hr)
      obtain rfl : name = protocol := asciiChars_inj.mp hname
      -- a version without a point is none
      have hpoint : (0x2E : UInt8) ∈ tail := by
        by_contra hpoint
        rw [List.dropWhile_eq_nil_iff.mpr (ne_point_of_mem hpoint)] at h
        cases h
      obtain ⟨major, minor, rfl, hmajor⟩ := List.eq_append_cons_of_mem hpoint
      rw [read_protocol _ _ hmajor, part?_eq_some_iff, part?_eq_some_iff] at hread
      exact ⟨hread.1, hread.2⟩
    · cases h
  · rintro ⟨hmajor, hminor⟩
    rw [read_protocol _ _ hmajor.not_mem_point, part?_eq_some_iff, part?_eq_some_iff]
    exact ⟨hmajor, hminor⟩

/-- The bytes of a version word: those of the name, the point and the numbers. -/
theorem Writes.forall_mem {bs : Bytes} {v : Version} {p : UInt8 → Prop} (h : Writes bs v)
    (hname : ∀ b ∈ protocol, p b) (hpoint : p 0x2E)
    (hnumber : ∀ {ds n}, WritesByte ds n → ∀ b ∈ ds, p b) : ∀ b ∈ bs, p b := by
  cases h with
  | intro hmajor hminor =>
    simp only [List.forall_mem_append, List.forall_mem_cons]
    exact ⟨hname, hnumber hmajor, hpoint, hnumber hminor⟩

theorem Writes.ne_nil {bs : Bytes} {v : Version} (h : Writes bs v) : bs ≠ [] := by
  cases h with
  | intro _ _ => simp [protocol]

theorem Writes.ascii {bs : Bytes} {v : Version} (h : Writes bs v) : ∀ b ∈ bs, b < 0x80 :=
  h.forall_mem (by decide +kernel) (by decide) fun hn _ hb => hn.ascii hb

theorem Writes.not_blank {bs : Bytes} {v : Version} (h : Writes bs v) :
    ∀ b ∈ bs, Byte.isBlank b = false :=
  h.forall_mem (by decide +kernel) (by decide) fun hn _ hb => hn.not_blank hb

end Version

namespace RequestLine

/-- **Which ranges are read as versions**: those of version words. -/
theorem readVersion?_eq_some_iff {buf : Bytes} {word : Span} {v : Version} :
    readVersion? buf word = some v ↔ Version.Writes (word.slice buf) v := by
  unfold readVersion?
  cases hname : AsciiText.ofBytes? (word.slice buf) with
  | none =>
    refine ⟨fun h => (by cases h), fun h => ?_⟩
    obtain ⟨b, hb, hhigh⟩ := AsciiText.ofBytes?_eq_none_iff.mp hname
    exact absurd (h.ascii b hb) (UInt8.not_lt.mpr hhigh)
  | some name =>
    rw [← Version.read_eq_ok_iff, ← AsciiText.toList_text hname]
    cases hread : Version.read name.text.toList <;> simp [hread, Except.toOption]

end RequestLine

end Microweb

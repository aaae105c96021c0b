import Mathlib.Data.List.Basic
import Mathlib.Data.List.Induction
import Microweb.Text.Utf8

/-!
The bytes of a text are read back as the text. The reader is followed through the bytes of one
character (`foldl_step_char`); a text is its characters one after the other. And no other bytes are
read as a text (`decode_eq_ok_iff`): at a progress without a fault, the bytes read so far are those
of the characters found and the first of the one under way (`Reads`).
-/

namespace Microweb.Utf8

/-! ### The bytes of one character -/

theorem toNat_ofNat {n : Nat} (h : n < 256) : (UInt8.ofNat n).toNat = n :=
  UInt8.toNat_ofNat_of_lt' h

/-- A byte that a character may go on with. -/
theorem step_within {found : List Piece} {p : Pending} {n : Nat} (hlow : p.low.toNat ≤ n % 64 + 128)
    (hhigh : n % 64 + 128 ≤ p.high.toNat) : step (found, some p) (UInt8.ofNat (n % 64 + 128)) =
      if p.owed = 1 then (.char (Char.ofNat (p.code * 64 + n % 64)) :: found, none)
      else (found, some ⟨p.owed - 1, 0x80, 0xBF, p.code * 64 + n % 64, p.seen + 1⟩) := by
  have hn : (UInt8.ofNat (n % 64 + 128)).toNat = n % 64 + 128 := toNat_ofNat (by omega)
  have hmod : (n % 64 + 128) % 64 = n % 64 := by omega
  simp only [step, UInt8.le_iff_toNat_le, hn, hmod]
  rw [if_pos ⟨hlow, hhigh⟩]

/-- The last byte of a character. -/
theorem step_last {found : List Piece} (code seen n : Nat) :
    step (found, some ⟨1, 0x80, 0xBF, code, seen⟩) (UInt8.ofNat (n % 64 + 128)) =
      (.char (Char.ofNat (code * 64 + n % 64)) :: found, none) :=
  step_within (show 128 ≤ n % 64 + 128 by omega) (show n % 64 + 128 ≤ 191 by omega)

/-- A byte in the middle of a character. -/
theorem step_middle {found : List Piece} (owed code seen n : Nat) {low high : UInt8}
    (hlow : low.toNat ≤ n % 64 + 128) (hhigh : n % 64 + 128 ≤ high.toNat) :
    step (found, some ⟨owed + 2, low, high, code, seen⟩) (UInt8.ofNat (n % 64 + 128)) =
      (found, some ⟨owed + 1, 0x80, 0xBF, code * 64 + n % 64, seen + 1⟩) :=
  step_within hlow hhigh

/-- The first byte of a character of two. -/
theorem lead?_two {n : Nat} (hlow : 2 ≤ n) (hhigh : n < 32) :
    lead? (UInt8.ofNat (n + 192)) = some ⟨1, 0x80, 0xBF, n, 1⟩ := by
  have hn : (UInt8.ofNat (n + 192)).toNat = n + 192 := toNat_ofNat (by omega)
  have hbounds : (0xC2 : UInt8).toNat = 0xC2 ∧ (0xDF : UInt8).toNat = 0xDF := ⟨rfl, rfl⟩
  simp only [lead?, UInt8.le_iff_toNat_le, hn, hbounds]
  rw [if_pos (by omega), show (n + 192) % 32 = n by omega]

/-- The first byte of a character of three. -/
theorem lead?_three : ∀ n < 16, lead? (UInt8.ofNat (n + 224)) =
    some ⟨2, if n = 0 then 0xA0 else 0x80, if n = 13 then 0x9F else 0xBF, n, 1⟩ := by
  decide

/-- The first byte of a character of four. -/
theorem lead?_four : ∀ n < 5, lead? (UInt8.ofNat (n + 240)) =
    some ⟨3, if n = 0 then 0x90 else 0x80, if n = 4 then 0x8F else 0xBF, n, 1⟩ := by
  decide

/-- A byte that promises more is not one of ASCII. -/
theorem begin_lead {found : List Piece} {n : Nat} {p : Pending} (hlow : 128 ≤ n) (hhigh : n < 256)
    (h : lead? (UInt8.ofNat n) = some p) :
    begin found (UInt8.ofNat n) = (found, some p) := by
  have hascii : ¬ UInt8.ofNat n < 0x80 := by
    rw [UInt8.lt_iff_toNat_lt, toNat_ofNat hhigh]
    exact Nat.not_lt.mpr hlow
  rw [begin, if_neg hascii, h]

/-- **One character is read** off its bytes. -/
theorem foldl_step_char (found : List Piece) (c : Char) :
    (String.utf8EncodeChar c).foldl step (found, none) = (.char c :: found, none) := by
  have hchar : Char.ofNat c.val.toNat = c := Char.ofNat_toNat c
  have hvalid : c.val.toNat < 0xD800 ∨ 0xDFFF < c.val.toNat ∧ c.val.toNat < 0x110000 := c.valid
  unfold String.utf8EncodeChar
  generalize c.val.toNat = v at hchar hvalid
  dsimp only
  split_ifs with h1 h2 h3
  · have hv : (UInt8.ofNat v).toNat = v := toNat_ofNat (by omega)
    have hascii : UInt8.ofNat v < 0x80 := by
      rw [UInt8.lt_iff_toNat_lt, hv]
      exact Nat.lt_succ_of_le h1
    rw [List.foldl_cons, List.foldl_nil, step, begin, if_pos hascii, hv, hchar]
  · have hlead := lead?_two (n := v / 64) (by omega) (by omega)
    rw [List.foldl_cons, List.foldl_cons, List.foldl_nil, show v / 64 % 32 = v / 64 by omega, step,
      begin_lead (by omega) (by omega) hlead, step_last, show v / 64 * 64 + v % 64 = v by omega,
      hchar]
  · have hlead := lead?_three (v / 4096) (by omega)
    have hlow : (if v / 4096 = 0 then (0xA0 : UInt8) else 0x80).toNat ≤ v / 64 % 64 + 128 := by
      split_ifs
      · show 160 ≤ _
        omega
      · exact Nat.le_add_left ..
    have hhigh : v / 64 % 64 + 128 ≤ (if v / 4096 = 13 then (0x9F : UInt8) else 0xBF).toNat := by
      split_ifs
      · show _ ≤ 159
        omega
      · show _ ≤ 191
        omega
    rw [List.foldl_cons, List.foldl_cons, List.foldl_cons, List.foldl_nil,
      show v / 4096 % 16 = v / 4096 by omega, step, begin_lead (by omega) (by omega) hlead,
      step_middle 0 _ _ _ hlow hhigh, step_last,
      show (v / 4096 * 64 + v / 64 % 64) * 64 + v % 64 = v by omega, hchar]
  · have hlead := lead?_four (v / 262144) (by omega)
    have hlow : (if v / 262144 = 0 then (0x90 : UInt8) else 0x80).toNat ≤ v / 4096 % 64 + 128 := by
      split_ifs
      · show 144 ≤ _
        omega
      · exact Nat.le_add_left ..
    have hhigh : v / 4096 % 64 + 128 ≤ (if v / 262144 = 4 then (0x8F : UInt8) else 0xBF).toNat := by
      split_ifs
      · show _ ≤ 143
        omega
      · show _ ≤ 191
        omega
    rw [List.foldl_cons, List.foldl_cons, List.foldl_cons, List.foldl_cons, List.foldl_nil,
      show v / 262144 % 8 = v / 262144 by omega, step, begin_lead (by omega) (by omega) hlead,
      step_middle 1 _ _ _ hlow hhigh,
      step_middle 0 _ _ _ (show 128 ≤ _ by omega) (show _ ≤ 191 by omega), step_last,
      show ((v / 262144 * 64 + v / 4096 % 64) * 64 + v / 64 % 64) * 64 + v % 64 = v by omega, hchar]

/-! ### Texts -/

theorem encode_append (a b : String) : encode (a ++ b) = encode a ++ encode b := by
  simp [encode]

theorem encode_eq_nil_iff {s : String} : encode s = [] ↔ s = "" := by
  rw [encode, List.flatMap_eq_nil_iff]
  constructor
  · intro h
    refine String.toList_eq_nil_iff.mp (List.eq_nil_iff_forall_not_mem.mpr fun c hc => ?_)
    have hlen := congrArg List.length (h c hc)
    rw [String.length_utf8EncodeChar] at hlen
    exact absurd hlen (Nat.ne_of_gt c.utf8Size_pos)
  · rintro rfl
    simp

/-- The byte of an ASCII character is one of no other character. -/
theorem mem_utf8EncodeChar_iff {c d : Char} (hc : c.toNat < 128) :
    UInt8.ofNat c.toNat ∈ String.utf8EncodeChar d ↔ d = c := by
  have hbyte : ∀ n < 256, UInt8.ofNat c.toNat = UInt8.ofNat n ↔ c.toNat = n := by
    intro n hn
    rw [← UInt8.toNat_inj, toNat_ofNat (by omega), toNat_ofNat hn]
  have hvalid : d.val.toNat < 0x110000 := by
    have hd := d.valid
    simp only [UInt32.isValidChar, Nat.isValidChar] at hd
    omega
  have heq : d = c ↔ c.toNat = d.val.toNat := by
    rw [eq_comm, ← Char.toNat_inj]
    rfl
  rw [heq]
  unfold String.utf8EncodeChar
  generalize d.val.toNat = v at hvalid
  dsimp only
  split_ifs with h1 h2 h3
  · rw [List.mem_singleton, hbyte v (by omega)]
  · simp only [List.mem_cons, List.not_mem_nil, or_false]
    rw [hbyte _ (by omega), hbyte _ (by omega)]
    omega
  · simp only [List.mem_cons, List.not_mem_nil, or_false]
    rw [hbyte _ (by omega), hbyte _ (by omega), hbyte _ (by omega)]
    omega
  · simp only [List.mem_cons, List.not_mem_nil, or_false]
    rw [hbyte _ (by omega), hbyte _ (by omega), hbyte _ (by omega), hbyte _ (by omega)]
    omega

/-- **An ASCII character is in a text** if its byte is among those of the text. -/
theorem mem_encode_iff {c : Char} (hc : c.toNat < 128) {s : String} :
    UInt8.ofNat c.toNat ∈ encode s ↔ c ∈ s.toList := by
  simp [encode, mem_utf8EncodeChar_iff hc]

/-- **The characters of a text are read** off its bytes, and nothing else. -/
theorem pieces_encode (s : String) : pieces (encode s) = s.toList.map .char := by
  have hfold : ∀ (cs : List Char) (found : List Piece),
      (cs.flatMap String.utf8EncodeChar).foldl step (found, none) =
        ((cs.map Piece.char).reverse ++ found, none) := by
    intro cs
    induction cs with
    | nil => intro found; rfl
    | cons c cs ih =>
      intro found
      rw [List.flatMap_cons, List.foldl_append, foldl_step_char, ih]
      simp
  rw [pieces, encode, hfold, finish, List.append_nil, List.reverse_reverse]

/-- **The text is read back** off its bytes. -/
theorem decode_encode (s : String) : decode (encode s) = .ok s := by
  have hsound : ∀ (cs : List Char) (i : Nat), firstFault? i (cs.map .char) = none := by
    intro cs
    induction cs with
    | nil => intro i; rfl
    | cons c cs ih => intro i; exact ih _
  have htext : textOf (s.toList.map .char) = s := by
    rw [textOf, List.map_map, show Piece.toChar ∘ Piece.char = id from rfl, List.map_id,
      String.ofList_toList]
  simp only [decode, pieces_encode, hsound, htext]

/-! ### The characters of bytes that are read -/

/-- **The first bytes of a character**, and how it stands with it after them. -/
inductive Opens : Bytes → Pending → Prop
  | two {a : Nat} (hlow : 2 ≤ a) (hhigh : a < 32) :
    Opens [.ofNat (a + 192)] ⟨1, 0x80, 0xBF, a, 1⟩
  | three {a : Nat} (ha : a < 16) : Opens [.ofNat (a + 224)]
      ⟨2, if a = 0 then 0xA0 else 0x80, if a = 13 then 0x9F else 0xBF, a, 1⟩
  -- What lies between would be a surrogate with any byte more.
  | threeMore {v : Nat} (hlow : 32 ≤ v) (hhigh : v < 1024) (hscalar : v < 864 ∨ 896 ≤ v) :
    Opens [.ofNat (v / 64 + 224), .ofNat (v % 64 + 128)] ⟨1, 0x80, 0xBF, v, 2⟩
  | four {a : Nat} (ha : a < 5) : Opens [.ofNat (a + 240)]
      ⟨3, if a = 0 then 0x90 else 0x80, if a = 4 then 0x8F else 0xBF, a, 1⟩
  | fourMore {v : Nat} (hlow : 16 ≤ v) (hhigh : v < 272) :
    Opens [.ofNat (v / 64 + 240), .ofNat (v % 64 + 128)] ⟨2, 0x80, 0xBF, v, 2⟩
  | fourLast {v : Nat} (hlow : 1024 ≤ v) (hhigh : v < 17408) :
    Opens [.ofNat (v / 4096 + 240), .ofNat (v / 64 % 64 + 128), .ofNat (v % 64 + 128)]
      ⟨1, 0x80, 0xBF, v, 3⟩

theorem exists_eq_ofNat_add {b : UInt8} {n m : Nat} (hlow : n ≤ b.toNat) (hhigh : b.toNat < n + m) :
    ∃ a < m, b = UInt8.ofNat (a + n) := by
  refine ⟨b.toNat - n, by omega, ?_⟩
  rw [Nat.sub_add_cancel hlow, UInt8.ofNat_toNat]

/-- What a first byte promises. -/
theorem opens_of_lead? {b : UInt8} {p : Pending} (h : lead? b = some p) : Opens [b] p := by
  have hrange : (194 ≤ b.toNat ∧ b.toNat < 224) ∨ (224 ≤ b.toNat ∧ b.toNat < 240) ∨
      240 ≤ b.toNat ∧ b.toNat < 245 := by
    unfold lead? at h
    simp only [UInt8.le_iff_toNat_le, UInt8.reduceToNat] at h
    split at h
    · omega
    · split at h
      · omega
      · split at h
        · omega
        · cases h
  rcases hrange with ⟨hlow, hhigh⟩ | ⟨hlow, hhigh⟩ | ⟨hlow, hhigh⟩
  · obtain ⟨a, ha, rfl⟩ := exists_eq_ofNat_add (n := 192) (m := 32) (by omega) hhigh
    rw [toNat_ofNat (by omega)] at hlow
    rw [lead?_two (by omega) ha] at h
    cases h
    exact .two (by omega) ha
  · obtain ⟨a, ha, rfl⟩ := exists_eq_ofNat_add (n := 224) (m := 16) hlow hhigh
    rw [lead?_three a ha] at h
    cases h
    exact .three ha
  · obtain ⟨a, ha, rfl⟩ := exists_eq_ofNat_add (n := 240) (m := 5) hlow hhigh
    rw [lead?_four a ha] at h
    cases h
    exact .four ha

/-- The bytes of the character with a code. -/
theorem utf8EncodeChar_ofNat {v : Nat} (h : v < 0xD800 ∨ 0xDFFF < v ∧ v < 0x110000) :
    String.utf8EncodeChar (Char.ofNat v) =
      if v ≤ 0x7F then [UInt8.ofNat v]
      else if v ≤ 0x7FF then [UInt8.ofNat (v / 64 + 192), UInt8.ofNat (v % 64 + 128)]
      else if v ≤ 0xFFFF then
        [UInt8.ofNat (v / 4096 + 224), UInt8.ofNat (v / 64 % 64 + 128), UInt8.ofNat (v % 64 + 128)]
      else [UInt8.ofNat (v / 262144 + 240), UInt8.ofNat (v / 4096 % 64 + 128),
        UInt8.ofNat (v / 64 % 64 + 128), UInt8.ofNat (v % 64 + 128)] := by
  have hvalid : v.isValidChar := by simpa [Nat.isValidChar] using h
  have hcode : (Char.ofNat v).val.toNat = v := by
    rw [Char.ofNat, dif_pos hvalid]
    rfl
  unfold String.utf8EncodeChar
  simp only [hcode]
  split_ifs
  · rfl
  · rw [show v / 64 % 32 = v / 64 by omega]
  · rw [show v / 4096 % 16 = v / 4096 by omega]
  · rw [show v / 262144 % 8 = v / 262144 by omega]

/-- **A byte within the bounds** goes on with the character, or ends it. -/
theorem Opens.next {seen : Bytes} {p : Pending} (h : Opens seen p) {n : Nat} (hn : n < 64)
    (hlow : p.low.toNat ≤ n + 128) (hhigh : n + 128 ≤ p.high.toNat) :
    (p.owed = 1 → String.utf8EncodeChar (Char.ofNat (p.code * 64 + n)) =
        seen ++ [UInt8.ofNat (n + 128)]) ∧
      (p.owed ≠ 1 → Opens (seen ++ [UInt8.ofNat (n + 128)])
        ⟨p.owed - 1, 0x80, 0xBF, p.code * 64 + n, p.seen + 1⟩) := by
  cases h with
  | @two a hlow' hhigh' =>
    refine ⟨fun _ => ?_, fun h => absurd rfl h⟩
    rw [utf8EncodeChar_ofNat (by dsimp only; omega), if_neg (by dsimp only; omega),
      if_pos (by dsimp only; omega)]
    dsimp only
    rw [show (a * 64 + n) / 64 = a by omega, show (a * 64 + n) % 64 = n by omega]
    rfl
  | @three a ha =>
    refine ⟨fun h => absurd h (by dsimp only; omega), fun _ => ?_⟩
    have hbounds : 32 ≤ a * 64 + n ∧ (a * 64 + n < 864 ∨ 896 ≤ a * 64 + n) := by
      dsimp only at hlow hhigh
      split_ifs at hlow hhigh <;> simp only [UInt8.reduceToNat] at hlow hhigh <;> omega
    have hopens := Opens.threeMore hbounds.1 (by omega) hbounds.2
    rwa [show (a * 64 + n) / 64 = a by omega, show (a * 64 + n) % 64 = n by omega] at hopens
  | @threeMore v hlow' hhigh' hscalar =>
    refine ⟨fun _ => ?_, fun h => absurd rfl h⟩
    rw [utf8EncodeChar_ofNat (by dsimp only; omega), if_neg (by dsimp only; omega),
      if_neg (by dsimp only; omega), if_pos (by dsimp only; omega)]
    dsimp only
    rw [show (v * 64 + n) / 4096 = v / 64 by omega, show (v * 64 + n) / 64 = v by omega,
      show (v * 64 + n) % 64 = n by omega]
    rfl
  | @four a ha =>
    refine ⟨fun h => absurd h (by dsimp only; omega), fun _ => ?_⟩
    have hbounds : 16 ≤ a * 64 + n ∧ a * 64 + n < 272 := by
      dsimp only at hlow hhigh
      split_ifs at hlow hhigh <;> simp only [UInt8.reduceToNat] at hlow hhigh <;> omega
    have hopens := Opens.fourMore hbounds.1 hbounds.2
    rwa [show (a * 64 + n) / 64 = a by omega, show (a * 64 + n) % 64 = n by omega] at hopens
  | @fourMore v hlow' hhigh' =>
    refine ⟨fun h => absurd h (by dsimp only; omega), fun _ => ?_⟩
    have hopens := Opens.fourLast (v := v * 64 + n) (by omega) (by omega)
    rwa [show (v * 64 + n) / 4096 = v / 64 by omega, show (v * 64 + n) / 64 = v by omega,
      show (v * 64 + n) % 64 = n by omega] at hopens
  | @fourLast v hlow' hhigh' =>
    refine ⟨fun _ => ?_, fun h => absurd rfl h⟩
    rw [utf8EncodeChar_ofNat (by dsimp only; omega), if_neg (by dsimp only; omega),
      if_neg (by dsimp only; omega), if_neg (by dsimp only; omega)]
    dsimp only
    rw [show (v * 64 + n) / 262144 = v / 4096 by omega, show (v * 64 + n) / 4096 = v / 64 by omega,
      show (v * 64 + n) / 64 = v by omega, show (v * 64 + n) % 64 = n by omega]
    rfl

/-- What was read, at a progress without a fault: whole characters, and the first bytes of the one
under way. -/
def Reads (bs : Bytes) : Progress → Prop
  | (found, none) => ∃ cs : List Char, found = (cs.map .char).reverse ∧
    bs = cs.flatMap String.utf8EncodeChar
  | (found, some p) => ∃ (cs : List Char) (seen : Bytes), found = (cs.map .char).reverse ∧
    Opens seen p ∧ bs = cs.flatMap String.utf8EncodeChar ++ seen

/-- All pieces are characters. -/
def Whole (found : List Piece) : Prop := ∀ piece ∈ found, ∃ c, piece = .char c

theorem Whole.of_suffix {found found' : List Piece} (h : Whole found') (hs : found <:+ found') :
    Whole found := fun piece hmem => h piece (hs.subset hmem)

theorem not_whole_broken {found : List Piece} (n : Nat) : ¬ Whole (.broken n :: found) := by
  intro h
  obtain ⟨c, hc⟩ := h _ List.mem_cons_self
  cases hc

/-- What a first byte can be. -/
theorem begin_cases (found : List Piece) (b : UInt8) :
    (b < 0x80 ∧ begin found b = (.char (Char.ofNat b.toNat) :: found, none)) ∨
      (∃ p, lead? b = some p ∧ begin found b = (found, some p)) ∨
        begin found b = (.broken 1 :: found, none) := by
  unfold begin
  by_cases hascii : b < 0x80
  · exact .inl ⟨hascii, if_pos hascii⟩
  · rw [if_neg hascii]
    cases lead? b with
    | some p => exact .inr (.inl ⟨p, rfl, rfl⟩)
    | none => exact .inr (.inr rfl)

theorem suffix_begin (found : List Piece) (b : UInt8) : found <:+ (begin found b).1 := by
  rcases begin_cases found b with ⟨-, heq⟩ | ⟨p, -, heq⟩ | heq
  · exact heq ▸ List.suffix_cons _ _
  · exact heq ▸ List.suffix_refl _
  · exact heq ▸ List.suffix_cons _ _

/-- A byte where a character may start. -/
theorem reads_begin {bs : Bytes} {found : List Piece} (h : Reads bs (found, none)) {b : UInt8}
    (hwhole : Whole (begin found b).1) : Reads (bs ++ [b]) (begin found b) := by
  obtain ⟨cs, rfl, rfl⟩ := h
  rcases begin_cases (cs.map Piece.char).reverse b with ⟨hascii, heq⟩ | ⟨p, hlead, heq⟩ | heq
  · have hlt : b.toNat < 128 := hascii
    rw [heq]
    refine ⟨cs ++ [Char.ofNat b.toNat], by simp, ?_⟩
    rw [List.flatMap_append, List.flatMap_singleton, utf8EncodeChar_ofNat (by omega),
      if_pos (by omega), UInt8.ofNat_toNat]
  · rw [heq]
    exact ⟨cs, [b], rfl, opens_of_lead? hlead, rfl⟩
  · rw [heq] at hwhole
    exact absurd hwhole (not_whole_broken 1)

/-- The bounds of the next byte of a character lie within those of all such bytes. -/
theorem Opens.bounds {seen : Bytes} {p : Pending} (h : Opens seen p) :
    128 ≤ p.low.toNat ∧ p.high.toNat < 192 := by
  cases h with
  | three => dsimp only; split_ifs <;> decide
  | four => dsimp only; split_ifs <;> decide
  | _ => exact ⟨Nat.le_refl 128, Nat.lt_succ_self 191⟩

/-- What a byte does to a character under way: it is the last of it, one in its middle, or none of
its bytes. -/
theorem step_cases {found : List Piece} {seen : Bytes} {p : Pending} (h : Opens seen p)
    (b : UInt8) :
    (∃ c, String.utf8EncodeChar c = seen ++ [b] ∧
        step (found, some p) b = (.char c :: found, none)) ∨
      (∃ q, Opens (seen ++ [b]) q ∧ step (found, some p) b = (found, some q)) ∨
        step (found, some p) b = begin (.broken p.seen :: found) b := by
  by_cases hwithin : p.low ≤ b ∧ b ≤ p.high
  · have hlow : p.low.toNat ≤ b.toNat := hwithin.1
    have hhigh : b.toNat ≤ p.high.toNat := hwithin.2
    have hbounds := h.bounds
    obtain ⟨n, hn, rfl⟩ := exists_eq_ofNat_add (b := b) (n := 128) (m := 64) (by omega) (by omega)
    rw [toNat_ofNat (by omega)] at hlow hhigh
    obtain ⟨hlast, hmiddle⟩ := h.next hn hlow hhigh
    have hstep : step (found, some p) (.ofNat (n % 64 + 128)) = _ :=
      step_within (by omega) (by omega)
    rw [Nat.mod_eq_of_lt hn] at hstep
    by_cases howed : p.owed = 1
    · rw [if_pos howed] at hstep
      exact .inl ⟨_, hlast howed, hstep⟩
    · rw [if_neg howed] at hstep
      exact .inr (.inl ⟨_, hmiddle howed, hstep⟩)
  · exact .inr (.inr (if_neg hwithin))

/-- **A byte more** is read, if it leads to no fault. -/
theorem Reads.step {bs : Bytes} {r : Progress} (h : Reads bs r) {b : UInt8}
    (hwhole : Whole (step r b).1) : Reads (bs ++ [b]) (step r b) := by
  obtain ⟨found, _ | p⟩ := r
  · exact reads_begin h hwhole
  · obtain ⟨cs, seen, rfl, hopens, rfl⟩ := h
    rcases step_cases hopens b with ⟨c, hc, heq⟩ | ⟨q, hq, heq⟩ | heq
    · rw [heq]
      refine ⟨cs ++ [c], by simp, ?_⟩
      rw [List.flatMap_append, List.flatMap_singleton, hc, List.append_assoc]
    · rw [heq]
      exact ⟨cs, seen ++ [b], rfl, hq, List.append_assoc _ _ _⟩
    · rw [heq] at hwhole
      exact absurd (hwhole.of_suffix (suffix_begin _ b)) (not_whole_broken p.seen)

theorem suffix_step (r : Progress) (b : UInt8) : r.1 <:+ (step r b).1 := by
  obtain ⟨found, _ | p⟩ := r
  · exact suffix_begin found b
  · unfold Utf8.step
    dsimp only
    split_ifs
    · exact List.suffix_cons _ _
    · exact List.suffix_refl _
    · exact (List.suffix_cons _ _).trans (suffix_begin _ b)

/-- **Bytes that are read without a fault** are those of the characters found. -/
theorem reads_foldl {bs : Bytes} (hwhole : Whole (bs.foldl step ([], none)).1) :
    Reads bs (bs.foldl step ([], none)) := by
  induction bs using List.reverseRecOn with
  | nil => exact ⟨[], rfl, rfl⟩
  | append_singleton bs b ih =>
    rw [List.foldl_append, List.foldl_cons, List.foldl_nil] at hwhole ⊢
    exact (ih (hwhole.of_suffix (suffix_step _ b))).step hwhole

theorem firstFault?_eq_none_iff {i : Nat} {ps : List Piece} :
    firstFault? i ps = none ↔ Whole ps := by
  induction ps generalizing i with
  | nil => exact ⟨fun _ => nofun, fun _ => rfl⟩
  | cons piece ps ih =>
    unfold Whole at ih ⊢
    rw [List.forall_mem_cons]
    cases piece with
    | char c => simp only [firstFault?, ih, Piece.char.injEq, exists_eq', true_and]
    | broken n => simp [firstFault?]
    | cut n => simp [firstFault?]

theorem textOf_map_char (cs : List Char) : textOf (cs.map .char) = String.ofList cs := by
  rw [textOf, List.map_map, show Piece.toChar ∘ Piece.char = id from rfl, List.map_id]

/-- The text is also what is read of its bytes where faults are passed over. -/
theorem decodeLossy_encode (s : String) : decodeLossy (encode s) = s := by
  rw [decodeLossy, pieces_encode, textOf_map_char, String.ofList_toList]

/-- **Whole bytes** are those of a text. -/
theorem eq_encode_of_whole {bs : Bytes} (h : Whole (pieces bs)) :
    bs = encode (textOf (pieces bs)) := by
  have hfound : Whole (bs.foldl step ([], none)).1 := by
    intro piece hmem
    refine h piece ?_
    unfold pieces finish
    split
    · next found heq =>
      rw [heq] at hmem
      exact List.mem_reverse.mpr hmem
    · next found p heq =>
      rw [heq] at hmem
      exact List.mem_reverse.mpr (List.mem_cons_of_mem _ hmem)
  have hreads := reads_foldl hfound
  unfold pieces at h ⊢
  generalize bs.foldl step ([], none) = r at h hreads
  obtain ⟨found, _ | p⟩ := r
  · obtain ⟨cs, rfl, rfl⟩ := hreads
    rw [finish, List.reverse_reverse, textOf_map_char, encode, String.toList_ofList]
  · -- the last character is cut off
    obtain ⟨c, hc⟩ := h _ (List.mem_reverse.mpr List.mem_cons_self)
    cases hc

/-- **What is read as a text** is the bytes of the text. -/
theorem decode_eq_ok_iff {bs : Bytes} {s : String} : decode bs = .ok s ↔ bs = encode s := by
  constructor
  · intro h
    unfold decode at h
    simp only [] at h
    split at h
    · cases h
    · next hfault =>
      cases h
      exact eq_encode_of_whole (firstFault?_eq_none_iff.mp hfault)
  · rintro rfl
    exact decode_encode s

end Microweb.Utf8

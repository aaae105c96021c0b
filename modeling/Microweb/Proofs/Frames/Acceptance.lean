import Microweb.Proofs.Frames
import Mathlib.Data.List.Induction
import Mathlib.Data.Nat.Bitwise
import Mathlib.Data.Nat.Digits.Defs

/-!
Which buffers a frame is read from, and what the reading leaves of them.

What the reader accepts is said without it: by bits and digits of natural numbers (`Message`), so
that no length is ever cut to a word, and by the byte that stands at each index afterwards
(`unmasked`). A buffer then closes, or begins with a message, or is refused, and only a message
changes it.
-/

namespace Microweb

namespace Frame

/-! ### What a buffer is to begin with -/

/-- The buffer begins with a closing frame: of its two bytes only the code of operation counts. -/
inductive Closes : Bytes → Prop
  | intro {first second : UInt8} {rest : Bytes} (opcode : first.toNat % 16 = 8) :
      Closes (first :: second :: rest)

/-- The number with the given digits to the base 256, the greatest of them first. -/
def number (bs : Bytes) : Nat := Nat.ofDigits 256 (bs.reverse.map UInt8.toNat)

/-- The length that the second byte of a header announces with what stands behind it, and where the
payload starts. -/
inductive Announces (second : UInt8) (rest : Bytes) : Nat → Nat → Prop
  | short (form : second.toNat % 128 < 126) : Announces second rest 6 (second.toNat % 128)
  | two (form : second.toNat % 128 = 126) : Announces second rest 8 (number (rest.take 2))
  | eight (form : second.toNat % 128 = 127) : Announces second rest 14 (number (rest.take 8))

/-- The code of operation of a frame of a kind. -/
def Kind.code : Kind → Nat
  | text => 1
  | binary => 2
  | ping => 9

/-- The buffer begins with a frame that carries a message: a final and masked one, all of which has
come. -/
inductive Message (kind : Kind) (start length : Nat) : Bytes → Prop
  | intro {first second : UInt8} {rest : Bytes}
      (final : first.toNat.testBit 7 = true)
      (opcode : first.toNat % 16 = kind.code)
      (masked : second.toNat.testBit 7 = true)
      (announced : Announces second rest start length)
      (whole : start + length ≤ (first :: second :: rest).length) :
      Message kind start length (first :: second :: rest)

/-- The buffer with each byte of a range combined with its byte of the key, which are the four that
stand before the range. -/
def unmasked (buf : Bytes) (start length : Nat) : Bytes :=
  buf.mapIdx fun i b =>
    if start ≤ i ∧ i < start + length then b ^^^ buf.getD (start - 4 + (i - start) % 4) 0 else b

/-! ### Bits and digits -/

theorem ofBigEndian_eq_number (bs : Bytes) : ofBigEndian bs = number bs := by
  induction bs using List.reverseRecOn with
  | nil => rfl
  | append_singleton bs b ih =>
    rw [ofBigEndian_concat, ih, number, number, List.reverse_concat, List.map_cons,
      Nat.ofDigits_cons]
    omega

theorem testBit_seven (b : UInt8) : b.toNat.testBit 7 = true ↔ ¬ b < 0x80 := by
  have hb : b.toNat < 256 := b.toNat_lt
  have h80 : (0x80 : UInt8).toNat = 128 := rfl
  rw [Nat.testBit_eq_decide_div_mod_eq, decide_eq_true_iff, UInt8.lt_iff_toNat_lt, h80]
  omega

theorem and_fifteen_eq_iff (b op : UInt8) :
    b &&& 0x0F = op ↔ b.toNat % 16 = op.toNat := by
  have h15 : (0x0F : UInt8).toNat = 2 ^ 4 - 1 := rfl
  rw [← UInt8.toNat_inj, UInt8.toNat_and, h15, Nat.and_two_pow_sub_one_eq_mod]

theorem Kind.code_eq (k : Kind) : k.code = k.opcode.toNat := by
  cases k <;> rfl

/-! ### Where the payload is -/

section Layout

variable {first second : UInt8} {rest : Bytes}

theorem announces_iff {start length : Nat} (hwhole : start ≤ rest.length + 2) :
    Announces second rest start length ↔
      ∃ i, start = i + 4 ∧
        lengthField? (first :: second :: rest) second = some (length, i) := by
  have hs : second.toNat < 256 := second.toNat_lt
  simp only [lengthField?, List.length_cons, List.drop_succ_cons, List.drop_zero,
    ofBigEndian_eq_number]
  constructor
  · rintro (form | form | form)
    · exact ⟨2, rfl, by rw [if_neg (by omega), if_neg (by omega)]⟩
    · exact ⟨4, rfl, by rw [if_pos form, if_pos (by omega)]⟩
    · exact ⟨10, rfl, by rw [if_neg (by omega), if_pos form, if_pos (by omega)]⟩
  · rintro ⟨i, rfl, h⟩
    split_ifs at h with h126 h4 h127 h10
    · obtain ⟨rfl, rfl⟩ : number (rest.take 2) = length ∧ 4 = i := by simpa using h
      exact .two h126
    · obtain ⟨rfl, rfl⟩ : number (rest.take 8) = length ∧ 10 = i := by simpa using h
      exact .eight h127
    · obtain ⟨rfl, rfl⟩ : second.toNat % 128 = length ∧ 2 = i := by simpa using h
      exact .short (by omega)

end Layout

theorem keyAt?_eq {buf : Bytes} {i : Nat} (h : i + 4 ≤ buf.length) :
    ∃ key, keyAt? buf i = some key ∧ ∀ j, key.byteAt j = buf.getD (i + j % 4) 0 := by
  obtain ⟨k0, k1, k2, k3, rest, hdrop⟩ : ∃ k0 k1 k2 k3 rest,
      buf.drop i = k0 :: k1 :: k2 :: k3 :: rest := by
    have hlen : 4 ≤ (buf.drop i).length := by
      rw [List.length_drop]
      omega
    generalize buf.drop i = bs at hlen ⊢
    rcases bs with _ | ⟨k0, _ | ⟨k1, _ | ⟨k2, _ | ⟨k3, rest⟩⟩⟩⟩
    · exact absurd hlen (by simp)
    · exact absurd hlen (by simp)
    · exact absurd hlen (by simp)
    · exact absurd hlen (by simp)
    · exact ⟨k0, k1, k2, k3, rest, rfl⟩
  refine ⟨⟨k0, k1, k2, k3⟩, by rw [keyAt?, hdrop], fun j => ?_⟩
  have hget : ∀ m, buf.getD (i + m) 0 = (k0 :: k1 :: k2 :: k3 :: rest).getD m 0 := by
    intro m
    rw [← hdrop]
    simp only [List.getD_eq_getElem?_getD, List.getElem?_drop]
  rw [hget, MaskKey.byteAt]
  have hj : j % 4 = 0 ∨ j % 4 = 1 ∨ j % 4 = 2 ∨ j % 4 = 3 := by omega
  rcases hj with hj | hj | hj | hj <;> rw [hj] <;> rfl

/-! ### What stands in the buffer afterwards -/

theorem mapIdx_eq_self {f : Nat → UInt8 → UInt8} {bs : Bytes}
    (h : ∀ m, ∀ b, m < bs.length → f m b = b) : bs.mapIdx f = bs :=
  List.ext_getElem List.length_mapIdx fun m _ hm => by rw [List.getElem_mapIdx, h m _ hm]

/-- Only the range changes, and it changes as a payload does that the key is applied to. -/
theorem unmasked_eq {buf : Bytes} {i n : Nat} {key : MaskKey} (h : i + 4 + n ≤ buf.length)
    (hkey : ∀ j, key.byteAt j = buf.getD (i + j % 4) 0) :
    unmasked buf (i + 4) n =
      buf.take (i + 4) ++ key.apply (Span.slice ⟨i + 4, i + 4 + n⟩ buf) ++
        buf.drop (i + 4 + n) := by
  have hslice : Span.slice ⟨i + 4, i + 4 + n⟩ buf = (buf.drop (i + 4)).take n := by
    rw [Span.slice, Span.length, Nat.add_sub_cancel_left]
  have hfront : (buf.take (i + 4)).length = i + 4 := List.length_take_of_le (by omega)
  have hrange : ((buf.drop (i + 4)).take n).length = n :=
    List.length_take_of_le (by rw [List.length_drop]; omega)
  have hbuf : buf = buf.take (i + 4) ++ ((buf.drop (i + 4)).take n ++ buf.drop (i + 4 + n)) := by
    rw [← List.drop_drop (i := n) (j := i + 4), List.take_append_drop, List.take_append_drop]
  rw [hslice, unmasked]
  -- the key is read from the buffer as it came, so only the list that is mapped is cut in three
  generalize hf : (fun m b => if i + 4 ≤ m ∧ m < i + 4 + n then
    b ^^^ buf.getD (i + 4 - 4 + (m - (i + 4)) % 4) 0 else b) = f
  conv_lhs => rw [hbuf]
  rw [List.mapIdx_append, List.mapIdx_append, hfront, hrange, List.append_assoc]
  subst hf
  congr 1
  · exact mapIdx_eq_self fun m b hm => if_neg (by omega)
  congr 1
  · refine List.ext_getElem (by rw [List.length_mapIdx, MaskKey.length_apply]) fun m hm _ => ?_
    rw [List.length_mapIdx, hrange] at hm
    simp only [List.getElem_mapIdx, MaskKey.apply, List.getElem_map, List.getElem_zipIdx, hkey,
      Nat.zero_add, Nat.add_sub_cancel]
    exact if_pos (by omega)
  · exact mapIdx_eq_self fun m b hm => if_neg (by omega)

theorem slice_unmasked {buf : Bytes} {i n : Nat} {key : MaskKey} (h : i + 4 + n ≤ buf.length)
    (hkey : ∀ j, key.byteAt j = buf.getD (i + j % 4) 0) :
    ((unmasked buf (i + 4) n).drop (i + 4)).take n =
      key.apply (Span.slice ⟨i + 4, i + 4 + n⟩ buf) := by
  rw [unmasked_eq h hkey, List.append_assoc,
    List.drop_left' (List.length_take_of_le (by omega)), List.take_left']
  rw [MaskKey.length_apply, Span.length_slice h, Span.length, Nat.add_sub_cancel_left]

/-! ### The reader -/

theorem parse_closes {buf : Bytes} (h : Closes buf) :
    parse buf = (.ok (close, buf.length), buf) := by
  obtain ⟨opcode⟩ := h
  rw [parse, if_pos ((and_fifteen_eq_iff _ _).mpr opcode)]

theorem parse_message {buf : Bytes} {kind : Kind} {start length : Nat}
    (h : Message kind start length buf) :
    parse buf = (.ok (kind.frame (((unmasked buf start length).drop start).take length),
      start + length), unmasked buf start length) := by
  obtain ⟨final, opcode, masked, announced, whole⟩ := h
  rename_i first second rest
  obtain ⟨i, rfl, hfield⟩ :=
    (announces_iff (by simpa using Nat.le_of_add_right_le whole)).mp announced
  obtain ⟨key, hkey, hbyte⟩ := keyAt?_eq (Nat.le_of_add_right_le whole)
  have hlayout := layout?_eq_some_iff.mpr ⟨length, i, hfield, hkey, rfl, whole⟩
  have hparse := parse_of_opcode kind rest
    ((and_fifteen_eq_iff _ _).mpr (opcode.trans kind.code_eq)) ((testBit_seven _).mp final)
    ((testBit_seven _).mp masked)
  simp only [hlayout] at hparse
  rw [hparse, slice_unmasked whole hbyte, unmasked_eq whole hbyte]

/-- What is read is a closing frame or a message. -/
theorem closes_or_message_of_parse {buf after : Bytes} {frame : Frame} {used : Nat}
    (h : parse buf = (.ok (frame, used), after)) :
    Closes buf ∨ ∃ kind start length, Message kind start length buf := by
  match buf with
  | [] => cases h
  | [_] => cases h
  | first :: second :: rest =>
    by_cases hclose : first &&& 0x0F = Opcode.close
    · exact .inl ⟨(and_fifteen_eq_iff _ _).mp hclose⟩
    refine .inr ?_
    simp only [parse, if_neg hclose] at h
    split_ifs at h with hfinal hop hmask
    · cases h
    · cases h
    · cases h
    obtain ⟨kind, hkind⟩ : ∃ kind : Kind, first &&& 0x0F = kind.opcode := by
      by_contra hnone
      exact hop ⟨fun e => hnone ⟨.text, e⟩, fun e => hnone ⟨.binary, e⟩,
        fun e => hnone ⟨.ping, e⟩⟩
    split at h
    · cases h
    next key span hlayout =>
      obtain ⟨n, i, hfield, hkey, -, whole⟩ := layout?_eq_some_iff.mp hlayout
      refine ⟨kind, i + 4, n, (testBit_seven _).mpr fun e => hfinal (.inl e),
        ((and_fifteen_eq_iff _ _).mp hkind).trans kind.code_eq.symm, (testBit_seven _).mpr hmask,
        (announces_iff (by simpa using Nat.le_of_add_right_le whole)).mpr ⟨i, rfl, hfield⟩, whole⟩

/-- **The reader accepts what is said above and nothing else.** It finds a closing frame exactly
where the code of operation says so, and it takes the whole buffer. Anywhere else it reads a frame
exactly when the buffer begins with a message, whose length is a natural number however many bytes
spell it: the frame takes its header and its payload, only the payload changes, and the frame has
it as it then stands. When nothing is read the buffer is as it was. -/
theorem parse_accepts (buf : Bytes) :
    (∀ used after, parse buf = (.ok (close, used), after) ↔
      Closes buf ∧ used = buf.length ∧ after = buf) ∧
    (¬ Closes buf → ∀ frame used after, parse buf = (.ok (frame, used), after) ↔
      ∃ kind start length, Message kind start length buf ∧ used = start + length ∧
        after = unmasked buf start length ∧
        frame = kind.frame ((after.drop start).take length)) ∧
    ∀ e after, parse buf = (.error e, after) → after = buf := by
  refine ⟨fun used after => ⟨fun h => ?_, ?_⟩, fun hopen frame used after => ⟨fun h => ?_, ?_⟩,
    fun e after => parse_error⟩
  · rcases closes_or_message_of_parse h with hclose | ⟨kind, start, length, hm⟩
    · simp only [parse_closes hclose, Prod.mk.injEq, Except.ok.injEq, true_and] at h
      exact ⟨hclose, h.1.symm, h.2.symm⟩
    · rw [parse_message hm] at h
      cases kind <;> cases h
  · rintro ⟨hclose, rfl, rfl⟩
    exact parse_closes hclose
  · rcases closes_or_message_of_parse h with hclose | ⟨kind, start, length, hm⟩
    · exact absurd hclose hopen
    · simp only [parse_message hm, Prod.mk.injEq, Except.ok.injEq] at h
      obtain ⟨⟨rfl, rfl⟩, rfl⟩ := h
      exact ⟨kind, start, length, hm, rfl, rfl, rfl⟩
  · rintro ⟨kind, start, length, hm, rfl, rfl, rfl⟩
    exact parse_message hm

/-- The greatest length that a header can announce is not there, and the buffer is left alone. -/
example :
    let buf := (0x82 : UInt8) :: List.replicate 20 0xFF
    parse buf = (.error .incomplete, buf) := by
  decide +kernel

end Frame

end Microweb

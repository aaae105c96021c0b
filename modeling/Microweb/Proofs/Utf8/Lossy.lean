import Microweb.Proofs.Utf8

/-!
Bytes that are read with their faults passed over. An ASCII byte is read as itself wherever it
stands, and what stands before it is read as if it stood alone (`decodeLossy_append_ascii`); an ASCII
character of the text comes from its byte (`mem_of_mem_decodeLossy`). Both follow from what the
reader knows of the bytes behind it (`Traces`).
-/

namespace Microweb.Utf8

/-! ### What is found was there -/

/-- The bytes of each character that was found are together among those that were read. -/
def Found (bs : Bytes) (found : List Piece) : Prop :=
  ∀ c, Piece.char c ∈ found → String.utf8EncodeChar c <:+: bs

namespace Found

variable {bs bs' : Bytes} {found : List Piece}

theorem mono (h : Found bs found) (hs : bs <:+: bs') : Found bs' found :=
  fun c hc => (h c hc).trans hs

theorem char (h : Found bs found) {c : Char} (hc : String.utf8EncodeChar c <:+: bs) :
    Found bs (.char c :: found) := by
  intro d hd
  rcases List.mem_cons.mp hd with hd | hd
  · cases hd
    exact hc
  · exact h d hd

theorem broken (h : Found bs found) (n : Nat) : Found bs (.broken n :: found) := by
  intro c hc
  rcases List.mem_cons.mp hc with hc | hc
  · cases hc
  · exact h c hc

end Found

/-- **What the reader knows of the bytes behind it**: those of each character that it found, and
those of the character under way, which are the last. -/
structure Traces (bs : Bytes) (r : Progress) : Prop where
  found : Found bs r.1
  pending : ∀ p ∈ r.2, ∃ seen, Opens seen p ∧ seen <:+ bs

/-- A byte where a character may start. -/
theorem Found.traces_begin {bs : Bytes} {found : List Piece} (h : Found bs found) (b : UInt8) :
    Traces (bs ++ [b]) (begin found b) := by
  have hmore : Found (bs ++ [b]) found := h.mono (List.prefix_append bs [b]).isInfix
  have hlast : [b] <:+ bs ++ [b] := List.suffix_append bs [b]
  rcases begin_cases found b with ⟨hascii, heq⟩ | ⟨p, hlead, heq⟩ | heq
  · have hlt : b.toNat < 128 := hascii
    have hbyte : String.utf8EncodeChar (Char.ofNat b.toNat) = [b] := by
      rw [utf8EncodeChar_ofNat (by omega), if_pos (by omega), UInt8.ofNat_toNat]
    rw [heq]
    exact ⟨hmore.char (hbyte ▸ hlast.isInfix), nofun⟩
  · rw [heq]
    refine ⟨hmore, fun q hq => ?_⟩
    cases hq
    exact ⟨[b], opens_of_lead? hlead, hlast⟩
  · rw [heq]
    exact ⟨hmore.broken 1, nofun⟩

/-- **A byte more.** -/
theorem Traces.step {bs : Bytes} {r : Progress} (h : Traces bs r) (b : UInt8) :
    Traces (bs ++ [b]) (step r b) := by
  obtain ⟨found, _ | p⟩ := r
  · exact h.found.traces_begin b
  · obtain ⟨seen, hopens, hsuffix⟩ := h.pending p rfl
    have hmore : Found (bs ++ [b]) found := h.found.mono (List.prefix_append bs [b]).isInfix
    have hseen : seen ++ [b] <:+ bs ++ [b] :=
      (List.suffix_append_inj_of_length_eq rfl).mpr ⟨hsuffix, rfl⟩
    rcases @step_cases found seen p hopens b with ⟨c, hc, heq⟩ | ⟨q, hq, heq⟩ | heq
    · rw [heq]
      exact ⟨hmore.char (hc ▸ hseen.isInfix), nofun⟩
    · rw [heq]
      refine ⟨hmore, fun q' hq' => ?_⟩
      cases hq'
      exact ⟨seen ++ [b], hq, hseen⟩
    · rw [heq]
      exact (h.found.broken p.seen).traces_begin b

theorem traces_foldl (bs : Bytes) : Traces bs (bs.foldl step ([], none)) := by
  induction bs using List.reverseRecOn with
  | nil => exact ⟨nofun, nofun⟩
  | append_singleton bs b ih =>
    rw [List.foldl_append]
    exact ih.step b

/-- **An ASCII character** of the text is among the bytes. -/
theorem mem_of_mem_decodeLossy {bs : Bytes} {c : Char} (hc : c.toNat < 128)
    (h : c ∈ (decodeLossy bs).toList) : UInt8.ofNat c.toNat ∈ bs := by
  have hne : c ≠ '\uFFFD' := by
    rintro rfl
    exact absurd hc (by decide)
  -- a piece that is no character has another one put for it
  have hpiece : ∀ piece : Piece, piece.toChar = c → piece = .char c := by
    rintro (d | n | n) hd
    · exact congrArg Piece.char hd
    · exact absurd hd.symm hne
    · exact absurd hd.symm hne
  have hmem : Piece.char c ∈ (bs.foldl step ([], none)).1 := by
    rw [decodeLossy, textOf, String.toList_ofList] at h
    obtain ⟨piece, hmem, hchar⟩ := List.mem_map.mp h
    rw [hpiece piece hchar, pieces] at hmem
    generalize bs.foldl step ([], none) = r at hmem
    obtain ⟨found, _ | p⟩ := r
    · exact List.mem_reverse.mp hmem
    · rcases List.mem_cons.mp (List.mem_reverse.mp hmem) with hcut | hmem
      · cases hcut
      · exact hmem
  exact ((traces_foldl bs).found c hmem).subset ((mem_utf8EncodeChar_iff hc).mpr rfl)

/-! ### An ASCII byte parts what is read -/

/-- The pieces at a progress, were the next byte none of the character under way. -/
def settled : Progress → List Piece
  | (found, none) => found
  | (found, some p) => .broken p.seen :: found

/-- An ASCII byte settles what is under way. -/
theorem step_ascii {bs : Bytes} {r : Progress} (h : Traces bs r) {b : UInt8} (hb : b < 0x80) :
    step r b = (.char (Char.ofNat b.toNat) :: settled r, none) := by
  obtain ⟨found, _ | p⟩ := r
  · exact if_pos hb
  · obtain ⟨seen, hopens, -⟩ := h.pending p rfl
    have hlow : ¬ (p.low ≤ b ∧ b ≤ p.high) := by
      rintro ⟨hle, -⟩
      have hbound := hopens.bounds.1
      have hlt : b.toNat < 128 := hb
      have hle' : p.low.toNat ≤ b.toNat := hle
      omega
    rw [step, if_neg hlow, begin, if_pos hb]
    rfl

theorem textOf_finish (r : Progress) : textOf (finish r) = textOf (settled r).reverse := by
  obtain ⟨found, _ | p⟩ := r
  · rfl
  · simp [finish, settled, textOf, Piece.toChar]

/-- What was found before stays before all that is found. -/
theorem step_append (before found : List Piece) (p : Option Pending) (b : UInt8) :
    step (found ++ before, p) b = ((step (found, p) b).1 ++ before, (step (found, p) b).2) := by
  have hbegin : ∀ found : List Piece,
      begin (found ++ before) b = ((begin found b).1 ++ before, (begin found b).2) := by
    intro found
    unfold begin
    split_ifs
    · rfl
    · cases lead? b <;> rfl
  cases p with
  | none => exact hbegin found
  | some p =>
    unfold step
    dsimp only
    split_ifs
    · rfl
    · rfl
    · exact hbegin (.broken p.seen :: found)

theorem foldl_step_append (bs : Bytes) (before found : List Piece) (p : Option Pending) :
    bs.foldl step (found ++ before, p) =
      ((bs.foldl step (found, p)).1 ++ before, (bs.foldl step (found, p)).2) := by
  induction bs generalizing found p with
  | nil => rfl
  | cons b bs ih =>
    rw [List.foldl_cons, step_append, ih, List.foldl_cons]

theorem finish_append (before found : List Piece) (p : Option Pending) :
    finish (found ++ before, p) = before.reverse ++ finish (found, p) := by
  cases p with
  | none => exact List.reverse_append
  | some p => rw [finish, finish, ← List.cons_append, List.reverse_append]

theorem textOf_append (ps qs : List Piece) : textOf (ps ++ qs) = textOf ps ++ textOf qs := by
  rw [textOf, List.map_append, String.ofList_append]
  rfl

/-- **An ASCII byte** is read as itself, and what stands before it and behind it as if it stood
alone. -/
theorem decodeLossy_append_ascii (front rest : Bytes) {b : UInt8} (hb : b < 0x80) :
    decodeLossy (front ++ b :: rest) =
      decodeLossy front ++ String.singleton (Char.ofNat b.toNat) ++ decodeLossy rest := by
  have hstep := step_ascii (traces_foldl front) hb
  have hfold : (front ++ b :: rest).foldl step ([], none) =
      ((rest.foldl step ([], none)).1 ++
        .char (Char.ofNat b.toNat) :: settled (front.foldl step ([], none)),
        (rest.foldl step ([], none)).2) := by
    rw [List.foldl_append, List.foldl_cons, hstep]
    exact foldl_step_append rest _ [] none
  calc decodeLossy (front ++ b :: rest)
      = textOf (settled (front.foldl step ([], none))).reverse ++
          textOf [.char (Char.ofNat b.toNat)] ++ textOf (pieces rest) := by
        rw [decodeLossy, pieces, hfold, finish_append, List.reverse_cons, textOf_append,
          textOf_append]
        rfl
    _ = decodeLossy front ++ String.singleton (Char.ofNat b.toNat) ++ decodeLossy rest := by
        rw [← textOf_finish]
        rfl

end Microweb.Utf8

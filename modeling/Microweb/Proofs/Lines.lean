import Mathlib.Data.List.TakeWhile
import Microweb.Proofs.RequestLine

/-!
The lines of bytes, told by the bytes alone (`linesOf`): what stands between line feeds, where a
carriage return at the end of a line is no part of it. The lines that are read off a buffer by
indices are those (`Line.map_slice_all`): one reading cuts one line off the rest of the buffer
(`Line.Cuts`), and going on from each line to the next finds them all (`Line.Follows`).
-/

namespace Microweb

/-- A line without its ending: a carriage return before the line feed belongs to it. -/
def chomp (line : Bytes) : Bytes :=
  if line.getLast? = some Byte.cr then line.dropLast else line

/-- What line feeds part. Behind the last one there is a piece only if something is left. -/
def pieces (bs : Bytes) : List Bytes :=
  let parts := bs.splitOn Byte.lf
  if parts.getLast? = some [] then parts.dropLast else parts

/-- **The lines of bytes**, without their endings. -/
def linesOf (bs : Bytes) : List Bytes := (pieces bs).map chomp

/-! ### One line after the other -/

@[simp] theorem linesOf_nil : linesOf [] = [] := rfl

theorem linesOf_of_not_mem {line : Bytes} (h : Byte.lf ∉ line) (hne : line ≠ []) :
    linesOf line = [chomp line] := by
  unfold linesOf pieces
  simp [List.splitOn_eq_singleton h, hne]

theorem linesOf_append_lf {line : Bytes} (h : Byte.lf ∉ line) (rest : Bytes) :
    linesOf (line ++ Byte.lf :: rest) = chomp line :: linesOf rest := by
  have hsplit : (line ++ Byte.lf :: rest).splitOn Byte.lf = line :: rest.splitOn Byte.lf :=
    List.splitOn_append_cons_self_of_not_mem h rest
  have hne : rest.splitOn Byte.lf ≠ [] := List.splitOn_ne_nil _ _
  have hlast : (line :: rest.splitOn Byte.lf).getLast? = (rest.splitOn Byte.lf).getLast? := by
    rw [List.getLast?_cons, List.getLast?_eq_some_getLast hne]
    rfl
  unfold linesOf pieces
  simp only [hsplit, hlast]
  split_ifs
  · rw [List.dropLast_cons_of_ne_nil hne, List.map_cons]
  · rw [List.map_cons]

/-- Bytes are none, or one line without its line feed, or start with a line that has one. -/
theorem line_cases (bs : Bytes) :
    bs = [] ∨ (Byte.lf ∉ bs ∧ bs ≠ []) ∨
      ∃ line rest, Byte.lf ∉ line ∧ bs = line ++ Byte.lf :: rest := by
  by_cases hmem : Byte.lf ∈ bs
  · obtain ⟨line, rest, heq, hline⟩ := List.eq_append_cons_of_mem hmem
    exact .inr (.inr ⟨line, rest, hline, heq⟩)
  · by_cases hne : bs = []
    · exact .inl hne
    · exact .inr (.inl ⟨hmem, hne⟩)

/-- Bytes whose last line, if there is one, has its line feed. -/
def Complete (bs : Bytes) : Prop := ∀ b ∈ bs.getLast?, b = Byte.lf

theorem Complete.not_mem {bs : Bytes} (h : Complete bs) (hne : bs ≠ []) : Byte.lf ∈ bs := by
  have hlast := h (bs.getLast hne) (List.getLast?_eq_some_getLast hne)
  exact hlast ▸ List.getLast_mem hne

theorem Complete.behind {line rest : Bytes} (h : Complete (line ++ Byte.lf :: rest)) :
    Complete rest := by
  intro b hb
  refine h b ?_
  rw [List.getLast?_append, List.getLast?_cons, Option.mem_def.mp hb]
  rfl

/-- **Behind complete lines** others follow. -/
theorem linesOf_append {front : Bytes} (h : Complete front) (rest : Bytes) :
    linesOf (front ++ rest) = linesOf front ++ linesOf rest := by
  rcases line_cases front with rfl | ⟨hmem, hne⟩ | ⟨line, behind, hline, rfl⟩
  · simp
  · exact absurd (h.not_mem hne) hmem
  · rw [List.append_assoc, List.cons_append, linesOf_append_lf hline, linesOf_append_lf hline,
      linesOf_append h.behind, List.cons_append]
termination_by front.length

/-! ### The lines that are read -/

namespace Line

/-- A line that covers a piece of a buffer, less a carriage return at its end. -/
structure Covers (l : Line) (buf : Bytes) (start : Nat) (piece : Bytes) : Prop where
  buf_eq : l.buf = buf
  start_eq : l.start = start
  start_le_stop : start ≤ l.stop
  stop_le : l.stop ≤ buf.length
  slice_eq : l.slice = chomp piece

/-- **What a reading at an index cuts off** the rest of a buffer: the piece up to the next line feed,
behind which the next line starts, or all of it. -/
inductive Cuts (buf : Bytes) (start : Nat) : Line → Option Nat → Prop
  | ended {line : Line} {piece : Bytes} (hline : line.Covers buf start piece)
      (hpiece : Byte.lf ∉ piece)
      (hsplit : buf.drop start = piece ++ Byte.lf :: buf.drop (start + piece.length + 1)) :
      Cuts buf start line (some (start + piece.length + 1))
  | last {line : Line} (hline : line.Covers buf start (buf.drop start))
      (hpiece : Byte.lf ∉ buf.drop start) : Cuts buf start line none

theorem at?_eq_none_iff {buf : Bytes} {start : Nat} :
    at? buf start = none ↔ buf.length ≤ start := by
  constructor
  · intro h
    by_contra hlt
    rw [(at?_of_lt (Nat.lt_of_not_le hlt)).1] at h
    cases h
  · intro h
    rw [at?, List.drop_eq_nil_of_le h]
    rfl

/-- **A line is read** before the end of the buffer. -/
theorem exists_at? {buf : Bytes} {start : Nat} (h : start < buf.length) :
    ∃ line next, at? buf start = some (line, next) ∧ Cuts buf start line next := by
  obtain ⟨hat, htake⟩ := at?_of_lt h
  have hle := congrArg List.length htake
  rw [List.length_take, List.length_drop] at hle
  have hcovers : Covers ⟨buf, start, start + (Request.firstLine (buf.drop start)).length⟩ buf start
      ((buf.drop start).takeWhile fun b => ! (b == Byte.lf)) := by
    refine ⟨rfl, rfl, Nat.le_add_right _ _, by dsimp only; omega, ?_⟩
    unfold slice span Span.slice Span.length
    rw [Nat.add_sub_cancel_left]
    exact htake
  refine ⟨_, _, hat, ?_⟩
  cases hfind : (buf.drop start).findIdx? (· == Byte.lf) with
  | none =>
    rw [takeWhile_of_findIdx?_none hfind] at hcovers
    refine .last hcovers fun hmem => ?_
    simpa using List.findIdx?_eq_none_iff.mp hfind _ hmem
  | some n =>
    obtain ⟨hlt, hwhile⟩ := takeWhile_of_findIdx?_some hfind
    obtain ⟨_, hbyte, -⟩ := List.findIdx?_eq_some_iff_getElem.mp hfind
    have hlength : ((buf.drop start).take n).length = n := List.length_take_of_le (Nat.le_of_lt hlt)
    have hpiece : Byte.lf ∉ (buf.drop start).take n := by
      intro hmem
      rw [← hwhile] at hmem
      simpa using List.mem_takeWhile_imp hmem
    have hsplit : buf.drop start =
        (buf.drop start).take n ++ Byte.lf :: buf.drop (start + n + 1) := by
      conv_lhs => rw [← List.take_append_drop n (buf.drop start), List.drop_eq_getElem_cons hlt]
      rw [beq_iff_eq.mp hbyte, List.drop_drop, Nat.add_assoc]
    rw [hwhile] at hcovers
    have hcuts := Cuts.ended hcovers hpiece (by rwa [hlength])
    rwa [hlength] at hcuts

theorem lt_of_at? {buf : Bytes} {start : Nat} {r : Line × Option Nat}
    (h : at? buf start = some r) : start < buf.length := by
  by_contra hle
  rw [at?_eq_none_iff.mpr (Nat.le_of_not_lt hle)] at h
  cases h

/-- What is read is cut off. -/
theorem cuts_of_at? {buf : Bytes} {start : Nat} {line : Line} {next : Option Nat}
    (h : at? buf start = some (line, next)) : Cuts buf start line next := by
  obtain ⟨line', next', hat, hcuts⟩ := exists_at? (lt_of_at? h)
  rw [hat] at h
  cases h
  exact hcuts

/-- A line lies inside the buffer, from the index on. -/
theorem Cuts.inside {buf : Bytes} {start : Nat} {line : Line} {next : Option Nat}
    (h : Cuts buf start line next) :
    line.start = start ∧ line.buf = buf ∧ line.start ≤ line.stop ∧ line.stop ≤ buf.length := by
  cases h with
  | ended hline _ _ | last hline _ =>
    refine ⟨hline.start_eq, hline.buf_eq, ?_, hline.stop_le⟩
    rw [hline.start_eq]
    exact hline.start_le_stop

/-! ### Going on from line to line -/

/-- **The lines that are read** from an index on, if each one is read where the one before says that
it starts, until there is none or the last one says so. -/
inductive Follows (buf : Bytes) : Nat → List Line → Prop
  | none {start : Nat} (hat : at? buf start = none) : Follows buf start []
  | last {start : Nat} {line : Line} (hat : at? buf start = some (line, none)) :
      Follows buf start [line]
  | next {start next : Nat} {line : Line} {lines : List Line}
      (hat : at? buf start = some (line, some next)) (hrest : Follows buf next lines) :
      Follows buf start (line :: lines)

/-- **The scan goes on to the end**, whatever fuel beyond the bytes that are left. -/
theorem follows_scan {buf : Bytes} {fuel start : Nat} (h : buf.length ≤ start + fuel) :
    Follows buf start (scan buf fuel start) := by
  induction fuel generalizing start with
  | zero => exact .none (at?_eq_none_iff.mpr h)
  | succ fuel ih =>
    by_cases hlt : start < buf.length
    · obtain ⟨line, next, hat, hcuts⟩ := exists_at? hlt
      rw [scan, hat]
      cases hcuts with
      | ended _ _ _ => exact .next hat (ih (by omega))
      | last _ _ => exact .last hat
    · have hnone := at?_eq_none_iff.mpr (Nat.le_of_not_lt hlt)
      rw [scan, hnone]
      exact .none hnone

theorem follows_all (buf : Bytes) : Follows buf 0 (all buf) := follows_scan (Nat.le_add_left _ 0)

/-- **The lines that are read** are those of the rest of the buffer. -/
theorem Follows.map_slice {buf : Bytes} {start : Nat} {lines : List Line}
    (h : Follows buf start lines) : lines.map slice = linesOf (buf.drop start) := by
  induction h with
  | none hat =>
    rw [List.drop_eq_nil_of_le (at?_eq_none_iff.mp hat)]
    rfl
  | last hat =>
    have hlt := lt_of_at? hat
    cases cuts_of_at? hat with
    | last hline hpiece =>
      rw [linesOf_of_not_mem hpiece (by simpa using hlt), ← hline.slice_eq]
      rfl
  | next hat _ ih =>
    cases cuts_of_at? hat with
    | ended hline hpiece hsplit =>
      rw [hsplit, linesOf_append_lf hpiece, List.map_cons, hline.slice_eq, ih]

theorem Follows.stop_le {buf : Bytes} {start : Nat} {lines : List Line}
    (h : Follows buf start lines) : ∀ l ∈ lines, l.stop ≤ l.buf.length := by
  have hstop : ∀ {start line next}, at? buf start = some (line, next) →
      line.stop ≤ line.buf.length := by
    intro start line next hat
    obtain ⟨-, hbuf, -, hle⟩ := (cuts_of_at? hat).inside
    rwa [hbuf]
  induction h with
  | none _ => nofun
  | last hat => exact List.forall_mem_singleton.mpr (hstop hat)
  | next hat _ ih => exact List.forall_mem_cons.mpr ⟨hstop hat, ih⟩

theorem map_slice_all (buf : Bytes) : (all buf).map slice = linesOf buf := (follows_all buf).map_slice

theorem stop_le_of_mem_all {buf : Bytes} {l : Line} (h : l ∈ all buf) : l.stop ≤ l.buf.length :=
  (follows_all buf).stop_le l h

end Line

end Microweb

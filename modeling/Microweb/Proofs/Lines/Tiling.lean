import Mathlib.Data.List.Chain
import Microweb.Proofs.Lines

/-!
The lines of a buffer tile it: there is one way to go on from line to line, and it comes to an end;
the lines lie in the buffer one behind the other, and only their endings lie between them and behind
the last one (`Line.Tiles`). Where one line lies is said first, for what one reading cuts off; the
rest is by induction on the readings.
-/

namespace Microweb

/-- A piece is its line, with or without a carriage return behind it. -/
theorem chomp_append (piece : Bytes) :
    ∃ ending, (ending = [] ∨ ending = [Byte.cr]) ∧ piece = chomp piece ++ ending := by
  unfold chomp
  split_ifs with hcr
  · exact ⟨[Byte.cr], .inr rfl, (List.dropLast_append_getLast? _ hcr).symm⟩
  · exact ⟨[], .inl rfl, (List.append_nil _).symm⟩

namespace Line

/-- What may end a line that another one may follow. -/
def endings : List Bytes := [[Byte.lf], [Byte.cr, Byte.lf]]

/-! ### Going on from line to line -/

/-- There is one way to go on. -/
theorem Follows.unique {buf : Bytes} {start : Nat} {lines lines' : List Line}
    (h : Follows buf start lines) (h' : Follows buf start lines') : lines = lines' := by
  induction h generalizing lines' with
  | none hat =>
    cases h' with
    | none _ => rfl
    | last hat' | next hat' _ => rw [hat] at hat'; cases hat'
  | last hat =>
    cases h' with
    | none hat' | next hat' _ => rw [hat] at hat'; cases hat'
    | last hat' =>
      rw [hat] at hat'
      cases hat'
      rfl
  | next hat _ ih =>
    cases h' with
    | none hat' | last hat' => rw [hat] at hat'; cases hat'
    | next hat' hrest' =>
      rw [hat] at hat'
      cases hat'
      rw [ih hrest']

theorem follows_iff {buf : Bytes} {lines : List Line} :
    Follows buf 0 lines ↔ lines = all buf := by
  constructor
  · intro h
    exact h.unique (follows_all buf)
  · rintro rfl
    exact follows_all buf

/-! ### Where a line lies -/

variable {buf piece tail : Bytes} {start next : Nat} {line : Line}

/-- The rest of a buffer is the line and what stands behind it. -/
theorem Covers.drop_start (h : line.Covers buf start piece) :
    buf.drop start = line.slice ++ buf.drop line.stop := by
  have hstop : start + (line.stop - start) = line.stop := Nat.add_sub_cancel' h.start_le_stop
  have htake : line.slice = (buf.drop start).take (line.stop - start) := by
    rw [slice, span, Span.slice, Span.length, h.buf_eq, h.start_eq]
  have hdrop : buf.drop line.stop = (buf.drop start).drop (line.stop - start) := by
    rw [List.drop_drop, hstop]
  rw [htake, hdrop, List.take_append_drop]

/-- Behind the line stands what was taken off its piece, and what stands behind the piece. -/
theorem Covers.drop_stop (h : line.Covers buf start piece) (hsplit : buf.drop start = piece ++ tail) :
    ∃ ending, (ending = [] ∨ ending = [Byte.cr]) ∧ buf.drop line.stop = ending ++ tail := by
  obtain ⟨ending, hending, hpiece⟩ := chomp_append piece
  have hrest : line.slice ++ buf.drop line.stop = line.slice ++ (ending ++ tail) := calc
    line.slice ++ buf.drop line.stop = piece ++ tail := by rw [← h.drop_start, hsplit]
    _ = line.slice ++ (ending ++ tail) := by rw [h.slice_eq, ← List.append_assoc, ← hpiece]
  exact ⟨ending, hending, List.append_cancel_left hrest⟩

/-- **Where the next line starts**: behind the ending of the line. -/
theorem Cuts.behind (h : Cuts buf start line (some next)) : ∃ ending ∈ endings,
    next = line.stop + ending.length ∧ buf.drop line.stop = ending ++ buf.drop next := by
  cases h with
  | @ended piece hline _ hsplit =>
    obtain ⟨cr, hcr, hdrop⟩ := hline.drop_stop hsplit
    have hending : cr ++ [Byte.lf] ∈ endings := by
      rcases hcr with rfl | rfl
      · exact List.mem_cons_self
      · exact List.mem_cons_of_mem _ List.mem_cons_self
    refine ⟨cr ++ [Byte.lf], hending, ?_, by rw [hdrop, List.append_assoc]; rfl⟩
    have hpiece := congrArg List.length hsplit
    have hbehind := congrArg List.length hdrop
    have hle := hline.stop_le
    simp only [List.length_append, List.length_cons, List.length_nil, List.length_drop] at *
    omega

/-- Between the line and the next one stands its ending. -/
theorem Cuts.gap (h : Cuts buf start line (some next)) :
    line.stop < next ∧ Span.slice ⟨line.stop, next⟩ buf ∈ endings := by
  obtain ⟨ending, hending, rfl, hdrop⟩ := h.behind
  have hpos : 0 < ending.length := by
    rcases List.mem_pair.mp hending with rfl | rfl <;> decide
  have hslice : Span.slice ⟨line.stop, line.stop + ending.length⟩ buf = ending := by
    rw [Span.slice, Span.length, hdrop, Nat.add_sub_cancel_left, List.take_left]
  refine ⟨Nat.lt_add_of_pos_right hpos, ?_⟩
  rw [hslice]
  exact hending

/-- Behind the last line nothing stands, or a carriage return. -/
theorem Cuts.rest (h : Cuts buf start line none) :
    buf.drop line.stop = [] ∨ buf.drop line.stop = [Byte.cr] := by
  cases h with
  | last hline _ =>
    obtain ⟨ending, hending, hdrop⟩ := hline.drop_stop (List.append_nil _).symm
    rwa [hdrop, List.append_nil]

theorem Covers.lf_not_mem (h : line.Covers buf start piece) (hpiece : Byte.lf ∉ piece) :
    Byte.lf ∉ line.slice := by
  intro hmem
  obtain ⟨ending, -, heq⟩ := chomp_append piece
  rw [h.slice_eq] at hmem
  rw [heq] at hpiece
  exact hpiece (List.mem_append_left _ hmem)

/-- The line and what stands behind it are the rest of the buffer. A line holds no line feed, and it
stops at the end of the buffer or at an ending. -/
theorem Cuts.drop_start {next : Option Nat} (h : Cuts buf start line next) :
    buf.drop start = line.slice ++ buf.drop line.stop ∧ Byte.lf ∉ line.slice ∧
      ∀ b ∈ (buf.drop line.stop).head?, b = Byte.cr ∨ b = Byte.lf := by
  cases h with
  | ended hline hpiece hsplit =>
    obtain ⟨ending, hending, hdrop⟩ := hline.drop_stop hsplit
    refine ⟨hline.drop_start, hline.lf_not_mem hpiece, ?_⟩
    rw [hdrop]
    rcases hending with rfl | rfl <;> simp
  | last hline hpiece =>
    obtain ⟨ending, hending, hdrop⟩ := hline.drop_stop (List.append_nil _).symm
    refine ⟨hline.drop_start, hline.lf_not_mem hpiece, ?_⟩
    rw [hdrop]
    rcases hending with rfl | rfl <;> simp

/-! ### Lines that tile a buffer -/

/-- **Lines that tile a buffer** from an index on: they lie in it one behind the other, with nothing
between them and behind them but endings. -/
structure Tiles (buf : Bytes) (start : Nat) (lines : List Line) : Prop where
  /-- There is none only if nothing is left of the buffer. -/
  none_left : lines = [] → buf.length ≤ start
  first : ∀ l ∈ lines.head?, l.start = start
  inside : ∀ l ∈ lines, l.buf = buf ∧ l.start ≤ l.stop ∧ l.stop ≤ buf.length
  /-- The ranges are in order and have no byte in common. -/
  ordered : lines.Pairwise fun l l' => l.stop < l'.start
  gap : lines.IsChain fun l l' => Span.slice ⟨l.stop, l'.start⟩ buf ∈ endings
  /-- The last line may lack its line feed. -/
  rest : ∀ l ∈ lines.getLast?, buf.drop l.stop ∈ [] :: [Byte.cr] :: endings

namespace Tiles

variable {lines : List Line}

theorem nil (h : buf.length ≤ start) : Tiles buf start [] where
  none_left _ := h
  first := by simp
  inside := by simp
  ordered := .nil
  gap := .nil
  rest := by simp

/-- The last line of a buffer. -/
theorem last (h : Cuts buf start line none) : Tiles buf start [line] where
  none_left := nofun
  first := by simpa using h.inside.1
  inside := by simpa using h.inside.2
  ordered := List.pairwise_singleton _ _
  gap := .singleton _
  rest := by
    intro l hl
    cases hl
    rcases h.rest with hrest | hrest <;> simp [hrest]

/-- No line starts before the index. -/
theorem start_le (h : Tiles buf start lines) : ∀ l ∈ lines, start ≤ l.start := by
  intro l hl
  cases lines with
  | nil => cases hl
  | cons head lines =>
    have hhead : head.start = start := h.first head rfl
    have hle := (h.inside head List.mem_cons_self).2.1
    rcases List.mem_cons.mp hl with rfl | hl
    · exact Nat.le_of_eq hhead.symm
    · have hlt := (List.pairwise_cons.mp h.ordered).1 l hl
      omega

/-- **One line more** in front. -/
theorem cons (h : Cuts buf start line (some next)) (hrest : Tiles buf next lines) :
    Tiles buf start (line :: lines) where
  none_left := nofun
  first := by simpa using h.inside.1
  inside := List.forall_mem_cons.mpr ⟨h.inside.2, hrest.inside⟩
  ordered := by
    refine List.pairwise_cons.mpr ⟨fun l hl => ?_, hrest.ordered⟩
    exact Nat.lt_of_lt_of_le h.gap.1 (hrest.start_le l hl)
  gap := by
    refine List.isChain_cons.mpr ⟨fun l hl => ?_, hrest.gap⟩
    rw [hrest.first l hl]
    exact h.gap.2
  rest := by
    intro l hl
    cases lines with
    | nil =>
      -- the line is the last one, and nothing stands behind its ending
      obtain rfl : line = l := by simpa using hl
      obtain ⟨ending, hending, -, hdrop⟩ := h.behind
      rw [hdrop, List.drop_eq_nil_of_le (hrest.none_left rfl), List.append_nil]
      exact List.mem_cons_of_mem _ (List.mem_cons_of_mem _ hending)
    | cons _ _ => exact hrest.rest l (by rwa [List.getLast?_cons_cons] at hl)

end Tiles

/-- **Going on from line to line** tiles the buffer. -/
theorem Follows.tiles {lines : List Line} (h : Follows buf start lines) :
    Tiles buf start lines := by
  induction h with
  | none hat => exact .nil (at?_eq_none_iff.mp hat)
  | last hat => exact .last (cuts_of_at? hat)
  | next hat _ ih => exact .cons (cuts_of_at? hat) ih

/-- **Line splitting tiles the buffer.** Going on from line to line from the start comes to an end,
in one way. The lines it finds are what line feeds part, less a carriage return at the end of each,
and they tile the buffer. There is a line at every index before the end of the buffer and at no
other. -/
theorem tile_buffer (buf : Bytes) :
    (∀ lines, Follows buf 0 lines ↔ lines = all buf) ∧ (all buf).map slice = linesOf buf ∧
      Tiles buf 0 (all buf) ∧ ∀ start, at? buf start = none ↔ buf.length ≤ start :=
  ⟨fun _ => follows_iff, map_slice_all buf, (follows_all buf).tiles,
    fun _ => at?_eq_none_iff⟩

/-- A line that ends in both bytes, an empty one that ends in a line feed alone, one that keeps a
carriage return, and a last one that loses its own. -/
example : (all [0x61, Byte.cr, Byte.lf, Byte.lf, Byte.cr, Byte.cr, Byte.lf, 0x62, Byte.cr]).map span =
    [⟨0, 1⟩, ⟨3, 3⟩, ⟨4, 5⟩, ⟨7, 8⟩] := by
  decide

end Line

end Microweb

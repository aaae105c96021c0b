import Mathlib.Data.List.DropRight
import Microweb.Head.Field
import Microweb.Proofs.Lines
import Microweb.Proofs.RequestLine.Grammar
import Microweb.Proofs.Utf8

/-!
The header field that is found under a name. It stands on the first line between the first one and
the first empty one that bears the name (`Field.find?_verdict`): what these lines are is said of the
bytes of the head (`linesOf`), and what such a line is made of by its parts (`Field.Bears`).
-/

namespace Microweb

/-! ### Blanks at both ends -/

/-- Bytes without the blanks at their ends. -/
def Trimmed (bs value : Bytes) : Prop :=
  ∃ front back, bs = front ++ (value ++ back) ∧ (∀ b ∈ front, Byte.isBlank b = true) ∧
    (∀ b ∈ back, Byte.isBlank b = true) ∧ (∀ b ∈ value.head?, Byte.isBlank b = false) ∧
    ∀ b ∈ value.getLast?, Byte.isBlank b = false

theorem rdropWhile_append_of_pos {α : Type} {p : α → Bool} {xs ys : List α}
    (h : ∀ y ∈ ys, p y = true) : (xs ++ ys).rdropWhile p = xs.rdropWhile p := by
  unfold List.rdropWhile
  rw [List.reverse_append, List.dropWhile_append_of_pos fun y hy => h y (List.mem_reverse.mp hy)]

/-- **What is left without the blanks** at both ends is one thing. -/
theorem trimmed_iff {bs value : Bytes} :
    Trimmed bs value ↔ (bs.dropWhile Byte.isBlank).rdropWhile Byte.isBlank = value := by
  constructor
  · rintro ⟨front, back, rfl, hfront, hback, hhead, hlast⟩
    rw [List.dropWhile_append_of_pos hfront]
    cases value with
    | nil =>
      rw [List.nil_append, List.dropWhile_eq_nil_iff.mpr hback, List.rdropWhile_nil]
    | cons b value =>
      have hb : Byte.isBlank b = false := hhead b rfl
      rw [List.cons_append, List.dropWhile_cons_of_neg (by simp [hb]), ← List.cons_append,
        rdropWhile_append_of_pos hback, List.rdropWhile_eq_self_iff]
      intro hne
      simp [hlast _ (List.getLast?_eq_some_getLast hne)]
  · rintro rfl
    refine ⟨bs.takeWhile Byte.isBlank, (bs.dropWhile Byte.isBlank).rtakeWhile Byte.isBlank, ?_,
      fun b hb => List.mem_takeWhile_imp hb, fun b hb => List.mem_rtakeWhile_imp hb, ?_, ?_⟩
    · rw [List.rdropWhile_append_rtakeWhile, List.takeWhile_append_dropWhile]
    · intro b hb
      obtain ⟨tail, htail⟩ := List.rdropWhile_prefix Byte.isBlank (bs.dropWhile Byte.isBlank)
      have hhead := List.head?_dropWhile_not Byte.isBlank bs
      rw [← htail, List.head?_append, Option.mem_def.mp hb] at hhead
      simpa using hhead
    · intro b hb
      have hne : (bs.dropWhile Byte.isBlank).rdropWhile Byte.isBlank ≠ [] := by
        rintro hnil
        simp [hnil] at hb
      have hlast := List.rdropWhile_last_not Byte.isBlank (bs.dropWhile Byte.isBlank) hne
      rw [List.getLast?_eq_some_getLast hne] at hb
      cases hb
      simpa using hlast

/-- The range of a line without the blanks at its ends. -/
theorem Line.trimmed_slice {l : Line} (h : l.stop ≤ l.buf.length) :
    Trimmed l.slice (l.trimmed.slice l.buf) := by
  obtain ⟨front, hfront⟩ : ∃ front, front = l.slice.takeWhile Byte.isBlank := ⟨_, rfl⟩
  obtain ⟨middle, hmiddle⟩ : ∃ middle, middle = l.slice.dropWhile Byte.isBlank := ⟨_, rfl⟩
  have hdrop : l.slice.drop front.length = middle := by
    have hsplit : l.slice = front ++ middle := by
      rw [hfront, hmiddle, List.takeWhile_append_dropWhile]
    rw [hsplit, List.drop_left]
  have hs : l.slice =
      front ++ (middle.rdropWhile Byte.isBlank ++ middle.rtakeWhile Byte.isBlank) := by
    rw [List.rdropWhile_append_rtakeWhile, hfront, hmiddle, List.takeWhile_append_dropWhile]
  have hback : (middle.reverse.takeWhile Byte.isBlank).length =
      (middle.rtakeWhile Byte.isBlank).length := by
    rw [List.rtakeWhile, List.length_reverse]
  rw [trimmed_iff, ← hmiddle]
  unfold trimmed
  simp only [← hfront, hdrop, hback]
  by_cases hne : l.slice = []
  · simp only [hne, List.takeWhile_nil, List.dropWhile_nil] at hfront hmiddle
    rw [hfront, hmiddle]
    exact hne.symm
  · have hlen := length_slice h
    have hlt := start_lt_stop h hne
    rw [hs, List.length_append, List.length_append] at hlen
    rw [← slice_part h _ _ _ hs]
    congr 2
    omega

namespace Field

/-! ### Lines that bear a field -/

/-- **A line that bears a name**, with a value: a text that is the name, but for the case of ASCII
letters, stands before the first colon, and the value, between blanks, behind it. -/
def Bears (name : String) (line value : Bytes) : Prop :=
  ∃ (field : String) (rest : Bytes), line = Utf8.encode field ++ Byte.colon :: rest ∧
    Byte.colon ∉ Utf8.encode field ∧
    Bytes.sameIgnoringCase (Utf8.encode field) (Utf8.encode name) = true ∧ Trimmed rest value

theorem toOption_decode_eq_some_iff {bs : Bytes} {s : String} :
    (Utf8.decode bs).toOption = some s ↔ bs = Utf8.encode s := by
  rw [← Utf8.decode_eq_ok_iff]
  cases Utf8.decode bs <;> simp [Except.toOption]

/-- What stands behind a colon is trimmed. -/
theorem trimmed_behind {line : Line} (h : line.stop ≤ line.buf.length) {field rest : Bytes}
    (hs : line.slice = field ++ Byte.colon :: rest) :
    Trimmed rest ((line.behind rest).trimmed.slice line.buf) := by
  rw [List.append_cons] at hs
  have hslice : (line.behind rest).slice = rest := Line.slice_behind h hs
  have htrim := Line.trimmed_slice (l := line.behind rest) h
  rwa [hslice] at htrim

/-- **The value on a line** is the one that it bears. -/
theorem valueOn?_eq_some_iff {name : String} {line : Line} (h : line.stop ≤ line.buf.length)
    {value : Bytes} : valueOn? name line = some value ↔ Bears name line.slice value := by
  unfold valueOn?
  simp only [Option.bind_eq_bind, Option.bind_eq_some_iff, Prod.exists]
  constructor
  · rintro ⟨s, l, hcolon, field, hfield, hvalue⟩
    obtain ⟨w, rest, hw, hs, rfl, rfl⟩ := (Line.upTo?_eq_some_iff h).mp hcolon
    rw [Line.slice_prefix h hs, toOption_decode_eq_some_iff] at hfield
    subst hfield
    split_ifs at hvalue with hsame
    cases hvalue
    exact ⟨field, rest, hs, hw, hsame, trimmed_behind h hs⟩
  · rintro ⟨field, rest, hs, hw, hsame, htrim⟩
    refine ⟨_, _, (Line.upTo?_eq_some_iff h).mpr ⟨_, rest, hw, hs, rfl, rfl⟩, field, ?_, ?_⟩
    · rw [Line.slice_prefix h hs, toOption_decode_eq_some_iff]
    · rw [if_pos hsame, ← trimmed_iff.mp htrim, trimmed_iff.mp (trimmed_behind h hs)]

/-! ### The section of the fields -/

/-- The line of that number may hold a field: it is not the first one, and neither it nor one
between the two is empty. -/
def InSection (head : Bytes) (k : Nat) (line : Bytes) : Prop :=
  1 ≤ k ∧ (linesOf head)[k]? = some line ∧ ∀ j, 1 ≤ j → j ≤ k → (linesOf head)[j]? ≠ some []

theorem getElem?_takeWhile_eq_some_iff {α : Type} {p : α → Bool} {xs : List α} {k : Nat} {x : α} :
    (xs.takeWhile p)[k]? = some x ↔
      xs[k]? = some x ∧ ∀ j ≤ k, ∀ y, xs[j]? = some y → p y = true := by
  induction xs generalizing k with
  | nil => simp
  | cons a xs ih =>
    by_cases ha : p a = true
    · rw [List.takeWhile_cons_of_pos ha]
      cases k with
      | zero => simp [ha]
      | succ k =>
        rw [List.getElem?_cons_succ, List.getElem?_cons_succ, ih]
        refine and_congr_right fun _ => ⟨fun h j hj y hy => ?_, fun h j hj y hy => ?_⟩
        · cases j with
          | zero =>
            cases hy
            exact ha
          | succ j => exact h j (by omega) y hy
        · exact h (j + 1) (by omega) y hy
    · rw [List.takeWhile_cons_of_neg ha]
      refine iff_of_false (by simp) fun h => ha (h.2 0 (Nat.zero_le k) a rfl)

theorem map_slice_lines (head : Bytes) :
    (lines head).map Line.slice = ((linesOf head).drop 1).takeWhile fun line => ! line.isEmpty := by
  rw [← Line.map_slice_all, ← List.map_drop, List.takeWhile_map]
  rfl

theorem inSection_iff {head : Bytes} {k : Nat} {line : Bytes} : InSection head (k + 1) line ↔
    ∃ l : Line, (lines head)[k]? = some l ∧ l.slice = line := by
  rw [← Option.map_eq_some_iff, ← List.getElem?_map, map_slice_lines,
    getElem?_takeWhile_eq_some_iff]
  simp only [InSection, List.getElem?_drop, Nat.add_comm 1]
  refine ⟨fun h => ⟨h.2.1, fun j hj y hy => ?_⟩, fun h => ⟨by omega, h.1, fun j hj hle hnil => ?_⟩⟩
  · have hne := h.2.2 (j + 1) (by omega) (by omega)
    rw [hy] at hne
    simpa using hne
  · have hne := h.2 (j - 1) (by omega) [] (by rwa [Nat.sub_add_cancel hj])
    simp at hne

/-- The value of the first element that has one, by its number. -/
theorem findSome?_eq_some_iff_getElem? {α β : Type} {f : α → Option β} {xs : List α} {v : β} :
    xs.findSome? f = some v ↔ ∃ (k : Nat) (x : α), xs[k]? = some x ∧ f x = some v ∧
      ∀ j < k, ∀ y, xs[j]? = some y → f y = none := by
  rw [List.findSome?_eq_some_iff]
  constructor
  · rintro ⟨before, x, behind, rfl, hx, hbefore⟩
    refine ⟨before.length, x, by simp, hx, fun j hj y hy => hbefore y ?_⟩
    rw [List.getElem?_append_left hj] at hy
    exact List.mem_of_getElem? hy
  · rintro ⟨k, x, hk, hx, hbefore⟩
    obtain ⟨hlt, rfl⟩ := List.getElem?_eq_some_iff.mp hk
    refine ⟨xs.take k, xs[k], xs.drop (k + 1), ?_, hx, fun y hy => ?_⟩
    · rw [List.getElem_cons_drop, List.take_append_drop]
    · obtain ⟨j, hj, rfl⟩ := List.mem_take_iff_getElem.mp hy
      exact hbefore j (by omega) _ (List.getElem?_eq_getElem _)

theorem stop_le_of_mem_lines {head : Bytes} {l : Line} (h : l ∈ lines head) :
    l.stop ≤ l.buf.length :=
  Line.stop_le_of_mem_all (List.mem_of_mem_drop ((List.takeWhile_prefix _).subset h))

/-- **The value that is found** is on the first line of the section that bears the name. -/
theorem find?_eq_some_iff {head : Bytes} {name : String} {value : Bytes} :
    find? head name = some value ↔ ∃ k line, InSection head k line ∧ Bears name line value ∧
      ∀ j < k, ∀ l w, InSection head j l → ¬ Bears name l w := by
  unfold find?
  rw [findSome?_eq_some_iff_getElem?]
  constructor
  · rintro ⟨k, l, hk, hvalue, hbefore⟩
    have hstop := stop_le_of_mem_lines (List.mem_of_getElem? hk)
    refine ⟨k + 1, l.slice, inSection_iff.mpr ⟨l, hk, rfl⟩,
      (valueOn?_eq_some_iff hstop).mp hvalue, fun j hj line w hline hbears => ?_⟩
    obtain ⟨i, rfl⟩ : ∃ i, j = i + 1 := ⟨j - 1, (Nat.sub_add_cancel hline.1).symm⟩
    obtain ⟨l', hl', rfl⟩ := inSection_iff.mp hline
    have hstop' := stop_le_of_mem_lines (List.mem_of_getElem? hl')
    have hnone := hbefore i (by omega) l' hl'
    rw [(valueOn?_eq_some_iff hstop').mpr hbears] at hnone
    cases hnone
  · rintro ⟨k, line, hline, hbears, hbefore⟩
    obtain ⟨i, rfl⟩ : ∃ i, k = i + 1 := ⟨k - 1, (Nat.sub_add_cancel hline.1).symm⟩
    obtain ⟨l, hl, rfl⟩ := inSection_iff.mp hline
    have hstop := stop_le_of_mem_lines (List.mem_of_getElem? hl)
    refine ⟨i, l, hl, (valueOn?_eq_some_iff hstop).mpr hbears, fun j hj l' hl' => ?_⟩
    have hstop' := stop_le_of_mem_lines (List.mem_of_getElem? hl')
    refine Option.eq_none_iff_forall_ne_some.mpr fun w hw => ?_
    exact hbefore (j + 1) (by omega) l'.slice w (inSection_iff.mpr ⟨l', hl', rfl⟩)
      ((valueOn?_eq_some_iff hstop').mp hw)

/-- **Nothing is found** if no line of the section bears the name. -/
theorem find?_eq_none_iff {head : Bytes} {name : String} : find? head name = none ↔
    ∀ k line value, InSection head k line → ¬ Bears name line value := by
  constructor
  · intro hnone k
    -- the first line that bears the name would be found
    induction k using Nat.strongRecOn with
    | ind k ih =>
    intro line value hline hbears
    have hsome := find?_eq_some_iff.mpr ⟨k, line, hline, hbears, ih⟩
    rw [hnone] at hsome
    cases hsome
  · intro h
    refine Option.eq_none_iff_forall_ne_some.mpr fun value hvalue => ?_
    obtain ⟨k, line, hline, hbears, -⟩ := find?_eq_some_iff.mp hvalue
    exact h k line value hline hbears

/-! ### What is never looked at -/

theorem find?_congr {head head' : Bytes}
    (h : ∀ k line, InSection head k line ↔ InSection head' k line) (name : String) :
    find? head name = find? head' name := by
  refine Option.ext fun value => ?_
  simp only [find?_eq_some_iff, h]

theorem inSection_succ {first rest : Bytes} (h : Byte.lf ∉ first) {k : Nat} {line : Bytes} :
    InSection (first ++ Byte.lf :: rest) (k + 1) line ↔
      ((linesOf rest).takeWhile fun line => ! line.isEmpty)[k]? = some line := by
  rw [inSection_iff, ← Option.map_eq_some_iff, ← List.getElem?_map, map_slice_lines,
    linesOf_append_lf h, List.drop_one, List.tail_cons]

theorem not_inSection_zero {head line : Bytes} : ¬ InSection head 0 line := fun h =>
  absurd h.1 (by omega)

/-- **The first line, the first empty one and all behind it** are not looked at. -/
theorem find?_section {first first' body behind : Bytes} (h : Byte.lf ∉ first)
    (h' : Byte.lf ∉ first') (hbody : Complete body) (hbehind : (linesOf behind).head? = some [])
    (name : String) : find? (first ++ Byte.lf :: (body ++ behind)) name =
      find? (first' ++ Byte.lf :: body) name := by
  obtain ⟨tail, htail⟩ := List.head?_eq_some_iff.mp hbehind
  have hsection : (linesOf (body ++ behind)).takeWhile (fun line => ! line.isEmpty) =
      (linesOf body).takeWhile fun line => ! line.isEmpty := by
    rw [linesOf_append hbody, htail, List.takeWhile_append, List.takeWhile_cons_of_neg (by simp),
      List.append_nil]
    split_ifs with hlen
    · exact ((List.takeWhile_prefix _).eq_of_length hlen).symm
    · rfl
  refine find?_congr (fun k line => ?_) name
  cases k with
  | zero => exact iff_of_false not_inSection_zero not_inSection_zero
  | succ k => rw [inSection_succ h, inSection_succ h', hsection]

/-- **The look-up of a field.** The value is that of the first line behind the first one, and before
any empty one, that bears the name, and there is none if no line there does. All lines of the head
are scanned for it, whatever their number; but nothing that stands on the first line, on the first
empty one or behind it can make a difference. -/
theorem find?_verdict (head : Bytes) (name : String) :
    (Line.all head).map Line.slice = linesOf head ∧
      (∀ value, find? head name = some value ↔ ∃ k line, InSection head k line ∧
        Bears name line value ∧ ∀ j < k, ∀ l w, InSection head j l → ¬ Bears name l w) ∧
      (find? head name = none ↔
        ∀ k line value, InSection head k line → ¬ Bears name line value) ∧
      ∀ first first' body behind, Byte.lf ∉ first → Byte.lf ∉ first' → Complete body →
        (linesOf behind).head? = some [] → head = first ++ Byte.lf :: (body ++ behind) →
        find? head name = find? (first' ++ Byte.lf :: body) name := by
  refine ⟨Line.map_slice_all head, fun value => find?_eq_some_iff, find?_eq_none_iff, ?_⟩
  rintro first first' body behind hfirst hfirst' hbody hbehind rfl
  exact find?_section hfirst hfirst' hbody hbehind name

/-- The second line has no colon, the third one a blank before its colon, and the value of the
fourth one a colon in it; what stands behind the empty line is no field. -/
theorem find?_verdict_padded :
    let first := Utf8.encode "GET / HTTP/1.1\r"
    let body := Utf8.encode "Upgrade\r\nUpgrade : a\r\nupGRADE: \t b:c \r\n"
    let behind := Utf8.encode "\r\nHost: d"
    find? (first ++ Byte.lf :: (body ++ behind)) "Upgrade" = some (Utf8.encode "b:c") ∧
      find? (first ++ Byte.lf :: (body ++ behind)) "Host" = none := by
  intro first body behind
  have hlast : body.getLast? = some Byte.lf := by decide +kernel
  have hcomplete : Complete body := by
    intro b hb
    rw [hlast] at hb
    cases hb
    rfl
  have hfirst : Byte.lf ∉ first := by decide +kernel
  have hbehind : (linesOf behind).head? = some [] := by decide +kernel
  have hsame := fun name => (find?_verdict _ name).2.2.2 first [] body behind hfirst
    List.not_mem_nil hcomplete hbehind rfl
  rw [hsame, hsame]
  exact ⟨by decide +kernel, by decide +kernel⟩

end Field

end Microweb

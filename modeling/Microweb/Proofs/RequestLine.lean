import Mathlib.Data.List.Basic
import Microweb.Head.Request

/-!
What a request line says, read off its bytes. A line is a cursor into a buffer; the words that are
read off it are described here by the bytes of the line alone (`targetIn`, `pathIn`, `queryIn?`), so
that buffers with the same first line can be compared (`Request.parse_eq`).
-/

namespace Microweb

/-! ### Up to a byte -/

section FindIdx

variable {α : Type} {p : α → Bool} {xs : List α}

theorem takeWhile_of_findIdx?_some {n : Nat} (h : xs.findIdx? p = some n) :
    n < xs.length ∧ xs.takeWhile (fun x => ! p x) = xs.take n := by
  obtain ⟨hlt, hidx⟩ := List.findIdx?_eq_some_iff_findIdx_eq.mp h
  rw [List.takeWhile_eq_take_findIdx_not]
  simp only [Bool.not_not]
  exact ⟨hlt, by rw [hidx]⟩

theorem takeWhile_of_findIdx?_none (h : xs.findIdx? p = none) :
    xs.takeWhile (fun x => ! p x) = xs := by
  have hall := List.findIdx?_eq_none_iff.mp h
  have hidx : xs.findIdx p = xs.length := List.findIdx_eq_length.mpr hall
  rw [List.takeWhile_eq_take_findIdx_not]
  simp only [Bool.not_not]
  rw [hidx, List.take_length]

end FindIdx

namespace Span

variable {s : Span} {n : Nat} (buf : Bytes)

/-- A range is cut out of the front of a buffer as out of the buffer. -/
theorem slice_take (h : s.stop ≤ n) : s.slice (buf.take n) = s.slice buf := by
  rw [slice, slice, List.drop_take, List.take_take, Nat.min_eq_left]
  unfold length
  omega

theorem slice_front (h : n ≤ s.length) :
    slice ⟨s.start, s.start + n⟩ buf = (s.slice buf).take n := by
  simp only [slice, length, List.take_take] at h ⊢
  rw [Nat.min_eq_left h, Nat.add_sub_cancel_left]

theorem slice_behind (n : Nat) : slice ⟨s.start + n, s.stop⟩ buf = (s.slice buf).drop n := by
  simp only [slice, length, List.drop_take, List.drop_drop, Nat.sub_sub]

end Span

namespace Line

variable {l l' : Line} {w : Span} {b : UInt8}

theorem length_slice (h : l.stop ≤ l.buf.length) : l.slice.length = l.stop - l.start :=
  Span.length_slice h

/-- **The next word** of a line goes up to a blank or the end. -/
theorem word?_eq_some (h : l.word? = some (w, l')) (hstop : l.stop ≤ l.buf.length) :
    w.start = l.start ∧ l.start < l.stop ∧ w.stop ≤ l.stop ∧ l'.buf = l.buf ∧ l'.stop = l.stop ∧
      w.slice l.buf = l.slice.takeWhile fun b => ! Byte.isBlank b := by
  unfold word? at h
  split at h
  · cases h
  · split at h
    · next n hfind =>
      obtain ⟨hlt, htake⟩ := takeWhile_of_findIdx?_some hfind
      rw [length_slice hstop] at hlt
      cases h
      exact ⟨rfl, by omega, by dsimp only; omega, rfl, rfl,
        (l.span.slice_front l.buf (Nat.le_of_lt hlt)).trans htake.symm⟩
    · next hfind =>
      cases h
      exact ⟨rfl, by omega, Nat.le_refl _, rfl, rfl, (takeWhile_of_findIdx?_none hfind).symm⟩

/-- What comes before a byte, and the line behind that byte. -/
theorem upTo?_eq_some (h : l.upTo? b = some (w, l')) (hstop : l.stop ≤ l.buf.length) :
    w.start = l.start ∧ w.stop ≤ l.stop ∧ l'.buf = l.buf ∧ l'.stop = l.stop ∧
      ∃ n < l.slice.length, w.slice l.buf = l.slice.take n ∧ l.slice[n]? = some b ∧
        l'.slice = l.slice.drop (n + 1) := by
  unfold upTo? at h
  split at h
  · cases h
  · obtain ⟨n, hfind, heq⟩ := Option.map_eq_some_iff.mp h
    obtain ⟨hlt, -⟩ := takeWhile_of_findIdx?_some hfind
    obtain ⟨_, hbyte, -⟩ := List.findIdx?_eq_some_iff_getElem.mp hfind
    have hget : l.slice[n]? = some b := by
      rw [List.getElem?_eq_getElem hlt]
      exact congrArg some (by simpa using hbyte)
    have hlt' := hlt
    rw [length_slice hstop] at hlt'
    cases heq
    exact ⟨rfl, by dsimp only; omega, rfl, rfl, n, hlt,
      l.span.slice_front l.buf (Nat.le_of_lt hlt'), hget, l.span.slice_behind l.buf (n + 1)⟩

/-! ### A line without what is behind it -/

/-- The line, in the buffer up to its end. -/
def alone (l : Line) : Line := { l with buf := l.buf.take l.stop }

theorem slice_alone (l : Line) : l.alone.slice = l.slice := Span.slice_take l.buf (Nat.le_refl _)

theorem word?_alone (l : Line) : l.alone.word? = l.word?.map fun (w, l) => (w, l.alone) := by
  unfold word?
  rw [slice_alone]
  by_cases h : l.stop ≤ l.start
  · rw [if_pos h]
    exact if_pos h
  · rw [if_neg h]
    refine (if_neg h).trans ?_
    cases l.slice.findIdx? Byte.isBlank <;> rfl

theorem upTo?_alone (b : UInt8) (l : Line) :
    l.alone.upTo? b = (l.upTo? b).map fun (w, l) => (w, l.alone) := by
  unfold upTo?
  rw [slice_alone]
  by_cases h : l.stop ≤ l.start
  · rw [if_pos h]
    exact if_pos h
  · rw [if_neg h, Option.map_map]
    exact if_neg h

end Line

theorem Method.ofBytes_eq_get {bs : Bytes} (h : Method.ofBytes bs = .ok .get) :
    bs = Method.getName := by
  unfold Method.ofBytes at h
  split at h
  · cases h
  · split at h
    · assumption
    · cases h

theorem Method.ofBytes_getName : ofBytes getName = .ok .get := by
  rw [ofBytes, AsciiText.ofBytes?, dif_pos (by decide)]
  rfl

namespace RequestLine

/-! ### The parts of a line -/

/-- The target of a request: the second word of its first line, behind `GET` and a space. -/
def targetIn (line : Bytes) : Bytes := (line.drop 4).takeWhile fun b => ! Byte.isBlank b

/-- The path, still encoded: the target up to its first question mark. -/
def pathIn (line : Bytes) : Bytes := (targetIn line).takeWhile fun b => ! (b == Byte.question)

/-- The query, still encoded: what follows the first question mark. -/
def queryIn? (line : Bytes) : Option Bytes :=
  if Byte.question ∈ targetIn line then some ((targetIn line).drop ((pathIn line).length + 1))
  else none

/-- A target is cut into its path and its query. -/
theorem splitTarget_eq {buf : Bytes} {target : Span} (line : Bytes) (h : target.stop ≤ buf.length)
    (htarget : target.slice buf = targetIn line) :
    (splitTarget buf target).1.slice buf = pathIn line ∧
      (splitTarget buf target).2.map (·.slice buf) = queryIn? line ∧
      (splitTarget buf target).1.start = target.start ∧
      (splitTarget buf target).1.stop ≤ target.stop ∧
      ∀ q ∈ (splitTarget buf target).2, q.stop ≤ target.stop := by
  unfold splitTarget queryIn? pathIn
  split
  · next n hfind =>
    obtain ⟨hlt, htake⟩ := takeWhile_of_findIdx?_some hfind
    obtain ⟨_, hbyte, -⟩ := List.findIdx?_eq_some_iff_getElem.mp hfind
    have hmem : Byte.question ∈ target.slice buf := by
      have hmark := List.getElem_mem hlt
      rwa [show (target.slice buf)[n] = Byte.question by simpa using hbyte] at hmark
    have hn : ((target.slice buf).take n).length = n := by
      rw [List.length_take]
      omega
    have hle : n < target.length := by rwa [← Span.length_slice h]
    rw [← htarget, if_pos hmem, htake, hn]
    refine ⟨target.slice_front buf (Nat.le_of_lt hle), ?_, rfl, ?_, fun q hq => ?_⟩
    · exact congrArg some (target.slice_behind buf (n + 1))
    · unfold Span.length at hle
      dsimp only
      omega
    · cases hq
      exact Nat.le_refl _
  · next hfind =>
    have hnone := takeWhile_of_findIdx?_none hfind
    have hmem : Byte.question ∉ target.slice buf := fun hmem => by
      simpa using List.findIdx?_eq_none_iff.mp hfind _ hmem
    rw [htarget] at hmem hnone
    exact ⟨htarget.trans hnone.symm, (if_neg hmem).symm, rfl, Nat.le_refl _, by simp⟩

/-- How a line may end behind its target: with nothing, or with a version that leaves nothing
over. -/
def EndsIn (l : Line) (v : Version) : Prop :=
  (l.word? = none ∧ v = .oneZero) ∨ ∃ word l', l.word? = some (word, l') ∧
    readVersion? l'.buf word = some v ∧ l'.isEmpty = true

/-- The way to a line that is read: a method, a target whose path is not too long, and a version
that leaves nothing over. -/
theorem parse_eq_ok_iff {l : Line} {maxPath : Nat} {parts : RequestLine} :
    parse l maxPath = .ok parts ↔ ∃ name l₁ target l₂,
      l.upTo? Byte.space = some (name, l₁) ∧ name.slice l₁.buf = Method.getName ∧
      l₁.word? = some (target, l₂) ∧ l₂.buf[target.start]? = some Byte.slash ∧
      (splitTarget l₂.buf target).1.length ≤ maxPath ∧
      (AsciiText.ofBytes? (target.slice l₂.buf)).isSome ∧ EndsIn l₂ parts.version ∧
      parts.method = .get ∧ parts.path = (splitTarget l₂.buf target).1 ∧
      parts.query = (splitTarget l₂.buf target).2 := by
  constructor
  · intro h
    unfold parse at h
    simp only [] at h
    split at h
    · cases h
    · next name l₁ hname =>
      split at h
      · cases h
      · cases h
      · next hget =>
        split at h
        · cases h
        · next target l₂ htarget =>
          refine ⟨name, l₁, target, l₂, hname, Method.ofBytes_eq_get hget, htarget, ?_⟩
          split_ifs at h with hslash hlong hascii
          have hstart := not_not.mp hslash
          have hle := Nat.le_of_not_lt hlong
          have hsome := Option.isSome_iff_ne_none.mpr (mt Option.isNone_iff_eq_none.mpr hascii)
          split at h
          · next hnone =>
            cases h
            exact ⟨hstart, hle, hsome, .inl ⟨hnone, rfl⟩, rfl, rfl, rfl⟩
          · next word l₃ hword =>
            split at h
            · cases h
            · next hversion =>
              split_ifs at h with hempty
              cases h
              exact ⟨hstart, hle, hsome, .inr ⟨word, l₃, hword, hversion, hempty⟩, rfl, rfl, rfl⟩
  · rintro ⟨name, l₁, target, l₂, hname, hget, htarget, hstart, hle, hsome, hends, hmethod, hpath,
      hquery⟩
    obtain ⟨method, path, query, version⟩ := parts
    dsimp only at hends hmethod hpath hquery
    subst hmethod hpath hquery
    have hlong : ¬ maxPath < (splitTarget l₂.buf target).1.length := Nat.not_lt.mpr hle
    have hascii : (AsciiText.ofBytes? (target.slice l₂.buf)).isNone = false :=
      Option.isNone_eq_false_iff.mpr hsome
    rw [parse, hname]
    simp only [hget, Method.ofBytes_getName, htarget, hstart, ne_eq, not_true_eq_false, if_false,
      hlong, hascii, Bool.false_eq_true]
    rcases hends with ⟨hnone, rfl⟩ | ⟨word, l₃, hword, hversion, hempty⟩
    · simp only [hnone]
    · simp only [hword, hversion, hempty, if_true]

/-- **What a line says that is read.** -/
theorem parse_ok {l : Line} {maxPath : Nat} {parts : RequestLine}
    (h : parse l maxPath = .ok parts) (hstop : l.stop ≤ l.buf.length) :
    parts.path.slice l.buf = pathIn l.slice ∧ (pathIn l.slice).length ≤ maxPath ∧
      parts.query.map (·.slice l.buf) = queryIn? l.slice ∧
      parts.path.stop ≤ l.stop ∧ ∀ q ∈ parts.query, q.stop ≤ l.stop := by
  obtain ⟨name, l₁, target, l₂, hname, hget, htarget, -, hlong, -, -, -, hpath, hquery⟩ :=
    parse_eq_ok_iff.mp h
  obtain ⟨-, -, hbuf₁, hstop₁, n, hn, hslice, -, hrest⟩ := Line.upTo?_eq_some hname hstop
  -- the method is `GET`, so that the target starts behind four bytes
  have hthree : n = 3 := by
    have hlen := congrArg List.length hget
    have h3 : Method.getName.length = 3 := rfl
    rw [hbuf₁, hslice, List.length_take] at hlen
    omega
  obtain ⟨-, -, hle, hbuf₂, -, hword⟩ :=
    Line.word?_eq_some htarget (by rw [hstop₁, hbuf₁]; exact hstop)
  rw [hrest, hthree, hbuf₁] at hword
  rw [hbuf₂, hbuf₁] at hlong hpath hquery
  rw [hstop₁] at hle
  have hend := Nat.le_trans hle hstop
  obtain ⟨hpathSlice, hquerySlice, -, hpathStop, hqueryStop⟩ :=
    splitTarget_eq l.slice hend hword
  rw [hpath, hquery]
  refine ⟨hpathSlice, ?_, hquerySlice, Nat.le_trans hpathStop hle,
    fun q hq => Nat.le_trans (hqueryStop q hq) hle⟩
  rwa [← hpathSlice, Span.length_slice (Nat.le_trans hpathStop hend)]

/-- What stands behind a line does not matter. -/
theorem parse_alone (l : Line) (maxPath : Nat) (hstop : l.stop ≤ l.buf.length) :
    parse l.alone maxPath = parse l maxPath := by
  unfold parse
  rw [Line.upTo?_alone]
  cases hname : l.upTo? Byte.space with
  | none => rfl
  | some r =>
    obtain ⟨name, l₁⟩ := r
    obtain ⟨-, hstop₁, hbuf₁, hend₁, -⟩ := Line.upTo?_eq_some hname hstop
    have hname' : name.slice l₁.alone.buf = name.slice l₁.buf :=
      Span.slice_take _ (by rwa [hend₁])
    simp only [Option.map_some, hname']
    cases Method.ofBytes (name.slice l₁.buf) with
    | error e => rfl
    | ok m =>
      cases m with
      | other m => rfl
      | get =>
        simp only []
        rw [Line.word?_alone]
        cases htarget : l₁.word? with
        | none => rfl
        | some r =>
          obtain ⟨target, l₂⟩ := r
          obtain ⟨hstart, hlt, hle, hbuf₂, hend₂, -⟩ :=
            Line.word?_eq_some htarget (by rw [hend₁, hbuf₁]; exact hstop)
          have hslash : l₂.alone.buf[target.start]? = l₂.buf[target.start]? := by
            rw [Line.alone, List.getElem?_take, if_pos (by omega)]
          have htarget' : target.slice l₂.alone.buf = target.slice l₂.buf :=
            Span.slice_take _ (by rwa [hend₂])
          have hsplit : splitTarget l₂.alone.buf target = splitTarget l₂.buf target := by
            rw [splitTarget, htarget', splitTarget]
          simp only [Option.map_some, hslash, htarget', hsplit]
          rw [Line.word?_alone]
          cases hword : l₂.word? with
          | none => rfl
          | some r =>
            obtain ⟨word, l₃⟩ := r
            obtain ⟨-, -, hle₃, hbuf₃, hend₃, -⟩ :=
              Line.word?_eq_some hword (by rw [hend₂, hbuf₂, hend₁, hbuf₁]; exact hstop)
            have hversion : readVersion? l₃.alone.buf word = readVersion? l₃.buf word := by
              have hword' : word.slice l₃.alone.buf = word.slice l₃.buf :=
                Span.slice_take _ (by rwa [hend₃])
              rw [readVersion?, hword', readVersion?]
            have hempty : l₃.alone.isEmpty = l₃.isEmpty := by
              rw [Line.isEmpty, Line.slice_alone, Line.isEmpty]
            simp only [Option.map_some, hversion, hempty]
            rfl

end RequestLine

namespace Request

/-! ### The first line -/

/-- The first line of a head, without its ending. -/
def firstLine (head : Bytes) : Bytes :=
  let line := head.takeWhile fun b => ! (b == Byte.lf)
  if line.getLast? = some Byte.cr then line.dropLast else line

end Request

open Request in
/-- **The line at an index**, as a cursor: it is the first one of what is left of the buffer. -/
theorem Line.at?_of_lt {buf : Bytes} {start : Nat} (h : start < buf.length) :
    let rest := buf.drop start
    at? buf start = some (⟨buf, start, start + (firstLine rest).length⟩,
        (rest.findIdx? (· == Byte.lf)).map (start + · + 1)) ∧
      rest.take (firstLine rest).length = firstLine rest := by
  intro rest
  have hlength : rest.length = buf.length - start := List.length_drop
  have hempty : rest.isEmpty = false := by
    rw [List.isEmpty_eq_false_iff, ← List.length_pos_iff]
    omega
  unfold at?
  simp only [show buf.drop start = rest from rfl, hempty, Bool.false_eq_true, if_false]
  cases hfind : rest.findIdx? (· == Byte.lf) with
  | some n =>
    obtain ⟨hlt, htake⟩ := takeWhile_of_findIdx?_some hfind
    have hlast : (rest.take n).getLast? = some Byte.cr ↔ 0 < n ∧ rest[n - 1]? = some Byte.cr := by
      rw [List.getLast?_take]
      cases n with
      | zero => simp
      | succ k =>
        have hk : k < rest.length := by omega
        simp [List.getElem?_eq_getElem hk]
    simp only [firstLine, htake, hlast]
    split_ifs with hcr
    · have hlen : (rest.take (n - 1)).length = n - 1 := by rw [List.length_take]; omega
      rw [List.dropLast_take hlt, hlen, Nat.add_sub_assoc hcr.1]
      exact ⟨rfl, rfl⟩
    · have hlen : (rest.take n).length = n := by rw [List.length_take]; omega
      rw [hlen]
      exact ⟨rfl, rfl⟩
  | none =>
    have hall := takeWhile_of_findIdx?_none hfind
    simp only [firstLine, hall]
    split_ifs with hcr
    · rw [List.length_dropLast, show start + (rest.length - 1) = buf.length - 1 by omega]
      exact ⟨rfl, List.dropLast_eq_take.symm⟩
    · rw [show start + rest.length = buf.length by omega]
      exact ⟨rfl, List.take_length⟩

namespace Request

/-- **The line that a head starts with**, as a cursor. -/
theorem at?_zero {head : Bytes} (hne : head ≠ []) : ∃ next,
    Line.at? head 0 = some (⟨head, 0, (firstLine head).length⟩, next) ∧
      head.take (firstLine head).length = firstLine head := by
  obtain ⟨hat, htake⟩ := Line.at?_of_lt (List.length_pos_iff.mpr hne)
  rw [List.drop_zero, Nat.zero_add] at hat
  exact ⟨_, hat, htake⟩

/-- **A request is read off its first line**, and keeps the whole head. -/
theorem parse_congr {head head' : Bytes} (hne : head ≠ []) (hne' : head' ≠ [])
    (h : firstLine head' = firstLine head) (maxPath : Nat) :
    parse head' maxPath = (parse head maxPath).map fun r => { r with head := head' } := by
  obtain ⟨next, hat, htake⟩ := at?_zero hne
  obtain ⟨next', hat', htake'⟩ := at?_zero hne'
  rw [h] at hat' htake'
  have hle := congrArg List.length htake
  have hle' := congrArg List.length htake'
  rw [List.length_take] at hle hle'
  -- both lines are the same one, but for what stands behind them
  have hline : RequestLine.parse ⟨head', 0, (firstLine head).length⟩ maxPath =
      RequestLine.parse ⟨head, 0, (firstLine head).length⟩ maxPath := by
    rw [← RequestLine.parse_alone _ _ (by dsimp only; omega),
      ← RequestLine.parse_alone ⟨head, 0, _⟩ _ (by dsimp only; omega)]
    simp only [Line.alone, htake, htake']
  have hslice : ∀ s : Span, s.stop ≤ (firstLine head).length → s.slice head' = s.slice head := by
    intro s hs
    rw [← Span.slice_take head' hs, htake', ← htake, Span.slice_take head hs]
  unfold parse
  rw [hat, hat']
  simp only [hline]
  cases hparse : RequestLine.parse ⟨head, 0, (firstLine head).length⟩ maxPath with
  | error e => rfl
  | ok parts =>
    obtain ⟨-, -, -, hpath, hquery⟩ := RequestLine.parse_ok hparse (by dsimp only; omega)
    simp only [hslice _ hpath]
    cases Percent.decode (parts.path.slice head) with
    | error e => rfl
    | ok uri =>
      cases hq : parts.query with
      | none => rfl
      | some q => simp only [hslice q (hquery q hq), Except.map]

/-- A request has a first line with something on it. -/
theorem firstLine_ne_nil {head : Bytes} {maxPath : Nat} {r : Request}
    (h : parse head maxPath = .ok r) : firstLine head ≠ [] := by
  intro hnil
  have hne : head ≠ [] := by
    rintro rfl
    cases h
  obtain ⟨next, hat, -⟩ := at?_zero hne
  rw [hnil] at hat
  unfold parse at h
  rw [hat] at h
  cases h

/-- **What a request that is read has** of its first line. -/
theorem parse_ok {head : Bytes} {maxPath : Nat} {r : Request} (h : parse head maxPath = .ok r) :
    Percent.decode (RequestLine.pathIn (firstLine head)) = .ok r.uri ∧
      (RequestLine.pathIn (firstLine head)).length ≤ maxPath ∧
      r.query = ((RequestLine.queryIn? (firstLine head)).map Query.parse).getD [] := by
  have hne : head ≠ [] := by
    rintro rfl
    cases h
  obtain ⟨next, hat, htake⟩ := at?_zero hne
  have hle := congrArg List.length htake
  rw [List.length_take] at hle
  have hline : (⟨head, 0, (firstLine head).length⟩ : Line).slice = firstLine head := htake
  unfold parse at h
  rw [hat] at h
  simp only [] at h
  split at h
  · cases h
  · next parts hparse =>
    obtain ⟨hpath, hlong, hquery, -⟩ := RequestLine.parse_ok hparse (by dsimp only; omega)
    rw [hline] at hpath hlong hquery
    simp only [hpath] at h hquery
    split at h
    · cases h
    · next uri hdecode =>
      cases h
      refine ⟨hdecode, hlong, ?_⟩
      rw [← hquery]
      cases parts.query <;> rfl

end Request

end Microweb

import Microweb.Proofs.RequestLine
import Microweb.Proofs.Version

/-!
The grammar of request lines. A line is read if and only if it is written by the grammar: the name
of the method, one space, a target, and an ending that may name the version. The ranges that are
read off it are those of the path and of the query (`RequestLine.parse_exactly`).
-/

namespace Microweb

/-- The first element of a kind, and what stands before and behind it. -/
theorem findIdx?_eq_some_iff_append {α : Type} {p : α → Bool} {xs : List α} {n : Nat} :
    xs.findIdx? p = some n ↔
      ∃ w x rest, xs = w ++ x :: rest ∧ (∀ y ∈ w, p y = false) ∧ p x = true ∧ w.length = n := by
  constructor
  · intro h
    obtain ⟨hlt, htrue, hfalse⟩ := List.findIdx?_eq_some_iff_getElem.mp h
    refine ⟨xs.take n, xs[n], xs.drop (n + 1), ?_, fun y hy => ?_, htrue,
      List.length_take_of_le (Nat.le_of_lt hlt)⟩
    · rw [List.getElem_cons_drop, List.take_append_drop]
    · obtain ⟨i, hi, rfl⟩ := List.mem_take_iff_getElem.mp hy
      exact Bool.eq_false_iff.mpr (hfalse i (by omega))
  · rintro ⟨w, x, rest, rfl, hw, hx, rfl⟩
    rw [List.findIdx?_append, List.findIdx?_eq_none_iff.mpr hw, List.findIdx?_cons, hx]
    simp

namespace Line

variable {l l' : Line} {s : Span} {b : UInt8} {xs rest : Bytes}

/-- The line, moved on to what is left of it. -/
def behind (l : Line) (rest : Bytes) : Line := { l with start := l.stop - rest.length }

theorem slice_behind (h : l.stop ≤ l.buf.length) (hs : l.slice = xs ++ rest) :
    (l.behind rest).slice = rest := by
  have hlen := length_slice h
  rw [hs, List.length_append] at hlen
  by_cases hempty : l.stop ≤ l.start
  · have hnil : rest = [] := List.length_eq_zero_iff.mp (by omega)
    simp [behind, slice, span, Span.slice, Span.length, hnil]
  · have hstart : l.stop - rest.length = l.start + xs.length := by omega
    have hdrop := l.span.slice_behind l.buf xs.length
    rw [behind, hstart]
    exact hdrop.trans ((congrArg (List.drop xs.length) hs).trans List.drop_left)

theorem start_lt_stop (h : l.stop ≤ l.buf.length) (hne : l.slice ≠ []) : ¬ l.stop ≤ l.start := by
  have hlen := length_slice h
  have hpos := List.length_pos_of_ne_nil hne
  omega

/-- The line behind a byte and what stands before it. -/
theorem behind_eq (h : l.stop ≤ l.buf.length) (hs : l.slice = xs ++ b :: rest) :
    { l with start := l.start + xs.length + 1 } = l.behind rest := by
  have hlen := length_slice h
  rw [hs, List.length_append, List.length_cons] at hlen
  rw [behind, show l.stop - rest.length = l.start + xs.length + 1 by omega]

/-- **A byte is found** where the line has it for the first time. -/
theorem upTo?_eq_some_iff (h : l.stop ≤ l.buf.length) : l.upTo? b = some (s, l') ↔
    ∃ w rest, b ∉ w ∧ l.slice = w ++ b :: rest ∧ s = ⟨l.start, l.start + w.length⟩ ∧
      l' = l.behind rest := by
  have hfree : ∀ w : Bytes, (∀ x ∈ w, (x == b) = false) ↔ b ∉ w := fun w => by
    simp only [beq_eq_false_iff_ne]
    exact ⟨fun hw hb => hw b hb rfl, fun hb x hx heq => hb (heq ▸ hx)⟩
  constructor
  · intro hread
    unfold upTo? at hread
    split at hread
    · cases hread
    · obtain ⟨n, hfind, heq⟩ := Option.map_eq_some_iff.mp hread
      obtain ⟨w, x, rest, hs, hw, hx, rfl⟩ := findIdx?_eq_some_iff_append.mp hfind
      obtain rfl := eq_of_beq hx
      cases heq
      exact ⟨w, rest, (hfree w).mp hw, hs, rfl, behind_eq h hs⟩
  · rintro ⟨w, rest, hw, hs, rfl, rfl⟩
    have hfind : l.slice.findIdx? (· == b) = some w.length :=
      findIdx?_eq_some_iff_append.mpr ⟨w, b, rest, hs, (hfree w).mpr hw, beq_self_eq_true b, rfl⟩
    rw [upTo?, if_neg (start_lt_stop h (by simp [hs])), hfind, Option.map_some, behind_eq h hs]

/-- How the next word of a line is parted from what is left: by a blank, or by the end. -/
inductive Parts : Bytes → Bytes → Bytes → Prop
  | blank {w rest : Bytes} {b : UInt8} (hw : ∀ x ∈ w, Byte.isBlank x = false)
      (hb : Byte.isBlank b = true) : Parts (w ++ b :: rest) w rest
  | last {w : Bytes} (hw : ∀ x ∈ w, Byte.isBlank x = false) (hne : w ≠ []) : Parts w w []

theorem word?_eq_none_iff (h : l.stop ≤ l.buf.length) : l.word? = none ↔ l.slice = [] := by
  have hlen := length_slice h
  unfold word?
  rw [← List.length_eq_zero_iff, hlen]
  split
  · exact iff_of_true rfl (by omega)
  · cases l.slice.findIdx? Byte.isBlank <;> simp <;> omega

/-- **A word is read** off a line as it is parted from the rest. -/
theorem word?_eq_some_iff (h : l.stop ≤ l.buf.length) : l.word? = some (s, l') ↔
    ∃ w rest, Parts l.slice w rest ∧ s = ⟨l.start, l.start + w.length⟩ ∧ l' = l.behind rest := by
  have hlen := length_slice h
  constructor
  · intro hread
    unfold word? at hread
    split at hread
    · cases hread
    · split at hread
      · next n hfind =>
        obtain ⟨w, x, rest, hs, hw, hx, rfl⟩ := findIdx?_eq_some_iff_append.mp hfind
        cases hread
        exact ⟨w, rest, hs ▸ .blank hw hx, rfl, behind_eq h hs⟩
      · next hlt hfind =>
        have hne : l.slice ≠ [] := fun hnil => by simp [hnil] at hlen; omega
        cases hread
        refine ⟨l.slice, [], .last (List.findIdx?_eq_none_iff.mp hfind) hne, ?_, rfl⟩
        rw [span, hlen, show l.start + (l.stop - l.start) = l.stop by omega]
  · rintro ⟨w, rest, hparts, rfl, rfl⟩
    generalize hs : l.slice = line at hparts
    cases hparts with
    | blank hw hb =>
      rw [word?, if_neg (start_lt_stop h (by simp [hs])),
        findIdx?_eq_some_iff_append.mpr ⟨w, _, rest, hs, hw, hb, rfl⟩, ← behind_eq h hs]
    | last hw hne =>
      rw [word?, if_neg (start_lt_stop h (by simpa [hs] using hne)), hs,
        List.findIdx?_eq_none_iff.mpr hw]
      rw [hs] at hlen
      have hpos := List.length_pos_of_ne_nil hne
      rw [span, behind, show l.start + w.length = l.stop by omega]
      rfl

theorem Parts.ne_nil {line w : Bytes} (h : Parts line w rest) : line ≠ [] := by
  cases h with
  | blank _ _ => simp
  | last _ hne => exact hne

theorem Parts.exists_append {line w : Bytes} (h : Parts line w rest) :
    ∃ tail, line = w ++ tail := by
  cases h with
  | blank _ _ => exact ⟨_, rfl⟩
  | last _ _ => exact ⟨[], (List.append_nil _).symm⟩

theorem Parts.exists_behind {line w : Bytes} (h : Parts line w rest) : ∃ xs, line = xs ++ rest := by
  cases h with
  | blank _ _ => exact ⟨_, List.append_cons ..⟩
  | last _ _ => exact ⟨_, (List.append_nil _).symm⟩

theorem length_span (l : Line) : l.span.length = l.stop - l.start := rfl

/-- A line starts with a byte that is no blank if its first word does. -/
theorem Parts.head?_eq_some_iff {line w : Bytes} (h : Parts line w rest)
    (hb : Byte.isBlank b = false) : line.head? = some b ↔ w.head? = some b := by
  cases h with
  | blank _ hblank =>
    cases w with
    | nil =>
      rw [List.nil_append, List.head?_cons, List.head?_nil, Option.some_inj]
      refine iff_of_false (fun heq => ?_) (by simp)
      rw [heq, hb] at hblank
      cases hblank
    | cons _ _ => rfl
  | last _ _ => rfl

/-- A range inside a line. -/
def Holds (l : Line) (s : Span) : Prop := l.start ≤ s.start ∧ s.start ≤ s.stop ∧ s.stop ≤ l.stop

/-- **The range of a part of a line**: what stands before it counts its start off. -/
theorem slice_part (h : l.stop ≤ l.buf.length) (front part back : Bytes)
    (hs : l.slice = front ++ (part ++ back)) :
    Span.slice ⟨l.start + front.length, l.start + front.length + part.length⟩ l.buf = part := by
  have hlen := length_slice h
  rw [hs, List.length_append, List.length_append] at hlen
  have hle : part.length ≤ Span.length ⟨l.start + front.length, l.stop⟩ := by
    unfold Span.length
    dsimp only
    omega
  have hbehind := l.span.slice_behind l.buf front.length
  rw [show l.span.slice l.buf = l.slice from rfl, hs, List.drop_left] at hbehind
  refine (Span.slice_front l.buf hle).trans ?_
  rw [show l.stop = l.span.stop from rfl, show l.start = l.span.start from rfl, hbehind,
    List.take_left]

theorem holds_part (h : l.stop ≤ l.buf.length) (front part back : Bytes)
    (hs : l.slice = front ++ (part ++ back)) (hne : l.slice ≠ []) :
    l.Holds ⟨l.start + front.length, l.start + front.length + part.length⟩ := by
  have hlen := length_slice h
  have hlt := start_lt_stop h hne
  rw [hs, List.length_append, List.length_append] at hlen
  refine ⟨?_, ?_, ?_⟩ <;> dsimp only <;> omega

/-- The range of what a line starts with. -/
theorem slice_prefix (h : l.stop ≤ l.buf.length) (hs : l.slice = xs ++ rest) :
    Span.slice ⟨l.start, l.start + xs.length⟩ l.buf = xs :=
  slice_part h [] xs rest hs

theorem getElem?_start (h : l.stop ≤ l.buf.length) (hne : l.slice ≠ []) :
    l.buf[l.start]? = l.slice.head? := by
  have hlt := start_lt_stop h hne
  rw [slice, Span.slice, length_span, List.head?_take, if_neg (by omega), List.head?_drop]
  rfl

end Line

namespace RequestLine

/-! ### The grammar -/

/-- A target: a path, and a query behind a question mark. -/
def target (path : Bytes) : Option Bytes → Bytes
  | none => path
  | some query => path ++ Byte.question :: query

/-- **What a target has to be**, for a bound on its path. The path ends at the first question
mark. -/
structure IsTarget (maxPath : Nat) (path : Bytes) (query : Option Bytes) : Prop where
  slash : (target path query).head? = some Byte.slash
  not_blank : ∀ b ∈ target path query, Byte.isBlank b = false
  ascii : ∀ b ∈ target path query, b < 0x80
  first : Byte.question ∉ path
  short : path.length ≤ maxPath

/-- **What may follow the target**, and the version that it names: the oldest one where there is no
version word. -/
inductive Ending : Bytes → Version → Prop
  | bare : Ending [] .oneZero
  | blank {b : UInt8} (hb : Byte.isBlank b = true) : Ending [b] .oneZero
  | version {b : UInt8} {word : Bytes} {v : Version} (hb : Byte.isBlank b = true)
      (hword : Version.Writes word v) : Ending (b :: word) v
  | trailed {b b' : UInt8} {word : Bytes} {v : Version} (hb : Byte.isBlank b = true)
      (hword : Version.Writes word v) (hb' : Byte.isBlank b' = true) :
      Ending (b :: (word ++ [b'])) v

/-- **The request lines** with a path, a query and a version. -/
inductive Written (maxPath : Nat) : Bytes → Bytes → Option Bytes → Version → Prop
  | intro {path ending : Bytes} {query : Option Bytes} {v : Version}
      (htarget : IsTarget maxPath path query) (hending : Ending ending v) :
      Written maxPath (Method.getName ++ Byte.space :: (target path query ++ ending)) path query v

/-! ### Reading the target -/

section Target

variable {path t : Bytes} {query : Option Bytes}

theorem exists_target (t : Bytes) : ∃ path query, t = target path query ∧ Byte.question ∉ path := by
  by_cases hmark : Byte.question ∈ t
  · obtain ⟨path, query, rfl, hfirst⟩ := List.eq_append_cons_of_mem hmark
    exact ⟨path, some query, rfl, hfirst⟩
  · exact ⟨t, none, rfl, hmark⟩

/-- **A target is cut** at the end of its path. -/
theorem splitTarget_target {buf : Bytes} {start : Nat} (hfirst : Byte.question ∉ path)
    (ht : Span.slice ⟨start, start + (target path query).length⟩ buf = target path query) :
    splitTarget buf ⟨start, start + (target path query).length⟩ =
      (⟨start, start + path.length⟩,
        query.map fun q => ⟨start + path.length + 1, start + path.length + 1 + q.length⟩) := by
  have hfree : ∀ x ∈ path, (x == Byte.question) = false := fun x hx =>
    beq_eq_false_iff_ne.mpr fun heq => hfirst (heq ▸ hx)
  unfold splitTarget
  rw [ht]
  cases query with
  | none => rw [target, List.findIdx?_eq_none_iff.mpr hfree, Option.map_none]
  | some q =>
    have hfind : (target path (some q)).findIdx? (· == Byte.question) = some path.length :=
      findIdx?_eq_some_iff_append.mpr ⟨path, Byte.question, q, rfl, hfree, rfl, rfl⟩
    have hstop : start + (target path (some q)).length = start + path.length + 1 + q.length := by
      rw [target, List.length_append, List.length_cons]
      omega
    rw [hfind, hstop, Option.map_some]

theorem isSome_ofBytes?_iff : (AsciiText.ofBytes? t).isSome ↔ ∀ b ∈ t, b < 0x80 := by
  rw [Option.isSome_iff_ne_none, Ne, AsciiText.ofBytes?_eq_none_iff]
  simp only [not_exists, not_and, UInt8.not_le]

end Target

/-! ### Reading the ending -/

section Ending

variable {l : Line} {v : Version}

/-- What may stand behind the target and a blank: nothing, or one word more. -/
theorem endsIn_iff (h : l.stop ≤ l.buf.length) : EndsIn l v ↔ (l.slice = [] ∧ v = .oneZero) ∨
    ∃ word, Line.Parts l.slice word [] ∧ Version.Writes word v := by
  constructor
  · rintro (⟨hnone, hv⟩ | ⟨s, l', hword, hversion, hempty⟩)
    · exact .inl ⟨(Line.word?_eq_none_iff h).mp hnone, hv⟩
    · obtain ⟨word, rest, hparts, rfl, rfl⟩ := (Line.word?_eq_some_iff h).mp hword
      obtain ⟨tail, htail⟩ := hparts.exists_append
      obtain ⟨xs, hxs⟩ := hparts.exists_behind
      rw [readVersion?_eq_some_iff] at hversion
      rw [Line.isEmpty, Line.slice_behind h hxs, List.isEmpty_iff] at hempty
      exact .inr ⟨word, hempty ▸ hparts, Line.slice_prefix h htail ▸ hversion⟩
  · rintro (⟨hnil, hv⟩ | ⟨word, hparts, hversion⟩)
    · exact .inl ⟨(Line.word?_eq_none_iff h).mpr hnil, hv⟩
    · obtain ⟨tail, htail⟩ := hparts.exists_append
      obtain ⟨xs, hxs⟩ := hparts.exists_behind
      refine .inr ⟨_, _, (Line.word?_eq_some_iff h).mpr ⟨word, [], hparts, rfl, rfl⟩, ?_, ?_⟩
      · exact readVersion?_eq_some_iff.mpr ((Line.slice_prefix h htail).symm ▸ hversion)
      · rw [Line.isEmpty, Line.slice_behind h hxs, List.isEmpty_nil]

theorem ending_cons_iff {b : UInt8} {rest : Bytes} : Ending (b :: rest) v ↔
    Byte.isBlank b = true ∧ ((rest = [] ∧ v = .oneZero) ∨
      ∃ word, Line.Parts rest word [] ∧ Version.Writes word v) := by
  constructor
  · intro h
    cases h with
    | blank hb => exact ⟨hb, .inl ⟨rfl, rfl⟩⟩
    | version hb hword => exact ⟨hb, .inr ⟨rest, .last hword.not_blank hword.ne_nil, hword⟩⟩
    | trailed hb hword hb' => exact ⟨hb, .inr ⟨_, .blank hword.not_blank hb', hword⟩⟩
  · rintro ⟨hb, ⟨rfl, rfl⟩ | ⟨word, hparts, hword⟩⟩
    · exact .blank hb
    · cases hparts with
      | blank _ hb' => exact .trailed hb hword hb'
      | last _ _ => exact .version hb hword

/-- **The target and the ending**: a word that the ending stands behind. -/
theorem parts_endsIn_iff (h : l.stop ≤ l.buf.length) {t : Bytes} (hne : t ≠ []) :
    (∃ rest, Line.Parts l.slice t rest ∧ EndsIn (l.behind rest) v) ↔
      (∀ b ∈ t, Byte.isBlank b = false) ∧ ∃ ending, l.slice = t ++ ending ∧ Ending ending v := by
  constructor
  · rintro ⟨rest, hparts, hends⟩
    obtain ⟨xs, hxs⟩ := hparts.exists_behind
    rw [endsIn_iff (l := l.behind rest) h, Line.slice_behind h hxs] at hends
    generalize l.slice = line at hparts
    cases hparts with
    | blank hw hb => exact ⟨hw, _, rfl, ending_cons_iff.mpr ⟨hb, hends⟩⟩
    | last hw _ =>
      rcases hends with ⟨-, rfl⟩ | ⟨word, hparts, -⟩
      · exact ⟨hw, [], (List.append_nil _).symm, .bare⟩
      · exact absurd rfl hparts.ne_nil
  · rintro ⟨hw, ending, hs, hending⟩
    cases ending with
    | nil =>
      rw [List.append_nil] at hs
      refine ⟨[], by rw [hs]; exact .last hw hne,
        (endsIn_iff (l := l.behind []) h).mpr (.inl ⟨?_, ?_⟩)⟩
      · exact Line.slice_behind h (hs.trans (List.append_nil _).symm)
      · cases hending
        rfl
    | cons b rest =>
      obtain ⟨hb, hrest⟩ := ending_cons_iff.mp hending
      refine ⟨rest, hs ▸ .blank hw hb, (endsIn_iff (l := l.behind rest) h).mpr ?_⟩
      rwa [Line.slice_behind h (hs.trans (List.append_cons ..))]

end Ending

/-! ### Lines -/

/-- The parts of a line that starts at an index, with their ranges. -/
def laidOut (start : Nat) (path : Bytes) (query : Option Bytes) (v : Version) : RequestLine where
  method := .get
  path := ⟨start + 4, start + 4 + path.length⟩
  query := query.map fun q => ⟨start + 4 + path.length + 1, start + 4 + path.length + 1 + q.length⟩
  version := v

/-- **Behind the method**, a target and an ending are read. -/
theorem read_target_iff {l : Line} {maxPath : Nat} {v : Version} {p : Span} {q : Option Span}
    (h : l.stop ≤ l.buf.length) :
    (∃ s l', l.word? = some (s, l') ∧ l'.buf[s.start]? = some Byte.slash ∧
        (splitTarget l'.buf s).1.length ≤ maxPath ∧
        (AsciiText.ofBytes? (s.slice l'.buf)).isSome ∧ EndsIn l' v ∧
        p = (splitTarget l'.buf s).1 ∧ q = (splitTarget l'.buf s).2) ↔
      ∃ path query ending, IsTarget maxPath path query ∧ Ending ending v ∧
        l.slice = target path query ++ ending ∧ p = ⟨l.start, l.start + path.length⟩ ∧
        q = query.map fun q =>
          ⟨l.start + path.length + 1, l.start + path.length + 1 + q.length⟩ := by
  have hlength : ∀ n, Span.length ⟨l.start, l.start + n⟩ = n := fun n => Nat.add_sub_cancel_left ..
  constructor
  · rintro ⟨s, l', hword, hslash, hlong, hascii, hends, rfl, rfl⟩
    obtain ⟨t, rest, hparts, rfl, rfl⟩ := (Line.word?_eq_some_iff h).mp hword
    obtain ⟨tail, htail⟩ := hparts.exists_append
    have ht := Line.slice_prefix h htail
    have hhead : t.head? = some Byte.slash := by
      rw [← hparts.head?_eq_some_iff rfl, ← Line.getElem?_start h hparts.ne_nil]
      exact hslash
    have hne : t ≠ [] := fun hnil => by simp [hnil] at hhead
    obtain ⟨hw, ending, hs, hending⟩ := (parts_endsIn_iff h hne).mp ⟨rest, hparts, hends⟩
    obtain ⟨path, query, rfl, hfirst⟩ := exists_target t
    have hsplit := splitTarget_target hfirst ht
    rw [show (l.behind rest).buf = l.buf from rfl] at *
    rw [hsplit, hlength] at hlong
    rw [ht, isSome_ofBytes?_iff] at hascii
    exact ⟨path, query, ending, ⟨hhead, hw, hascii, hfirst, hlong⟩, hending, hs,
      congrArg Prod.fst hsplit, congrArg Prod.snd hsplit⟩
  · rintro ⟨path, query, ending, htarget, hending, hs, rfl, rfl⟩
    have ht := Line.slice_prefix h hs
    have hhead := htarget.slash
    have hne : target path query ≠ [] := fun hnil => by simp [hnil] at hhead
    obtain ⟨rest, hparts, hends⟩ :=
      (parts_endsIn_iff h hne).mpr ⟨htarget.not_blank, ending, hs, hending⟩
    have hsplit := splitTarget_target htarget.first ht
    refine ⟨_, l.behind rest, (Line.word?_eq_some_iff h).mpr ⟨_, rest, hparts, rfl, rfl⟩, ?_⟩
    rw [show (l.behind rest).buf = l.buf from rfl, hsplit, hlength, ht, isSome_ofBytes?_iff]
    refine ⟨?_, htarget.short, htarget.ascii, hends, rfl, rfl⟩
    rw [Line.getElem?_start h hparts.ne_nil, hparts.head?_eq_some_iff rfl]
    exact hhead

/-- **The lines that are read** are those of the grammar. -/
theorem parse_eq_ok_iff_written {l : Line} {maxPath : Nat} {parts : RequestLine}
    (h : l.stop ≤ l.buf.length) : parse l maxPath = .ok parts ↔
      ∃ path query, Written maxPath l.slice path query parts.version ∧
        parts = laidOut l.start path query parts.version := by
  rw [parse_eq_ok_iff]
  constructor
  · rintro ⟨name, l₁, s, l₂, hname, hget, hword, hslash, hlong, hascii, hends, hmethod, hpath,
      hquery⟩
    obtain ⟨w, rest, -, hs, rfl, rfl⟩ := (Line.upTo?_eq_some_iff h).mp hname
    obtain rfl : w = Method.getName := (Line.slice_prefix h hs).symm.trans hget
    have hrest : (l.behind rest).slice = rest :=
      Line.slice_behind h (hs.trans (List.append_cons ..))
    have hstart : (l.behind rest).start = l.start + 4 :=
      (congrArg Line.start (Line.behind_eq h hs)).symm
    obtain ⟨path, query, ending, htarget, hending, hs', hp, hq⟩ :=
      (read_target_iff (l := l.behind rest) h).mp
        ⟨s, l₂, hword, hslash, hlong, hascii, hends, hpath, hquery⟩
    rw [hstart] at hp hq
    rw [hrest] at hs'
    refine ⟨path, query, ?_, ?_⟩
    · rw [hs, hs']
      exact .intro htarget hending
    · obtain ⟨method, p, q, v⟩ := parts
      subst hmethod hp hq
      rfl
  · rintro ⟨path, query, hwritten, hparts⟩
    generalize hline : l.slice = line at hwritten
    cases hwritten with
    | @intro _ ending _ _ htarget hending =>
      have hrest := Line.slice_behind h (hline.trans (List.append_cons ..))
      have hstart := congrArg Line.start (Line.behind_eq h hline)
      have hname := (Line.upTo?_eq_some_iff h).mpr
        ⟨Method.getName, target path query ++ ending, by decide, hline, rfl, rfl⟩
      obtain ⟨s, l₂, hword, hslash, hlong, hascii, hends, hpath, hquery⟩ :=
        (read_target_iff (l := l.behind (target path query ++ ending)) h).mpr
          ⟨path, query, ending, htarget, hending, hrest, rfl, rfl⟩
      rw [← hstart] at hpath hquery
      exact ⟨_, _, s, l₂, hname, Line.slice_prefix h hline, hword, hslash, hlong, hascii, hends,
        congrArg method hparts, (congrArg RequestLine.path hparts).trans hpath,
        (congrArg RequestLine.query hparts).trans hquery⟩

theorem Written.parse {l : Line} {maxPath : Nat} {path : Bytes} {query : Option Bytes} {v : Version}
    (h : l.stop ≤ l.buf.length) (hw : Written maxPath l.slice path query v) :
    RequestLine.parse l maxPath = .ok (laidOut l.start path query v) :=
  (parse_eq_ok_iff_written h).mpr ⟨path, query, hw, rfl⟩

/-- The ranges of a line of the grammar are those of its path and its query, inside the line. -/
theorem Written.ranges {l : Line} {maxPath : Nat} {path : Bytes} {query : Option Bytes}
    {v : Version} (h : l.stop ≤ l.buf.length) (hw : Written maxPath l.slice path query v) :
    (laidOut l.start path query v).path.slice l.buf = path ∧
      (laidOut l.start path query v).query.map (·.slice l.buf) = query ∧
      l.Holds (laidOut l.start path query v).path ∧
      ∀ q ∈ (laidOut l.start path query v).query, l.Holds q := by
  generalize hline : l.slice = line at hw
  cases hw with
  | @intro _ ending _ _ _ _ =>
    have hne : l.slice ≠ [] := by simp [hline, Method.getName]
    cases query with
    | none =>
      have hpath : l.slice = (Method.getName ++ [Byte.space]) ++ (path ++ ending) := hline
      exact ⟨Line.slice_part h _ path _ hpath, rfl, Line.holds_part h _ path _ hpath hne,
        by simp [laidOut]⟩
    | some q =>
      have hpath : l.slice = (Method.getName ++ [Byte.space]) ++
          (path ++ (Byte.question :: q ++ ending)) := by
        rw [hline, target, List.append_assoc]
        rfl
      have hquery : l.slice = (Method.getName ++ Byte.space :: path ++ [Byte.question]) ++
          (q ++ ending) := by
        rw [hline, target]
        simp
      have hlen : l.start + (Method.getName ++ Byte.space :: path ++ [Byte.question]).length =
          l.start + 4 + path.length + 1 := by
        simp [Method.getName]
        omega
      have hslice := Line.slice_part h _ q _ hquery
      have hholds := Line.holds_part h _ q _ hquery hne
      rw [hlen] at hslice hholds
      refine ⟨Line.slice_part h _ path _ hpath, congrArg some hslice,
        Line.holds_part h _ path _ hpath hne, fun q' hq' => ?_⟩
      cases hq'
      exact hholds

/-- **The lines that are read**, exactly: those of the grammar. The range of the path is that of the
target up to its first question mark, the range of the query is that of what follows it, and there
is none without a question mark. -/
theorem parse_exactly (l : Line) (maxPath : Nat) (h : l.stop ≤ l.buf.length) :
    ((∃ parts, parse l maxPath = .ok parts) ↔
        ∃ path query v, Written maxPath l.slice path query v) ∧
      ∀ parts, parse l maxPath = .ok parts → ∃ path query,
        Written maxPath l.slice path query parts.version ∧
          parts = laidOut l.start path query parts.version ∧
          parts.path.slice l.buf = path ∧ parts.query.map (·.slice l.buf) = query ∧
          l.Holds parts.path ∧ ∀ q ∈ parts.query, l.Holds q := by
  refine ⟨⟨?_, ?_⟩, ?_⟩
  · rintro ⟨parts, hparse⟩
    obtain ⟨path, query, hwritten, -⟩ := (parse_eq_ok_iff_written h).mp hparse
    exact ⟨path, query, parts.version, hwritten⟩
  · rintro ⟨path, query, v, hwritten⟩
    exact ⟨laidOut l.start path query v, hwritten.parse h⟩
  · intro parts hparse
    obtain ⟨path, query, hwritten, hparts⟩ := (parse_eq_ok_iff_written h).mp hparse
    obtain ⟨hpath, hquery, hholds⟩ := hwritten.ranges h
    rw [← hparts] at hpath hquery hholds
    exact ⟨path, query, hwritten, hparts, hpath, hquery, hholds⟩

/-- A line in the middle of a buffer, with a query, a signed version number and a blank at its
end. -/
theorem parse_exactly_middle :
    let l : Line := ⟨Utf8.encode "..GET /a?b HTTP/+1.01\t..", 2, 22⟩
    let parts : RequestLine := ⟨.get, ⟨6, 8⟩, some ⟨9, 10⟩, .oneOne⟩
    l.stop ≤ l.buf.length ∧ parse l 2 = .ok parts ∧
      ∃ path query, Written 2 l.slice path query .oneOne ∧ parts = laidOut 2 path query .oneOne ∧
        parts.path.slice l.buf = path ∧ parts.query.map (·.slice l.buf) = query ∧
        l.Holds parts.path ∧ ∀ q ∈ parts.query, l.Holds q := by
  intro l parts
  have hstop : l.stop ≤ l.buf.length := by decide +kernel
  have hparse : parse l 2 = .ok parts := by decide +kernel
  exact ⟨hstop, hparse, (parse_exactly l 2 hstop).2 parts hparse⟩

end RequestLine

end Microweb

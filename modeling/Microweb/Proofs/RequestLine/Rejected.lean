import Microweb.Proofs.Lines.Tiling
import Microweb.Proofs.RequestLine.Grammar
import Microweb.Proofs.Utf8.Lossy
import Microweb.Server.Client

/-!
The path that is echoed for a head that could not be read. It is cut out of the head by other rules
than the parser's: words end at spaces alone, and lines at line feeds alone. So it is the path of the
target that the parser sees, and behind that what the parser would have stopped at: a tab and what
follows it, or the carriage return of the line's ending (`Client.rejectedPath_verdict`).
-/

namespace Microweb

/-- What is left of a line behind a word starts with a blank, if anything is left. -/
theorem Line.Parts.exists_tail {line word rest : Bytes} (h : Line.Parts line word rest) :
    ∃ tail, line = word ++ tail ∧ (∀ b ∈ word, Byte.isBlank b = false) ∧
      ∀ b ∈ tail.head?, Byte.isBlank b = true := by
  cases h with
  | blank hword hb =>
    refine ⟨_, rfl, hword, fun b' hb' => ?_⟩
    cases hb'
    exact hb
  | last hword _ => exact ⟨[], (List.append_nil _).symm, hword, nofun⟩

theorem Byte.isBlank_iff {b : UInt8} : Byte.isBlank b = true ↔ b = Byte.space ∨ b = Byte.tab := by
  simp [Byte.isBlank]

namespace Request

/-- **The target of a head**, as the parser delimits it: what stands behind a word and one space on
the first line, up to a blank or the end of the line. -/
def target? (head : Bytes) : Option Span := do
  let (line, _) ← Line.at? head 0
  let (name, line) ← line.upTo? Byte.space
  let (target, _) ← line.word?
  if 0 < name.length ∧ 0 < target.length then some target else none

/-- The path of a target: its bytes before the first question mark. -/
def pathAt (head : Bytes) (target : Span) : Bytes :=
  (target.slice head).takeWhile (· != Byte.question)

theorem target?_eq_some_iff {head : Bytes} {target : Span} : target? head = some target ↔
    ∃ line next name l₁ l₂, Line.at? head 0 = some (line, next) ∧
      line.upTo? Byte.space = some (name, l₁) ∧ l₁.word? = some (target, l₂) ∧
      0 < name.length ∧ 0 < target.length := by
  unfold target?
  constructor
  · intro h
    obtain ⟨⟨line, next⟩, hat, h⟩ := Option.bind_eq_some_iff.mp h
    obtain ⟨⟨name, l₁⟩, hname, h⟩ := Option.bind_eq_some_iff.mp h
    obtain ⟨⟨word, l₂⟩, hword, h⟩ := Option.bind_eq_some_iff.mp h
    dsimp only at hname hword h
    split_ifs at h with hpos
    cases h
    exact ⟨line, next, name, l₁, l₂, hat, hname, hword, hpos⟩
  · rintro ⟨line, next, name, l₁, l₂, hat, hname, hword, hpos⟩
    refine Option.bind_eq_some_iff.mpr ⟨_, hat, Option.bind_eq_some_iff.mpr ⟨_, hname,
      Option.bind_eq_some_iff.mpr ⟨_, hword, if_pos hpos⟩⟩⟩

/-! ### A head around its target -/

/-- **A head around its target**: a word and a space, the target, and what the target ends at. -/
structure Around (head : Bytes) (target : Span) (name word rest : Bytes) : Prop where
  head_eq : head = name ++ Byte.space :: (word ++ rest)
  target_eq : target = ⟨name.length + 1, name.length + 1 + word.length⟩
  name_ne_nil : name ≠ []
  word_ne_nil : word ≠ []
  space_not_mem : Byte.space ∉ name
  lf_not_mem : Byte.lf ∉ name ++ word
  not_blank : ∀ b ∈ word, Byte.isBlank b = false
  ends : ∀ b ∈ rest.head?, b = Byte.space ∨ b = Byte.tab ∨ b = Byte.cr ∨ b = Byte.lf

theorem exists_around {head : Bytes} {target : Span} (h : target? head = some target) :
    ∃ name word rest, Around head target name word rest := by
  obtain ⟨line, next, s, l₁, l₂, hat, hname, hword, hspos, htpos⟩ := target?_eq_some_iff.mp h
  have hcuts := Line.cuts_of_at? hat
  obtain ⟨hstart, hbuf, -, hle⟩ := hcuts.inside
  obtain ⟨hhead, hlf, hstop⟩ := hcuts.drop_start
  have hle' : line.stop ≤ line.buf.length := by rwa [hbuf]
  obtain ⟨name, rest, hspace, hs, rfl, rfl⟩ := (Line.upTo?_eq_some_iff hle').mp hname
  obtain ⟨word, left, hparts, rfl, rfl⟩ :=
    (Line.word?_eq_some_iff (l := line.behind rest) hle').mp hword
  rw [Line.slice_behind hle' (hs.trans (List.append_cons ..))] at hparts
  obtain ⟨tail, rfl, hblank, htail⟩ := hparts.exists_tail
  have hbehind : (line.behind (word ++ tail)).start = name.length + 1 := by
    rw [← Line.behind_eq hle' hs, hstart, Nat.zero_add]
  rw [hs] at hhead hlf
  refine ⟨name, word, tail ++ head.drop line.stop, ?_, by rw [hbehind], ?_, ?_, hspace, ?_, hblank,
    ?_⟩
  · rw [← List.drop_zero (l := head)]
    simpa using hhead
  · rintro rfl
    exact absurd hspos (by simp [Span.length])
  · rintro rfl
    exact absurd htpos (by simp [Span.length])
  · intro hmem
    refine hlf ?_
    rcases List.mem_append.mp hmem with hmem | hmem
    · exact List.mem_append_left _ hmem
    · exact List.mem_append_right _ (List.mem_cons_of_mem _ (List.mem_append_left _ hmem))
  · intro b hb
    cases tail with
    | nil => exact .inr (.inr (hstop b hb))
    | cons b' tail =>
      cases hb
      rcases Byte.isBlank_iff.mp (htail _ rfl) with rfl | rfl
      · exact .inl rfl
      · exact .inr (.inl rfl)

namespace Around

variable {head name word rest : Bytes} {target : Span}

theorem slice_eq (h : Around head target name word rest) : target.slice head = word := by
  rw [h.target_eq, h.head_eq, Span.slice, Span.length, Nat.add_sub_cancel_left,
    List.append_cons, List.drop_left' (by simp), List.take_left]

theorem drop_stop (h : Around head target name word rest) : head.drop target.stop = rest := by
  rw [h.target_eq, h.head_eq, List.append_cons, ← List.append_assoc]
  exact List.drop_left' (by simp; omega)

theorem getElem?_stop (h : Around head target name word rest) : head[target.stop]? = rest.head? := by
  rw [← h.drop_stop, List.head?_drop]

theorem stop_le (h : Around head target name word rest) : target.stop ≤ head.length := by
  have hlength := congrArg List.length h.head_eq
  simp only [List.length_append, List.length_cons] at hlength
  rw [h.target_eq]
  dsimp only
  omega

end Around

/-- A target is cut where its path ends. -/
theorem slice_splitTarget {buf : Bytes} {target : Span} (h : target.stop ≤ buf.length) :
    (RequestLine.splitTarget buf target).1.slice buf = pathAt buf target := by
  unfold RequestLine.splitTarget pathAt
  split
  · next n hfind =>
    obtain ⟨hlt, htake⟩ := takeWhile_of_findIdx?_some hfind
    rw [Span.length_slice h] at hlt
    exact (target.slice_front buf (Nat.le_of_lt hlt)).trans htake.symm
  · next hfind => exact (takeWhile_of_findIdx?_none hfind).symm

/-- **The path that a request is made from**, where the head is read, is that of its target. -/
theorem decode_pathAt {head : Bytes} {target : Span} (h : target? head = some target)
    {maxPath : Nat} {r : Request} (hread : parse head maxPath = .ok r) :
    Percent.decode (pathAt head target) = .ok r.uri := by
  obtain ⟨name, word, rest, haround⟩ := exists_around h
  obtain ⟨line, next, s, l₁, l₂, hat, hname, hword, -⟩ := target?_eq_some_iff.mp h
  unfold parse at hread
  rw [hat] at hread
  dsimp only at hread
  split at hread
  · cases hread
  · next parts hparse =>
    obtain ⟨s', l₁', target', l₂', hname', -, hword', -, -, -, -, -, hpath, -⟩ :=
      RequestLine.parse_eq_ok_iff.mp hparse
    rw [hname] at hname'
    cases hname'
    rw [hword] at hword'
    cases hword'
    have hbuf : l₂.buf = head := by
      obtain ⟨-, hbuf, -, hle⟩ := (Line.cuts_of_at? hat).inside
      obtain ⟨-, -, hbuf₁, hstop₁, -⟩ := Line.upTo?_eq_some hname (by rwa [hbuf])
      obtain ⟨-, -, -, hbuf₂, -⟩ := Line.word?_eq_some hword (by rwa [hbuf₁, hstop₁, hbuf])
      rw [hbuf₂, hbuf₁, hbuf]
    rw [hpath, hbuf, slice_splitTarget haround.stop_le] at hread
    split at hread
    · cases hread
    · next uri hdecode =>
      cases hread
      exact hdecode

end Request

/-! ### What is echoed -/

theorem takeWhile_append_of_not_mem {b : UInt8} {xs : Bytes} (h : b ∉ xs) (ys : Bytes) :
    (xs ++ ys).takeWhile (· != b) = xs ++ ys.takeWhile (· != b) := by
  refine List.takeWhile_append_of_pos fun x hx => ?_
  exact bne_iff_ne.mpr fun heq => h (heq ▸ hx)

/-- **The second of the words** that spaces part. -/
theorem second_word {name word more : Bytes} (hname : name ≠ []) (hspace : Byte.space ∉ name)
    (hword : word ≠ []) (hword' : Byte.space ∉ word) :
    (((name ++ Byte.space :: (word ++ more)).splitOn Byte.space).filter
      fun w => ! w.isEmpty).getD 1 [] = word ++ more.takeWhile (· != Byte.space) := by
  rw [List.splitOn_append_cons_self_of_not_mem hspace]
  by_cases hmem : Byte.space ∈ more
  · obtain ⟨front, back, rfl, hfront⟩ := List.eq_append_cons_of_mem hmem
    have hfirst : Byte.space ∉ word ++ front := by simp [hword', hfront]
    rw [← List.append_assoc, List.splitOn_append_cons_self_of_not_mem hfirst,
      takeWhile_append_of_not_mem hfront]
    simp [hname, hword]
  · have hall : Byte.space ∉ word ++ more := by simp [hword', hmem]
    have htake : more.takeWhile (· != Byte.space) = more := by
      simpa using takeWhile_append_of_not_mem hmem []
    rw [List.splitOn_eq_singleton hall, htake]
    simp [hname, hword]

namespace Client

open Request

/-- What an echoed path takes in behind its target: all up to a space, a question mark or the line
feed, but nothing if the target has a question mark. -/
def overrun (head : Bytes) (target : Span) : Bytes :=
  if Byte.question ∈ target.slice head then []
  else (head.drop target.stop).takeWhile fun b =>
    b != Byte.lf && b != Byte.space && b != Byte.question

section Around

variable {head name word rest : Bytes} {target : Span}

/-- **What is echoed**: the path of the target, and what is taken in behind the target. -/
theorem rejectedPath_eq (h : Around head target name word rest) :
    rejectedPath head = Utf8.decodeLossy (pathAt head target ++ overrun head target) := by
  have hspace : Byte.space ∉ word := fun hmem => by
    simpa [Byte.isBlank] using h.not_blank _ hmem
  have hline : head.takeWhile (· != Byte.lf) =
      name ++ Byte.space :: (word ++ rest.takeWhile (· != Byte.lf)) := by
    have hfree : Byte.lf ∉ name ++ Byte.space :: word := by
      have hlf := h.lf_not_mem
      simp only [List.mem_append, List.mem_cons, not_or] at hlf ⊢
      exact ⟨hlf.1, by decide, hlf.2⟩
    have hhead : head = (name ++ Byte.space :: word) ++ rest := by simp [h.head_eq]
    rw [hhead, takeWhile_append_of_not_mem hfree]
    simp
  have hpath : (word ++ (rest.takeWhile (· != Byte.lf)).takeWhile (· != Byte.space)).takeWhile
      (· != Byte.question) = pathAt head target ++ overrun head target := by
    unfold pathAt overrun
    rw [h.slice_eq, h.drop_stop]
    by_cases hmark : Byte.question ∈ word
    · obtain ⟨path, query, rfl, hfirst⟩ := List.eq_append_cons_of_mem hmark
      rw [if_pos hmark, List.append_assoc, takeWhile_append_of_not_mem hfirst,
        takeWhile_append_of_not_mem hfirst]
      simp
    · have hword : word.takeWhile (· != Byte.question) = word := by
        simpa using takeWhile_append_of_not_mem hmark []
      rw [if_neg hmark, takeWhile_append_of_not_mem hmark, hword, List.takeWhile_takeWhile,
        List.takeWhile_takeWhile]
      congr 2
      funext b
      rw [Bool.eq_iff_iff]
      simp only [decide_eq_true_eq, Bool.and_eq_true]
      tauto
  unfold rejectedPath
  simp only [hline]
  rw [second_word h.name_ne_nil h.space_not_mem h.word_ne_nil hspace, hpath]

/-- Where nothing is taken in, and what is otherwise: a tab or a carriage return comes first. -/
theorem overrun_cases (h : Around head target name word rest) :
    (overrun head target = [] ∧
        (Byte.question ∈ word ∨ ∀ b ∈ rest.head?, b ≠ Byte.tab ∧ b ≠ Byte.cr)) ∨
      ∃ b more, overrun head target = b :: more ∧ b < 0x80 ∧ Byte.question ∉ word ∧
        b ∈ rest.head? ∧ (b = Byte.tab ∨ b = Byte.cr) := by
  unfold overrun
  rw [h.slice_eq, h.drop_stop]
  by_cases hmark : Byte.question ∈ word
  · exact .inl ⟨if_pos hmark, .inl hmark⟩
  · rw [if_neg hmark]
    have hends := h.ends
    cases rest with
    | nil => exact .inl ⟨rfl, .inr nofun⟩
    | cons b rest =>
      have hhead : ∀ b', b ≠ Byte.tab ∧ b ≠ Byte.cr → b' ∈ (b :: rest).head? →
          b' ≠ Byte.tab ∧ b' ≠ Byte.cr := by
        intro b' hb hb'
        cases hb'
        exact hb
      rcases hends b rfl with rfl | rfl | rfl | rfl
      · exact .inl ⟨rfl, .inr fun b' => hhead b' (by decide)⟩
      · exact .inr ⟨Byte.tab, _, rfl, by decide, hmark, rfl, .inl rfl⟩
      · exact .inr ⟨Byte.cr, _, rfl, by decide, hmark, rfl, .inr rfl⟩
      · exact .inl ⟨rfl, .inr fun b' => hhead b' (by decide)⟩

end Around

/-- **The path that is echoed** for a head with a target. It is the text of the target's path, which
is the path that a request is made from where the head is read, exactly if the target has a question
mark or ends neither at a tab nor at a carriage return. In any case it starts with that text, and
what follows is the text of what is taken in. It holds no line feed. -/
theorem rejectedPath_verdict {head : Bytes} {target : Span} (h : target? head = some target) :
    (rejectedPath head = Utf8.decodeLossy (pathAt head target) ↔
        Byte.question ∈ target.slice head ∨
          ∀ b ∈ head[target.stop]?, b ≠ Byte.tab ∧ b ≠ Byte.cr) ∧
      rejectedPath head =
        Utf8.decodeLossy (pathAt head target) ++ Utf8.decodeLossy (overrun head target) ∧
      '\n' ∉ (rejectedPath head).toList ∧
      ∀ maxPath r, parse head maxPath = .ok r → Percent.decode (pathAt head target) = .ok r.uri := by
  obtain ⟨name, word, rest, haround⟩ := exists_around h
  have hlf : '\n' ∉ (rejectedPath head).toList := by
    intro hmem
    rw [rejectedPath_eq haround] at hmem
    rcases List.mem_append.mp (Utf8.mem_of_mem_decodeLossy (by decide) hmem) with hpath | hover
    · rw [pathAt, haround.slice_eq] at hpath
      exact haround.lf_not_mem (List.mem_append_right _ ((List.takeWhile_sublist _).subset hpath))
    · unfold overrun at hover
      split_ifs at hover
      · cases hover
      · simpa using List.mem_takeWhile_imp hover
  rw [haround.slice_eq, haround.getElem?_stop]
  rcases overrun_cases haround with ⟨hnil, hexact⟩ | ⟨b, more, hcons, hascii, hmark, hb, hstop⟩
  · have hpath : rejectedPath head = Utf8.decodeLossy (pathAt head target) := by
      rw [rejectedPath_eq haround, hnil, List.append_nil]
    refine ⟨iff_of_true hpath hexact, ?_, hlf, fun _ _ => decode_pathAt h⟩
    rw [hpath, hnil]
    exact (String.append_empty).symm
  · -- the first byte that is taken in is an ASCII one, at which the text can be parted
    have hover : Utf8.decodeLossy (overrun head target) =
        String.singleton (Char.ofNat b.toNat) ++ Utf8.decodeLossy more := by
      rw [hcons]
      exact Utf8.decodeLossy_append_ascii [] more hascii
    have hpath : rejectedPath head =
        Utf8.decodeLossy (pathAt head target) ++ Utf8.decodeLossy (overrun head target) := by
      rw [rejectedPath_eq haround, hover, hcons, Utf8.decodeLossy_append_ascii _ _ hascii,
        String.append_assoc]
    refine ⟨iff_of_false ?_ ?_, hpath, hlf, fun _ _ => decode_pathAt h⟩
    · intro heq
      rw [hpath, String.append_eq_left_iff, hover] at heq
      simpa using congrArg String.length heq
    · rintro (hmem | hall)
      · exact hmark hmem
      · rcases hstop with rfl | rfl
        · exact (hall _ hb).1 rfl
        · exact (hall _ hb).2 rfl

/-- The echo of a head, if it is rejected, is the text of the path of its target. -/
def EchoesPath (head : Bytes) : Prop := ∀ maxPath e target, parse head maxPath = .error e →
  target? head = some target → rejectedPath head = Utf8.decodeLossy (pathAt head target)

/-- A carriage return is echoed where the target ends its line, and a tab with what follows it where
the target ends at a tab. -/
theorem not_echoesPath : ¬ EchoesPath (Utf8.encode "POST /form\r\n") ∧
    ¬ EchoesPath (Utf8.encode "GET /form\tHTTP/1.1 now\r\n") := by
  constructor
  · intro h
    have hecho := h 64 ⟨.unsupportedMethod (.other ⟨Utf8.encode "POST", by decide⟩), .startLine, 0⟩
      ⟨5, 10⟩ (by decide +kernel) (by decide +kernel)
    revert hecho
    decide +kernel
  · intro h
    have hecho := h 64 ⟨.malformedRequestLine, .startLine, 19⟩ ⟨4, 9⟩ (by decide +kernel)
      (by decide +kernel)
    revert hecho
    decide +kernel

/-- A path that ends inside a character, with the carriage return that is taken in behind it. -/
theorem rejectedPath_verdict_cut :
    let head := Utf8.encode "PUT /" ++ [0xC3] ++ Utf8.encode "\r\n"
    target? head = some ⟨4, 6⟩ ∧ rejectedPath head ≠ "/\uFFFD" ∧ rejectedPath head = "/\uFFFD\r" ∧
      '\n' ∉ (rejectedPath head).toList := by
  intro head
  have htarget : target? head = some ⟨4, 6⟩ := by decide +kernel
  have hpath : Utf8.decodeLossy (pathAt head ⟨4, 6⟩) = "/\uFFFD" := by decide +kernel
  have hover : Utf8.decodeLossy (overrun head ⟨4, 6⟩) = "\r" := by decide +kernel
  have hstop : ¬ (Byte.question ∈ Span.slice ⟨4, 6⟩ head ∨
      ∀ b ∈ head[(⟨4, 6⟩ : Span).stop]?, b ≠ Byte.tab ∧ b ≠ Byte.cr) := by decide +kernel
  obtain ⟨hexact, hecho, hlf, -⟩ := rejectedPath_verdict htarget
  rw [hpath] at hexact hecho
  rw [hover] at hecho
  exact ⟨htarget, fun heq => hstop (hexact.mp heq), hecho, hlf⟩

end Client

end Microweb

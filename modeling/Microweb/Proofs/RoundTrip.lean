import Microweb.Bench.Browser
import Microweb.Proofs.Percent
import Microweb.Proofs.RequestLine.Grammar
import Microweb.Proofs.Suffix

/-!
A request that a browser writes is read back. The target of the request is any spelling of a path
and of pairs of a name and a value; what is read is the path, the pairs in their order, and the
suffix of the path (`Request.parse_getRequest`).
-/

namespace Microweb

open Percent (Spells Literal)

/-! ### Targets -/

/-- **The spellings of a target**: a path that starts with a slash in plain, and a query if there
are pairs. -/
structure SpellsTarget (p : String) (pairs : Query) (path : Bytes) (query : Option Bytes) :
    Prop where
  spells : Spells (Literal [Byte.question]) (Utf8.encode p) path
  slash : path.head? = some Byte.slash
  /-- Without pairs, the question mark may be missing. -/
  asks : match query with
    | none => pairs = []
    | some raw => Query.SpellsQuery pairs raw

namespace SpellsTarget

variable {p : String} {pairs : Query} {path : Bytes} {query : Option Bytes} {maxPath : Nat}

theorem parse_query (h : SpellsTarget p pairs path query) :
    (query.map Query.parse).getD [] = pairs := by
  cases query with
  | none => exact h.asks.symm
  | some raw => exact Query.parse_spelling h.asks

/-- The bytes of a target. -/
theorem forall_mem {q : UInt8 → Prop} (h : SpellsTarget p pairs path query)
    (hplain : ∀ delimiters b, Literal delimiters b → q b)
    (hother : ∀ b ∈ [Byte.percent, Byte.question, Byte.ampersand, Byte.equals], q b)
    (hhex : ∀ d ∈ Percent.hexDigits, q d) : ∀ b ∈ RequestLine.target path query, q b := by
  simp only [List.forall_mem_cons] at hother
  obtain ⟨hpercent, hquestion, hampersand, hequals, -⟩ := hother
  have hpath := h.spells.forall_mem (hplain _) hpercent hhex
  cases query with
  | none => exact hpath
  | some raw =>
    exact List.forall_mem_append.mpr ⟨hpath, List.forall_mem_cons.mpr ⟨hquestion,
      Query.SpellsQuery.forall_mem h.asks (hplain _) hpercent hampersand hequals hhex⟩⟩

theorem isTarget (h : SpellsTarget p pairs path query) (hlong : path.length ≤ maxPath) :
    RequestLine.IsTarget maxPath path query where
  slash := by
    have hslash := h.slash
    cases query with
    | none => exact hslash
    | some raw =>
      obtain ⟨rest, rfl⟩ := List.head?_eq_some_iff.mp hslash
      rfl
  not_blank := h.forall_mem (fun _ _ hb => by simp [Byte.isBlank, hb.not_space, hb.not_tab])
    (by decide +kernel) (by decide +kernel)
  ascii := h.forall_mem (fun _ _ hb => hb.ascii) (by decide +kernel) (by decide +kernel)
  first hmem := h.spells.forall_mem (p := fun b => b ≠ Byte.question)
    (fun _ hb heq => hb.not_delimiter (List.mem_singleton.mpr heq)) (by decide) (by decide +kernel)
    _ hmem rfl
  short := hlong

theorem not_mem_lf (h : SpellsTarget p pairs path query) :
    Byte.lf ∉ RequestLine.target path query := fun hmem =>
  h.forall_mem (q := fun b => b ≠ Byte.lf) (fun _ _ hb => hb.not_lf) (by decide +kernel)
    (by decide +kernel) _ hmem rfl

end SpellsTarget

/-! ### Requests -/

namespace Request

theorem firstLine_crlf {line rest : Bytes} (h : Byte.lf ∉ line) :
    firstLine (line ++ Byte.cr :: Byte.lf :: rest) = line := by
  have hfree : ∀ b ∈ line, (! (b == Byte.lf)) = true := fun b hb => by
    simpa using fun heq : b = Byte.lf => h (heq ▸ hb)
  have hline : (line ++ Byte.cr :: Byte.lf :: rest).takeWhile (fun b => ! (b == Byte.lf)) =
      line ++ [Byte.cr] := by
    rw [List.takeWhile_append_of_pos hfree]
    rfl
  rw [firstLine, hline]
  simp

/-- **A head is read** if its first line is written by the grammar and the path can be decoded. -/
theorem parse_of_written {head path : Bytes} {query : Option Bytes} {v : Version} {maxPath : Nat}
    {uri : String} (hw : RequestLine.Written maxPath (firstLine head) path query v)
    (hdecode : Percent.decode path = .ok uri) :
    parse head maxPath = .ok ⟨.get, uri, Content.suffix? uri,
      (query.map Query.parse).getD [], v, head⟩ := by
  have hne : head ≠ [] := by
    rintro rfl
    cases hw
  obtain ⟨next, hat, htake⟩ := at?_zero hne
  have hle := congrArg List.length htake
  rw [List.length_take] at hle
  let line : Line := ⟨head, 0, (firstLine head).length⟩
  have hstop : line.stop ≤ line.buf.length := by
    show (firstLine head).length ≤ head.length
    omega
  have hslice : line.slice = firstLine head := htake
  rw [← hslice] at hw
  have hparse := hw.parse hstop
  obtain ⟨hpath, hquery, -⟩ := hw.ranges hstop
  unfold parse
  rw [hat]
  simp only [line] at hparse hpath hquery
  simp only [hparse, hpath, hdecode]
  cases query with
  | none => rfl
  | some q =>
    have hq := Option.some_inj.mp hquery
    exact congrArg (fun raw => Except.ok (Request.mk _ _ _ (Query.parse raw) _ _)) hq

/-! ### What a browser writes -/

/-- The text of a target, by its bytes. -/
def targetText (path : Bytes) (query : Option Bytes) : String :=
  String.ofList (asciiChars (RequestLine.target path query))

theorem encode_asciiChars {bs : Bytes} (h : ∀ b ∈ bs, b < 0x80) :
    Utf8.encode (String.ofList (asciiChars bs)) = bs := by
  rw [Utf8.encode, String.toList_ofList]
  induction bs with
  | nil => rfl
  | cons b bs ih =>
    obtain ⟨hb, hbs⟩ := List.forall_mem_cons.mp h
    have hchar : String.utf8EncodeChar (Char.ofNat b.toNat) = [b] := by
      have hval : (Char.ofNat b.toNat).val.toNat = b.toNat := toNat_ofNat_byte b
      have hle : b.toNat ≤ 127 := Nat.le_of_lt_succ (UInt8.lt_iff_toNat_lt.mp hb)
      rw [String.utf8EncodeChar, hval, if_pos hle, UInt8.ofNat_toNat]
    rw [asciiChars, List.map_cons, List.flatMap_cons, hchar]
    exact congrArg (b :: ·) (ih hbs)

theorem writes_oneOne : Version.Writes (Utf8.encode "HTTP/1.1") .oneOne := by
  have hone : WritesByte [0x31] 1 := .plain (by decide) (by decide +kernel) (by decide)
  exact Version.Writes.intro (v := .oneOne) hone hone

/-- The first line of what a browser writes. -/
theorem firstLine_getRequest {target : String} (h : Byte.lf ∉ Utf8.encode target) :
    firstLine (Bench.getRequest target) = Method.getName ++
      Byte.space :: (Utf8.encode target ++ Byte.space :: Utf8.encode "HTTP/1.1") := by
  have hget : Utf8.encode "GET " = Method.getName ++ [Byte.space] := by decide +kernel
  have hversion : Utf8.encode " HTTP/1.1" = Byte.space :: Utf8.encode "HTTP/1.1" := by
    decide +kernel
  have hend : Utf8.encode "\r\n" = [Byte.cr, Byte.lf] := by decide +kernel
  have hrequest : Bench.getRequest target = (Method.getName ++
      Byte.space :: (Utf8.encode target ++ Byte.space :: Utf8.encode "HTTP/1.1")) ++
        Byte.cr :: Byte.lf :: Utf8.encode (Bench.lineOf "Host: board" ++ Bench.lineOf "") := by
    simp only [Bench.getRequest, Bench.lineOf, Utf8.encode_append, hget, hversion, hend,
      List.append_assoc, List.cons_append, List.nil_append]
  rw [hrequest, firstLine_crlf]
  simp only [List.mem_append, List.mem_cons, h, not_or, false_or]
  decide +kernel

/-- **A request is read back** as it was meant: the path, the pairs in their order, the version, and
as the suffix, in lower case, what follows the first dot of the last segment of the path. -/
theorem parse_getRequest {p : String} {pairs : Query} {path : Bytes} {query : Option Bytes}
    {maxPath : Nat} (h : SpellsTarget p pairs path query) (hlong : path.length ≤ maxPath) :
    ∃ suffix, parse (Bench.getRequest (targetText path query)) maxPath =
        .ok ⟨.get, p, suffix, pairs, .oneOne, Bench.getRequest (targetText path query)⟩ ∧
      ∀ s, suffix = some s ↔ ∃ ext, Content.HasSuffix p.toList ext ∧ ext ≠ [] ∧
        s = String.ofList (ext.map Char.toLower) := by
  have htarget := h.isTarget hlong
  have hencode : Utf8.encode (targetText path query) = RequestLine.target path query :=
    encode_asciiChars htarget.ascii
  have hline := firstLine_getRequest (hencode ▸ h.not_mem_lf)
  rw [hencode] at hline
  have hw : RequestLine.Written maxPath (firstLine (Bench.getRequest (targetText path query))) path
      query .oneOne :=
    hline ▸ .intro htarget (.version (by decide) writes_oneOne)
  refine ⟨Content.suffix? p, ?_, fun s => Content.suffix?_eq_some_iff⟩
  rw [parse_of_written hw (Percent.decode_spelling h.spells), h.parse_query]

/-- A path and a pair, with escapes of either case and an equals sign in the value. -/
theorem parse_getRequest_escaped :
    let path := Utf8.encode "/%c3%A9.L"
    let query := some (Utf8.encode "k%26==1")
    SpellsTarget "/é.L" [⟨"k&", "=1"⟩] path query ∧ path.length ≤ 9 ∧
      parse (Bench.getRequest "/%c3%A9.L?k%26==1") 9 =
        .ok ⟨.get, "/é.L", some "l", [⟨"k&", "=1"⟩], .oneOne,
          Bench.getRequest "/%c3%A9.L?k%26==1"⟩ := by
  intro path query
  have hpath : Spells (Literal [Byte.question]) (Utf8.encode "/é.L") path :=
    .literal (by decide) <|
      .escaped (.lower (n := 2) (by decide)) (.decimal (n := 3) (by decide)) <|
      .escaped (.upper (n := 0) (by decide)) (.decimal (n := 9) (by decide)) <|
      .literal (by decide) <| .literal (by decide) .nil
  have hname : Spells (Literal [Byte.ampersand, Byte.equals]) (Utf8.encode "k&")
      (Utf8.encode "k%26") :=
    .literal (by decide) <|
      .escaped (.decimal (n := 2) (by decide)) (.decimal (n := 6) (by decide)) .nil
  have hvalue : Spells (Literal [Byte.ampersand]) (Utf8.encode "=1") (Utf8.encode "=1") :=
    .literal (by decide) <| .literal (by decide) .nil
  have hquery : Query.SpellsQuery [⟨"k&", "=1"⟩] (Utf8.encode "k%26==1") :=
    .intro (.cons (.intro (p := ⟨"k&", "=1"⟩) (by decide) hname hvalue) .nil)
  have h : SpellsTarget "/é.L" [⟨"k&", "=1"⟩] path query := ⟨hpath, by decide +kernel, hquery⟩
  have hlong : path.length ≤ 9 := by decide +kernel
  have htext : targetText path query = "/%c3%A9.L?k%26==1" := by decide +kernel
  obtain ⟨suffix, hparse, hsuffix⟩ := parse_getRequest h hlong
  have hl : suffix = some "l" := (hsuffix "l").mpr
    ⟨['L'], ⟨['/'], ['é'], by decide +kernel, .inr rfl, by decide, by decide⟩, by decide,
      by decide +kernel⟩
  rw [htext, hl] at hparse
  exact ⟨h, hlong, hparse⟩

end Request

end Microweb

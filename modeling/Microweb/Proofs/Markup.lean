import Microweb.Proofs.Heads
import Microweb.Reply.NotFound

/-!
The page for what is not there, whatever address it shows. Escaping leaves nothing of an address that
could be read as markup, and loses nothing of it (`Reply.shown_escapeMarkup`); the page is what was
announced for it (`Reply.notFound_intact`).
-/

namespace Microweb.Reply

/-! ### Entities -/

/-- The characters that markup is made of. -/
def isMarkup (c : Char) : Bool := c == '<' || c == '>' || c == '"'

/-- The markup of a text. -/
def markup (s : String) : List Char := s.toList.filter isMarkup

theorem markup_append (s t : String) : markup (s ++ t) = markup s ++ markup t := by
  rw [markup, String.toList_append, List.filter_append, markup, markup]

/-- The entities that addresses are escaped with. -/
def entities : List (List Char) :=
  [['&', 'l', 't', ';'], ['&', 'g', 't', ';'], ['&', 'a', 'm', 'p', ';'],
    ['&', 'q', 'u', 'o', 't', ';']]

/-- What a reader of a page is shown: each entity stands for its character. -/
def shown : List Char → List Char
  | '&' :: 'l' :: 't' :: ';' :: r => '<' :: shown r
  | '&' :: 'g' :: 't' :: ';' :: r => '>' :: shown r
  | '&' :: 'a' :: 'm' :: 'p' :: ';' :: r => '&' :: shown r
  | '&' :: 'q' :: 'u' :: 'o' :: 't' :: ';' :: r => '"' :: shown r
  | c :: r => c :: shown r
  | [] => []

theorem shown_cons {c : Char} (h : c ≠ '&') (r : List Char) : shown (c :: r) = c :: shown r := by
  rw [shown] <;> simp [h]

/-- How a character is escaped: by an entity that shows it, or not at all. -/
theorem escapeChar_cases (c : Char) :
    (escapeChar c ∈ entities ∧ ∀ r, shown (escapeChar c ++ r) = c :: shown r) ∨
      (escapeChar c = [c] ∧ c ≠ '&' ∧ isMarkup c = false) := by
  by_cases hlt : c = '<'
  · subst hlt
    exact .inl ⟨by decide, fun r => rfl⟩
  by_cases hgt : c = '>'
  · subst hgt
    exact .inl ⟨by decide, fun r => rfl⟩
  by_cases hamp : c = '&'
  · subst hamp
    exact .inl ⟨by decide, fun r => rfl⟩
  by_cases hquot : c = '"'
  · subst hquot
    exact .inl ⟨by decide, fun r => rfl⟩
  · right
    simp [escapeChar, entity?, isMarkup, hlt, hgt, hamp, hquot]

/-- An entity has no markup in it, and its ampersand is at its start alone. -/
theorem entity_chars : ∀ e ∈ entities, (∀ c ∈ e, isMarkup c = false) ∧ e.head? = some '&' ∧
    '&' ∉ e.tail := by
  simp [entities, isMarkup]

/-! ### Escaped texts -/

/-- **What was escaped is shown**, whatever entities it had in it itself. -/
theorem shown_escapeMarkup (s : String) : shown (escapeMarkup s).toList = s.toList := by
  rw [escapeMarkup, String.toList_ofList]
  induction s.toList with
  | nil => rfl
  | cons c cs ih =>
    rw [List.flatMap_cons]
    rcases escapeChar_cases c with ⟨-, hshown⟩ | ⟨hself, hamp, -⟩
    · rw [hshown, ih]
    · rw [hself, List.singleton_append, shown_cons hamp, ih]

theorem escapeMarkup_injective {s t : String} (h : escapeMarkup s = escapeMarkup t) : s = t := by
  apply String.toList_injective
  rw [← shown_escapeMarkup, h, shown_escapeMarkup]

/-- **No markup** is left in a text that was escaped. -/
theorem isMarkup_escapeMarkup {s : String} {c : Char} (h : c ∈ (escapeMarkup s).toList) :
    isMarkup c = false := by
  rw [escapeMarkup, String.toList_ofList, List.mem_flatMap] at h
  obtain ⟨d, -, hc⟩ := h
  rcases escapeChar_cases d with ⟨hentity, -⟩ | ⟨hself, -, hmarkup⟩
  · exact (entity_chars _ hentity).1 c hc
  · rw [hself, List.mem_singleton] at hc
    rwa [hc]

theorem markup_escapeMarkup (s : String) : markup (escapeMarkup s) = [] := by
  rw [markup, List.filter_eq_nil_iff]
  intro c hc
  simp [isMarkup_escapeMarkup hc]

/-- What stands in a text that was put together character by character is part of what one of them
was replaced by. -/
theorem exists_of_flatMap_eq {f : Char → List Char} {cs front back : List Char} {d : Char}
    (h : cs.flatMap f = front ++ d :: back) :
    ∃ c front' rest, f c = front' ++ d :: rest ∧ rest <+: back := by
  induction cs generalizing front with
  | nil => simp at h
  | cons c cs ih =>
    rw [List.flatMap_cons] at h
    rcases List.append_eq_append_iff.mp h with ⟨rest, -, hrest⟩ | ⟨rest, hchar, hrest⟩
    · exact ih hrest
    · cases rest with
      | nil =>
        have hlater : cs.flatMap f = [] ++ d :: back := hrest.symm
        exact ih hlater
      | cons d' rest =>
        obtain ⟨rfl, hback⟩ := List.cons.inj hrest
        exact ⟨c, front, rest, hchar, hback ▸ List.prefix_append _ _⟩

/-- **Each ampersand starts an entity** in a text that was escaped. -/
theorem entity_of_ampersand {s : String} {front back : List Char}
    (h : (escapeMarkup s).toList = front ++ '&' :: back) : ∃ e ∈ entities, e <+: '&' :: back := by
  rw [escapeMarkup, String.toList_ofList] at h
  obtain ⟨c, front', rest, hchar, hrest⟩ := exists_of_flatMap_eq h
  rcases escapeChar_cases c with ⟨hentity, -⟩ | ⟨hself, hamp, -⟩
  · refine ⟨_, hentity, ?_⟩
    have htail := (entity_chars _ hentity).2.2
    rw [hchar] at htail ⊢
    cases front' with
    | nil => exact (List.prefix_cons_inj '&').mpr hrest
    | cons d front' => exact absurd (by simp) htail
  · rw [hself] at hchar
    have hmem : '&' ∈ [c] := by
      rw [hchar]
      simp
    exact absurd (List.mem_singleton.mp hmem).symm hamp

/-! ### The page -/

/-- The head of the page, before its length is announced. -/
def notFoundHead : ReplyHead := ⟨.notFound, [("Content-type", "text/html")]⟩

theorem plain_notFoundHead : ∀ f ∈ notFoundHead.fields, ReplyHead.Plain f := by decide

theorem notFound_eq (url : String) (uptime freeHeap : Nat) : notFound url uptime freeHeap =
    notFoundHead.withBody (Utf8.encode (notFoundBody url uptime freeHeap)) := rfl

/-- Digits have no blanks around them. -/
theorem trimmed_decimal (n : Nat) :
    Trimmed (Utf8.encode (Decimal.text n)) (Utf8.encode (Decimal.text n)) := by
  have hblank : ∀ b ∈ Utf8.encode (Decimal.text n), Byte.isBlank b = false := by
    intro b hb
    by_contra hblank
    simp only [Byte.isBlank, Bool.not_eq_false, Bool.or_eq_true, beq_iff_eq] at hblank
    rcases hblank with rfl | rfl
    · exact Decimal.not_mem_text (by decide) ((Utf8.mem_encode_iff (c := ' ') (by decide)).mp hb)
    · exact Decimal.not_mem_text (by decide) ((Utf8.mem_encode_iff (c := '\t') (by decide)).mp hb)
  exact ⟨[], [], by simp, List.forall_mem_nil _, List.forall_mem_nil _,
    fun b hb => hblank b (List.mem_of_mem_head? hb),
    fun b hb => hblank b (List.mem_of_mem_getLast? hb)⟩

/-- The markup of the page is its own. -/
theorem markup_notFoundBody (url : String) (uptime freeHeap : Nat) :
    markup (notFoundBody url uptime freeHeap) = markup (notFoundBody "" uptime freeHeap) := by
  unfold notFoundBody
  simp only [markup_append, markup_escapeMarkup]

/-- **The page for what is not there is intact**, whatever the address. Taken apart where its head
ends, it is a head that announces just as many bytes as follow, and in which nothing but that number
depends on the address, so that it has three fields and no other; and then the page, in which the
escaped address and the two numbers stand in a text that is always the same. The escaped address has
no markup in it, so that the markup of the page is that for an empty one; each ampersand in it starts
an entity; and no two addresses are escaped to one text, as the address is what a reader of the page
is shown. -/
theorem notFound_intact (url : String) (uptime freeHeap : Nat) :
    let page :=
      "<html><head><title>404 Not Found</title></head><body><h1>Not Found</h1><p>The requested URL " ++
        escapeMarkup url ++ " was not found on this server.</p><hr><p>uptime: " ++
        Decimal.text uptime ++ " s, free heap: " ++ Decimal.text freeHeap ++
        " bytes</p></body></html>"
    let length := Decimal.text (Utf8.encode page).length
    (∃ head, split? (notFound url uptime freeHeap) = some (head, Utf8.encode page) ∧
        Utf8.decodeLossy head = "HTTP/1.1 404 Not Found\r\nContent-type: text/html\r\n" ++
          "Content-Length: " ++ length ++ "\r\nConnection: close") ∧
      Field.find? (notFound url uptime freeHeap) "Content-Length" = some (Utf8.encode length) ∧
      (∀ name, Field.find? (notFound url uptime freeHeap) name = none ↔
        ∀ f ∈ [("Content-type", "text/html"), ("Content-Length", length), ("Connection", "close")],
          ¬ ReplyHead.Named name f) ∧
      (∀ c ∈ (escapeMarkup url).toList, c ≠ '<' ∧ c ≠ '>' ∧ c ≠ '"') ∧
      markup page = markup (notFoundBody "" uptime freeHeap) ∧
      (∀ front back, (escapeMarkup url).toList = front ++ '&' :: back →
        ∃ e ∈ entities, e <+: '&' :: back) ∧
      shown (escapeMarkup url).toList = url.toList ∧
      ∀ url', escapeMarkup url' = escapeMarkup url → url' = url := by
  intro page length
  have hpage : notFoundBody url uptime freeHeap = page := rfl
  have hplain := ReplyHead.plain_announcing plain_notFoundHead (Utf8.encode page).length
  refine ⟨⟨Utf8.encode (notFoundHead.announcing (Utf8.encode page).length).text, ?_, ?_⟩, ?_,
    fun name => ?_, fun c hc => ?_, ?_, fun front back h => entity_of_ampersand h,
    shown_escapeMarkup url, fun url' h => escapeMarkup_injective h⟩
  · rw [notFound_eq, ReplyHead.withBody_eq, hpage]
    exact ReplyHead.split?_bytes hplain _
  · rw [Utf8.decodeLossy_encode]
    apply String.toList_injective
    simp [ReplyHead.text, notFoundHead, ReplyHead.announcing, ReplyHead.announced,
      ReplyHead.fieldText, ReplyHead.lineEnd, Status.line, length]
  · rw [notFound_eq, ReplyHead.withBody_eq, hpage, ReplyHead.find?_bytes_eq_some_iff hplain]
    have hnamed : ReplyHead.Named "Content-Length" ("Content-Length", length) :=
      (by decide : Bytes.sameIgnoringCase (Utf8.encode "Content-Length") _ = true)
    refine ⟨1, ("Content-Length", length), rfl, hnamed, trimmed_decimal _, ?_⟩
    intro j hj g hg
    obtain rfl : j = 0 := by omega
    obtain rfl : ("Content-type", "text/html") = g := Option.some.inj hg
    decide
  · rw [notFound_eq, ReplyHead.withBody_eq, hpage, ReplyHead.find?_bytes_eq_none_iff hplain]
    rfl
  · simpa [isMarkup, and_assoc] using isMarkup_escapeMarkup hc
  · exact markup_notFoundBody url uptime freeHeap

/-- An address with markup, an entity, and a line break that a field follows. -/
theorem notFound_intact_breaking :
    let url := "/<b>&lt;\"\r\n\r\nSet-Cookie: a"
    Field.find? (notFound url 1 2) "Set-Cookie" = none ∧
      escapeMarkup url = "/&lt;b&gt;&amp;lt;&quot;\r\n\r\nSet-Cookie: a" ∧
      shown (escapeMarkup url).toList = url.toList := by
  intro url
  obtain ⟨-, -, hnone, -, -, -, hshown, -⟩ := notFound_intact url 1 2
  have hescaped : escapeMarkup url = "/&lt;b&gt;&amp;lt;&quot;\r\n\r\nSet-Cookie: a" := by decide
  refine ⟨(hnone "Set-Cookie").mpr ?_, hescaped, hshown⟩
  intro f hf
  simp only [List.mem_cons, List.not_mem_nil, or_false] at hf
  rcases hf with rfl | rfl | rfl
  · decide
  · exact (by decide : ¬ Bytes.sameIgnoringCase (Utf8.encode "Content-Length")
      (Utf8.encode "Set-Cookie") = true)
  · decide

end Microweb.Reply

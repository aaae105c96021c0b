import Microweb.Proofs.Decimal
import Microweb.Proofs.Field
import Microweb.Reply.Head

/-!
The heads of responses, read back. A response is taken apart where its head ends, and the fields of
the head are found under their names (`ReplyHead.read_back`), if no name and no value breaks its
line, and no name has a colon in it. Nothing that stands in the body can make a difference.
-/

namespace Microweb

/-! ### Texts on a line -/

/-- The text has no line break in it. -/
def OnLine (s : String) : Prop := '\r' ∉ s.toList ∧ '\n' ∉ s.toList

instance (s : String) : Decidable (OnLine s) := inferInstanceAs (Decidable (_ ∧ _))

theorem OnLine.append {a b : String} (ha : OnLine a) (hb : OnLine b) : OnLine (a ++ b) := by
  simp only [OnLine, String.toList_append, List.mem_append, not_or]
  exact ⟨⟨ha.1, hb.1⟩, ha.2, hb.2⟩

theorem OnLine.cr_not_mem {s : String} (h : OnLine s) : Byte.cr ∉ Utf8.encode s := by
  intro hmem
  exact h.1 ((Utf8.mem_encode_iff (c := '\r') (by decide)).mp hmem)

theorem OnLine.lf_not_mem {s : String} (h : OnLine s) : Byte.lf ∉ Utf8.encode s := by
  intro hmem
  exact h.2 ((Utf8.mem_encode_iff (c := '\n') (by decide)).mp hmem)

/-- The bytes of a line ending. -/
theorem encode_lineEnd : Utf8.encode ReplyHead.lineEnd = [Byte.cr, Byte.lf] := by decide

/-- A line that ends in both bytes of an ending is without them. -/
theorem linesOf_append_crlf {line : Bytes} (h : Byte.lf ∉ line) (rest : Bytes) :
    linesOf (line ++ Byte.cr :: Byte.lf :: rest) = line :: linesOf rest := by
  have hline : Byte.lf ∉ line ++ [Byte.cr] := by
    simpa [h] using (by decide : Byte.lf ≠ Byte.cr)
  rw [List.append_cons, linesOf_append_lf hline]
  simp [chomp]

namespace Reply

/-! ### The first empty line -/

theorem splitAfter?_of_not_blank {b : UInt8} {rest : Bytes} (done : Bytes)
    (h : ¬ blankLine <+: b :: rest) :
    splitAfter? done (b :: rest) = splitAfter? (b :: done) rest := by
  rw [splitAfter?, if_neg]
  rwa [List.isPrefixOf_iff_prefix]

/-- No empty line starts in a line. -/
theorem splitAfter?_append {line : Bytes} (h : Byte.cr ∉ line) (done rest : Bytes) :
    splitAfter? done (line ++ rest) = splitAfter? (line.reverse ++ done) rest := by
  induction line generalizing done with
  | nil => rfl
  | cons b line ih =>
    obtain ⟨hb, hline⟩ := not_or.mp (mt List.mem_cons.mpr h)
    have hblank : ¬ blankLine <+: b :: (line ++ rest) := by
      intro hprefix
      exact hb (List.cons_prefix_cons.mp hprefix).1
    rw [List.cons_append, splitAfter?_of_not_blank done hblank, ih hline]
    simp

/-- No empty line starts at the end of a line that another line follows. -/
theorem splitAfter?_crlf {line : Bytes} (h : Byte.cr ∉ line) (hne : line ≠ []) (done rest : Bytes) :
    splitAfter? done (Byte.cr :: Byte.lf :: (line ++ rest)) =
      splitAfter? (Byte.lf :: Byte.cr :: done) (line ++ rest) := by
  obtain ⟨b, line, rfl⟩ := List.exists_cons_of_ne_nil hne
  have hb : b ≠ Byte.cr := by
    rintro rfl
    exact h List.mem_cons_self
  rw [splitAfter?_of_not_blank, splitAfter?_of_not_blank]
  · intro hprefix
    exact absurd (List.cons_prefix_cons.mp hprefix).1 (by decide)
  · intro hprefix
    simp only [blankLine, List.cons_append, List.cons_prefix_cons, true_and] at hprefix
    exact hb hprefix.1.symm

/-- **Lines that are not empty are split** from what follows the first empty one. -/
theorem splitAfter?_lines {line : Bytes} {lines : List Bytes}
    (h : ∀ l ∈ line :: lines, l ≠ [] ∧ Byte.cr ∉ l) (done body : Bytes) :
    splitAfter? done
        (line ++ (lines.flatMap (fun l => Byte.cr :: Byte.lf :: l) ++ (blankLine ++ body))) =
      some (done.reverse ++ (line ++ lines.flatMap fun l => Byte.cr :: Byte.lf :: l), body) := by
  induction lines generalizing line done with
  | nil =>
    rw [splitAfter?_append (h line List.mem_cons_self).2]
    simp [splitAfter?, blankLine]
  | cons next lines ih =>
    have hline := h line List.mem_cons_self
    have hnext := h next (by simp)
    rw [splitAfter?_append hline.2, List.flatMap_cons, List.cons_append, List.cons_append,
      List.cons_append, List.cons_append, List.append_assoc,
      splitAfter?_crlf hnext.2 hnext.1, ih fun l hl => h l (List.mem_cons_of_mem _ hl)]
    simp

end Reply

/-! ### What a head is made of -/

/-- The first line of a response, without its ending. -/
def Status.line : Status → String
  | switchingProtocols => "HTTP/1.1 101 Switching Protocols"
  | ok => "HTTP/1.1 200 OK"
  | notFound => "HTTP/1.1 404 Not Found"

theorem Status.onLine_line (status : Status) : OnLine status.line ∧ status.line ≠ "" := by
  cases status <;> decide

namespace ReplyHead

/-- The head that calls for fields lead to, from one without any. -/
def ofCalls (status : Status) (calls : List (String × String)) : ReplyHead :=
  calls.foldl (fun h f => h.field f.1 f.2) (ofStatus status)

/-- **Fields are kept in the order of the calls.** -/
theorem ofCalls_eq (status : Status) (calls : List (String × String)) :
    ofCalls status calls = ⟨status, calls⟩ := by
  have hfold : ∀ fields : List (String × String),
      calls.foldl (fun h f => h.field f.1 f.2) ⟨status, fields⟩ =
        (⟨status, fields ++ calls⟩ : ReplyHead) := by
    induction calls with
    | nil => simp
    | cons f calls ih =>
      intro fields
      rw [List.foldl_cons, field, ih]
      simp
  exact hfold []

/-- **A field that can be told from others**: its name and its value are on one line, and the first
colon is behind the name. -/
structure Plain (f : String × String) : Prop where
  name : OnLine f.1
  colon : ':' ∉ f.1.toList
  value : OnLine f.2

instance (f : String × String) : Decidable (Plain f) :=
  decidable_of_iff (OnLine f.1 ∧ ':' ∉ f.1.toList ∧ OnLine f.2)
    ⟨fun ⟨hname, hcolon, hvalue⟩ => ⟨hname, hcolon, hvalue⟩,
      fun h => ⟨h.name, h.colon, h.value⟩⟩

/-- The line of a field, without its ending. -/
def fieldText (f : String × String) : String := f.1 ++ ": " ++ f.2

theorem encode_fieldText (f : String × String) : Utf8.encode (fieldText f) =
    Utf8.encode f.1 ++ Byte.colon :: Byte.space :: Utf8.encode f.2 := by
  have hcolon : Utf8.encode ": " = [Byte.colon, Byte.space] := by decide
  rw [fieldText, Utf8.encode_append, Utf8.encode_append, hcolon]
  simp

theorem encode_fieldLine (f : String × String) : Utf8.encode (fieldLine f) =
    Utf8.encode (fieldText f) ++ [Byte.cr, Byte.lf] := by
  rw [fieldLine, Utf8.encode_append, encode_lineEnd, fieldText]

theorem Plain.onLine {f : String × String} (h : Plain f) : OnLine (fieldText f) :=
  (h.name.append (by decide)).append h.value

theorem encode_fieldText_ne_nil (f : String × String) : Utf8.encode (fieldText f) ≠ [] := by
  rw [encode_fieldText]
  simp

/-- A head without the empty line at its end, and without the ending of the line before it. -/
def text (h : ReplyHead) : String :=
  h.status.line ++ String.join (h.fields.map fun f => lineEnd ++ fieldText f)

theorem encode_statusLine (h : ReplyHead) :
    Utf8.encode h.statusLine = Utf8.encode h.status.line ++ [Byte.cr, Byte.lf] := by
  have hline : ∀ status, Utf8.encode (ofStatus status).statusLine =
      Utf8.encode status.line ++ [Byte.cr, Byte.lf] := by
    intro status
    cases status <;> decide
  exact hline h.status

/-- The bytes of a head: its text, and an empty line. -/
theorem bytes_eq (h : ReplyHead) : h.bytes = Utf8.encode h.status.line ++
    (h.fields.flatMap (fun f => Byte.cr :: Byte.lf :: Utf8.encode (fieldText f)) ++
      Reply.blankLine) := by
  have hfields : ∀ fields : List (String × String),
      Byte.cr :: Byte.lf :: fields.flatMap (fun f => Utf8.encode (fieldLine f)) =
        fields.flatMap (fun f => Byte.cr :: Byte.lf :: Utf8.encode (fieldText f)) ++
          [Byte.cr, Byte.lf] := by
    intro fields
    induction fields with
    | nil => rfl
    | cons f fields ih =>
      rw [List.flatMap_cons, List.flatMap_cons, encode_fieldLine, List.append_assoc,
        List.append_assoc, ← ih]
      simp
  have hall := hfields h.fields
  rw [bytes, encode_statusLine, encode_lineEnd, Reply.blankLine]
  generalize h.fields.flatMap (fun f => Utf8.encode (fieldLine f)) = lines at hall ⊢
  have hblank : ∀ bs : Bytes, bs ++ [Byte.cr, Byte.lf, Byte.cr, Byte.lf] =
      bs ++ [Byte.cr, Byte.lf] ++ [Byte.cr, Byte.lf] := by
    intro bs
    simp
  rw [hblank, ← hall]
  simp

theorem encode_text (h : ReplyHead) : Utf8.encode h.text = Utf8.encode h.status.line ++
    h.fields.flatMap fun f => Byte.cr :: Byte.lf :: Utf8.encode (fieldText f) := by
  have hfields : ∀ fields : List (String × String),
      Utf8.encode (String.join (fields.map fun f => lineEnd ++ fieldText f)) =
        fields.flatMap fun f => Byte.cr :: Byte.lf :: Utf8.encode (fieldText f) := by
    intro fields
    induction fields with
    | nil => rfl
    | cons f fields ih =>
      have hjoin : String.join ((f :: fields).map fun f => lineEnd ++ fieldText f) =
          lineEnd ++ fieldText f ++ String.join (fields.map fun f => lineEnd ++ fieldText f) := by
        apply String.toList_injective
        simp [String.toList_join]
      rw [hjoin, Utf8.encode_append, Utf8.encode_append, encode_lineEnd, ih, List.flatMap_cons]
      rfl
  rw [text, Utf8.encode_append, hfields]

/-! ### A head and a body -/

/-- What a response with a body of that length announces, behind all other fields. -/
def announced (n : Nat) : List (String × String) :=
  [("Content-Length", Decimal.text n), ("Connection", "close")]

/-- The head that is sent before a body of that length. -/
def announcing (h : ReplyHead) (n : Nat) : ReplyHead :=
  { h with fields := h.fields ++ announced n }

theorem withBody_eq (h : ReplyHead) (body : Bytes) :
    h.withBody body = (h.announcing body.length).bytes ++ body := by
  simp [withBody, announcing, announced, contentLength, close, field]

theorem onLine_decimal (n : Nat) : OnLine (Decimal.text n) :=
  ⟨Decimal.not_mem_text (by decide), Decimal.not_mem_text (by decide)⟩

theorem plain_announced (n : Nat) : ∀ f ∈ announced n, Plain f := by
  intro f hf
  simp only [announced, List.mem_cons, List.not_mem_nil, or_false] at hf
  have hname : OnLine "Content-Length" ∧ ':' ∉ "Content-Length".toList := by decide
  rcases hf with rfl | rfl
  · exact ⟨hname.1, hname.2, onLine_decimal n⟩
  · decide

theorem plain_announcing {h : ReplyHead} (hplain : ∀ f ∈ h.fields, Plain f) (n : Nat) :
    ∀ f ∈ (h.announcing n).fields, Plain f := by
  intro f hf
  rcases List.mem_append.mp hf with hf | hf
  · exact hplain f hf
  · exact plain_announced n f hf

/-- **A response is taken apart** where its head ends. -/
theorem split?_bytes {h : ReplyHead} (hplain : ∀ f ∈ h.fields, Plain f) (body : Bytes) :
    Reply.split? (h.bytes ++ body) = some (Utf8.encode h.text, body) := by
  have hlines : ∀ l ∈ Utf8.encode h.status.line ::
      h.fields.map (fun f => Utf8.encode (fieldText f)), l ≠ [] ∧ Byte.cr ∉ l := by
    intro l hl
    rcases List.mem_cons.mp hl with rfl | hl
    · obtain ⟨honline, hne⟩ := h.status.onLine_line
      exact ⟨mt Utf8.encode_eq_nil_iff.mp hne, honline.cr_not_mem⟩
    · obtain ⟨f, hf, rfl⟩ := List.mem_map.mp hl
      exact ⟨encode_fieldText_ne_nil f, (hplain f hf).onLine.cr_not_mem⟩
  have hsplit := Reply.splitAfter?_lines hlines [] body
  simp only [List.flatMap_map, List.reverse_nil, List.nil_append] at hsplit
  rw [Reply.split?, bytes_eq, encode_text, List.append_assoc, List.append_assoc]
  exact hsplit

/-! ### Fields found under their names -/

/-- The field bears the name, but for the case of ASCII letters. -/
def Named (name : String) (f : String × String) : Prop :=
  Bytes.sameIgnoringCase (Utf8.encode f.1) (Utf8.encode name) = true

instance (name : String) (f : String × String) : Decidable (Named name f) :=
  inferInstanceAs (Decidable (_ = _))

/-- **The value that fields give to a name** is that of the first one that bears it, without the
blanks at its ends. -/
def Gives (fields : List (String × String)) (name : String) (value : Bytes) : Prop :=
  ∃ (k : Nat) (f : String × String), fields[k]? = some f ∧ Named name f ∧
    Trimmed (Utf8.encode f.2) value ∧ ∀ j < k, ∀ g, fields[j]? = some g → ¬ Named name g

/-- What stands before the first of some byte, and behind it, is one thing. -/
theorem append_cons_inj {b : UInt8} {xs xs' ys ys' : Bytes} (h : b ∉ xs) (h' : b ∉ xs')
    (heq : xs ++ b :: ys = xs' ++ b :: ys') : xs = xs' ∧ ys = ys' := by
  rcases List.append_eq_append_iff.mp heq with ⟨e, rfl, he⟩ | ⟨e, rfl, he⟩
  · cases e with
    | nil => simpa using he
    | cons c e =>
      obtain ⟨rfl, -⟩ := List.cons.inj he
      exact absurd (by simp) h'
  · cases e with
    | nil => simpa [eq_comm] using he
    | cons c e =>
      obtain ⟨rfl, -⟩ := List.cons.inj he
      exact absurd (by simp) h

/-- A blank in front makes no difference to what is left without blanks. -/
theorem trimmed_space_iff {bs value : Bytes} :
    Trimmed (Byte.space :: bs) value ↔ Trimmed bs value := by
  rw [trimmed_iff, trimmed_iff, List.dropWhile_cons_of_pos (by decide)]

/-- **A line that was written for a field** bears the name of the field, and its value. -/
theorem bears_fieldText_iff {f : String × String} (hplain : Plain f) {name : String}
    {value : Bytes} : Field.Bears name (Utf8.encode (fieldText f)) value ↔
      Named name f ∧ Trimmed (Utf8.encode f.2) value := by
  have hcolon : Byte.colon ∉ Utf8.encode f.1 := by
    intro hmem
    exact hplain.colon ((Utf8.mem_encode_iff (c := ':') (by decide)).mp hmem)
  rw [encode_fieldText]
  constructor
  · rintro ⟨field, rest, heq, hfield, hsame, htrim⟩
    obtain ⟨hname, hrest⟩ := append_cons_inj hcolon hfield heq
    rw [← hrest, trimmed_space_iff] at htrim
    rw [← hname] at hsame
    exact ⟨hsame, htrim⟩
  · rintro ⟨hsame, htrim⟩
    exact ⟨f.1, _, rfl, hcolon, hsame, trimmed_space_iff.mpr htrim⟩

/-- The lines behind the first one, up to the first empty one, are those of the fields. -/
theorem inSection_bytes {h : ReplyHead} (hplain : ∀ f ∈ h.fields, Plain f) (body : Bytes) {k : Nat}
    {line : Bytes} : Field.InSection (h.bytes ++ body) (k + 1) line ↔
      ∃ f, h.fields[k]? = some f ∧ line = Utf8.encode (fieldText f) := by
  have hlines : ∀ fields : List (String × String), (∀ f ∈ fields, Plain f) →
      (linesOf (fields.flatMap (fun f => Utf8.encode (fieldLine f)) ++
        (Byte.cr :: Byte.lf :: body))).takeWhile (fun line => ! line.isEmpty) =
        fields.map fun f => Utf8.encode (fieldText f) := by
    intro fields hfields
    induction fields with
    | nil =>
      have hempty : linesOf ([] ++ Byte.cr :: Byte.lf :: body) = [] :: linesOf body :=
        linesOf_append_crlf (by simp) body
      simp only [List.nil_append] at hempty
      simp [hempty]
    | cons f fields ih =>
      obtain ⟨hf, hfields⟩ := List.forall_mem_cons.mp hfields
      have hne : (Utf8.encode (fieldText f)).isEmpty = false := by
        simpa using encode_fieldText_ne_nil f
      rw [List.flatMap_cons, encode_fieldLine, List.append_assoc, List.append_assoc]
      simp only [List.cons_append, List.nil_append]
      rw [linesOf_append_crlf hf.onLine.lf_not_mem, List.takeWhile_cons_of_pos (by simp [hne]),
        ih hfields, List.map_cons]
  have hfirst : Byte.lf ∉ Utf8.encode h.status.line ++ [Byte.cr] := by
    simpa using ⟨h.status.onLine_line.1.lf_not_mem, (by decide : Byte.lf ≠ Byte.cr)⟩
  have hbytes : h.bytes ++ body = (Utf8.encode h.status.line ++ [Byte.cr]) ++
      Byte.lf :: (h.fields.flatMap (fun f => Utf8.encode (fieldLine f)) ++
        (Byte.cr :: Byte.lf :: body)) := by
    rw [bytes, encode_statusLine, encode_lineEnd]
    simp
  rw [hbytes, Field.inSection_succ hfirst, hlines h.fields hplain, List.getElem?_map,
    Option.map_eq_some_iff]
  simp only [eq_comm]

theorem exists_trimmed (bs : Bytes) : ∃ value, Trimmed bs value := ⟨_, trimmed_iff.mpr rfl⟩

section Find

variable {h : ReplyHead} (hplain : ∀ f ∈ h.fields, Plain f) (body : Bytes) {name : String}
include hplain

/-- **A field is found** in a head, whatever follows the head. -/
theorem find?_bytes_eq_some_iff {value : Bytes} :
    Field.find? (h.bytes ++ body) name = some value ↔ Gives h.fields name value := by
  rw [Field.find?_eq_some_iff]
  constructor
  · rintro ⟨k, line, hline, hbears, hbefore⟩
    obtain ⟨k, rfl⟩ : ∃ n, k = n + 1 := ⟨k - 1, (Nat.sub_add_cancel hline.1).symm⟩
    obtain ⟨f, hf, rfl⟩ := (inSection_bytes hplain body).mp hline
    obtain ⟨hnamed, htrim⟩ := (bears_fieldText_iff (hplain f (List.mem_of_getElem? hf))).mp hbears
    refine ⟨k, f, hf, hnamed, htrim, ?_⟩
    intro j hj g hg hname
    obtain ⟨w, hw⟩ := exists_trimmed (Utf8.encode g.2)
    exact hbefore (j + 1) (by omega) _ w ((inSection_bytes hplain body).mpr ⟨g, hg, rfl⟩)
      ((bears_fieldText_iff (hplain g (List.mem_of_getElem? hg))).mpr ⟨hname, hw⟩)
  · rintro ⟨k, f, hf, hnamed, htrim, hbefore⟩
    refine ⟨k + 1, _, (inSection_bytes hplain body).mpr ⟨f, hf, rfl⟩,
      (bears_fieldText_iff (hplain f (List.mem_of_getElem? hf))).mpr ⟨hnamed, htrim⟩, ?_⟩
    intro j hj line w hline hbears
    obtain ⟨j, rfl⟩ : ∃ n, j = n + 1 := ⟨j - 1, (Nat.sub_add_cancel hline.1).symm⟩
    obtain ⟨g, hg, rfl⟩ := (inSection_bytes hplain body).mp hline
    exact hbefore j (by omega) g hg
      ((bears_fieldText_iff (hplain g (List.mem_of_getElem? hg))).mp hbears).1

theorem find?_bytes_eq_none_iff :
    Field.find? (h.bytes ++ body) name = none ↔ ∀ f ∈ h.fields, ¬ Named name f := by
  rw [Field.find?_eq_none_iff]
  constructor
  · intro hnone f hf hname
    obtain ⟨k, hk⟩ := List.getElem?_of_mem hf
    obtain ⟨w, hw⟩ := exists_trimmed (Utf8.encode f.2)
    exact hnone (k + 1) _ w ((inSection_bytes hplain body).mpr ⟨f, hk, rfl⟩)
      ((bears_fieldText_iff (hplain f hf)).mpr ⟨hname, hw⟩)
  · intro hnone k line value hline hbears
    obtain ⟨k, rfl⟩ : ∃ n, k = n + 1 := ⟨k - 1, (Nat.sub_add_cancel hline.1).symm⟩
    obtain ⟨f, hf, rfl⟩ := (inSection_bytes hplain body).mp hline
    have hmem := List.mem_of_getElem? hf
    exact hnone f hmem ((bears_fieldText_iff (hplain f hmem)).mp hbears).1

end Find

/-- **Responses are read back.** Whatever the status, the fields that were asked for and the body, a
response with a body is taken apart into its head and just that body, and the text of the head is
the line of the status and those of the fields, with the length of the body and the end of the
connection announced behind them. What is found under a name, in a head alone or before a body, is
the value of the first field of that name, but for the case of ASCII letters, without the blanks at
its ends; and nothing is found if there is no such field. No name or value may break its line, and
no name may have a colon in it. -/
theorem read_back (status : Status) (calls : List (String × String))
    (hcalls : ∀ f ∈ calls, Plain f) (body : Bytes) :
    let h := ofCalls status calls
    let sent := calls ++ [("Content-Length", Decimal.text body.length), ("Connection", "close")]
    (∃ head, Reply.split? (h.withBody body) = some (head, body) ∧ Utf8.decodeLossy head =
        status.line ++ String.join (sent.map fun f => "\r\n" ++ f.1 ++ ": " ++ f.2)) ∧
      (∀ name value, Field.find? h.bytes name = some value ↔ Gives calls name value) ∧
      (∀ name, Field.find? h.bytes name = none ↔ ∀ f ∈ calls, ¬ Named name f) ∧
      (∀ name value, Field.find? (h.withBody body) name = some value ↔ Gives sent name value) ∧
      ∀ name, Field.find? (h.withBody body) name = none ↔ ∀ f ∈ sent, ¬ Named name f := by
  intro h sent
  have hfields : h.fields = calls := by
    rw [show h = ⟨status, calls⟩ from ofCalls_eq status calls]
  have hstatus : h.status = status := by
    rw [show h = ⟨status, calls⟩ from ofCalls_eq status calls]
  have hplain : ∀ f ∈ h.fields, Plain f := by
    rwa [hfields]
  have hsent : ∀ f ∈ (h.announcing body.length).fields, Plain f :=
    plain_announcing hplain body.length
  have hall : (h.announcing body.length).fields = sent := by
    rw [announcing, hfields]
    rfl
  have halone : h.bytes = h.bytes ++ [] := (List.append_nil _).symm
  refine ⟨⟨Utf8.encode (h.announcing body.length).text, ?_, ?_⟩, fun name value => ?_,
    fun name => ?_, fun name value => ?_, fun name => ?_⟩
  · rw [withBody_eq]
    exact split?_bytes hsent body
  · rw [Utf8.decodeLossy_encode, text, hall]
    simp [announcing, hstatus, fieldText, lineEnd, String.append_assoc]
  · rw [halone, find?_bytes_eq_some_iff hplain, hfields]
  · rw [halone, find?_bytes_eq_none_iff hplain, hfields]
  · rw [withBody_eq, find?_bytes_eq_some_iff hsent, hall]
  · rw [withBody_eq, find?_bytes_eq_none_iff hsent, hall]

/-- A name that comes twice, a value between blanks with a colon in it, a length that is not that of
the body, and a body that starts with an empty line and goes on like a head. -/
theorem read_back_doubled :
    let calls := [("X-Empty", ""), ("Vary", "\t a:b "), ("VARY", "c"), ("content-length", "7")]
    let body := Utf8.encode "\r\n\r\nHost: d\r\n\r\n"
    let raw := (ofCalls .ok calls).withBody body
    (∀ f ∈ calls, Plain f) ∧ (∃ head, Reply.split? raw = some (head, body)) ∧
      Field.find? raw "vary" = some (Utf8.encode "a:b") ∧
      Field.find? raw "Content-Length" = some (Utf8.encode "7") ∧
      Field.find? raw "x-empty" = some [] ∧ Field.find? raw "Host" = none := by
  intro calls body raw
  have hcalls : ∀ f ∈ calls, Plain f := by decide
  obtain ⟨⟨head, hsplit, -⟩, -, -, hfound, hnone⟩ := read_back .ok calls hcalls body
  refine ⟨hcalls, ⟨head, hsplit⟩, (hfound _ _).mpr ?_, (hfound _ _).mpr ?_, (hfound _ _).mpr ?_,
    (hnone _).mpr (by decide)⟩
  · exact ⟨1, ("Vary", "\t a:b "), rfl, by decide, trimmed_iff.mpr (by decide), by decide⟩
  · exact ⟨3, ("content-length", "7"), rfl, by decide, trimmed_iff.mpr (by decide), by decide⟩
  · exact ⟨0, ("X-Empty", ""), rfl, by decide, trimmed_iff.mpr (by decide), by decide⟩

end ReplyHead

end Microweb

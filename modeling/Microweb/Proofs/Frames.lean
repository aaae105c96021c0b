import Microweb.Socket.Frame
import Mathlib.Algebra.Group.Nat.Defs
import Mathlib.Data.List.Basic

/-!
A stream of frames is read back as it was sent.

The announced length, the key and the range of the payload (`layout?`) are found from the front of a
buffer alone: more bytes behind do not change them (`layout?_append`). So one computation of the
layout of an encoded frame serves twice. With any tail behind it the frame is read and the tail left
as it was (`Sent.parse_append`), and of a proper prefix nothing is read: its layout would be the one
of the whole frame, which ends beyond the prefix (`Sent.parse_prefix`).
-/

namespace Microweb

namespace Frame

/-! ### Big-endian numbers -/

theorem ofBigEndian_concat (bs : Bytes) (b : UInt8) :
    ofBigEndian (bs ++ [b]) = ofBigEndian bs * 256 + b.toNat := by
  simp [ofBigEndian]

theorem length_toBigEndian (n v : Nat) : (toBigEndian n v).length = n := by
  induction n generalizing v with
  | zero => rfl
  | succ n ih => simp [toBigEndian, ih]

/-- `n` bytes hold the numbers below `256 ^ n`. -/
theorem ofBigEndian_toBigEndian (n v : Nat) (h : v < 256 ^ n) :
    ofBigEndian (toBigEndian n v) = v := by
  induction n generalizing v with
  | zero =>
    have hv : v = 0 := by simpa using h
    rw [hv]
    rfl
  | succ n ih =>
    have hv : v / 256 < 256 ^ n := by
      rw [Nat.pow_succ, Nat.mul_comm] at h
      exact Nat.div_lt_of_lt_mul h
    rw [toBigEndian, ofBigEndian_concat, ih _ hv]
    have hb : (UInt8.ofNat v).toNat = v % 256 := UInt8.toNat_ofNat
    omega

/-! ### The layout is found from the front -/

section Append

variable {buf : Bytes} (tail : Bytes)

theorem take_drop_append {i n : Nat} (h : i + n ≤ buf.length) :
    ((buf ++ tail).drop i).take n = (buf.drop i).take n := by
  rw [List.drop_append_of_le_length (by omega),
    List.take_append_of_le_length (by rw [List.length_drop]; omega)]

theorem lengthField?_append {second : UInt8} {r : Nat × Nat}
    (h : lengthField? buf second = some r) : lengthField? (buf ++ tail) second = some r := by
  by_cases h126 : second.toNat % 128 = 126
  · simp only [lengthField?, if_pos h126] at h ⊢
    split_ifs at h with h4
    rwa [if_pos (by rw [List.length_append]; omega), take_drop_append tail (by omega)]
  · by_cases h127 : second.toNat % 128 = 127
    · simp only [lengthField?, if_neg h126, if_pos h127] at h ⊢
      split_ifs at h with h10
      rwa [if_pos (by rw [List.length_append]; omega), take_drop_append tail (by omega)]
    · simpa only [lengthField?, if_neg h126, if_neg h127] using h

theorem keyAt?_append {i : Nat} {key : MaskKey} (h : keyAt? buf i = some key) :
    keyAt? (buf ++ tail) i = some key := by
  unfold keyAt? at h ⊢
  split at h
  · rename_i k0 k1 k2 k3 rest hdrop
    have hi : i ≤ buf.length := by
      by_contra hlt
      rw [List.drop_eq_nil_of_le (by omega)] at hdrop
      cases hdrop
    rw [List.drop_append_of_le_length hi, hdrop]
    exact h
  · cases h

theorem layout?_eq_some_iff {buf : Bytes} {second : UInt8} {key : MaskKey} {span : Span} :
    layout? buf second = some (key, span) ↔
      ∃ n i, lengthField? buf second = some (n, i) ∧ keyAt? buf i = some key ∧
        span = ⟨i + 4, i + 4 + n⟩ ∧ i + 4 + n ≤ buf.length := by
  simp only [layout?, Option.bind_eq_bind, Option.bind_eq_some_iff, Prod.exists]
  constructor
  · rintro ⟨n, i, hlen, k, hkey, h⟩
    split_ifs at h with hle
    obtain ⟨rfl, rfl⟩ : k = key ∧ Span.mk (i + 4) (i + 4 + n) = span := by simpa using h
    exact ⟨n, i, hlen, hkey, rfl, hle⟩
  · rintro ⟨n, i, hlen, hkey, rfl, hle⟩
    exact ⟨n, i, hlen, key, hkey, if_pos hle⟩

theorem layout?_append {second : UInt8} {r : MaskKey × Span} (h : layout? buf second = some r) :
    layout? (buf ++ tail) second = some r := by
  obtain ⟨n, i, hlen, hkey, hspan, hle⟩ := layout?_eq_some_iff.mp h
  refine layout?_eq_some_iff.mpr ⟨n, i, lengthField?_append tail hlen, keyAt?_append tail hkey,
    hspan, ?_⟩
  rw [List.length_append]
  omega

end Append

/-! ### What a client sends -/

/-- What a client's frame carries, a closing one apart. -/
inductive Kind where
  | text
  | binary
  | ping
deriving DecidableEq, Repr

namespace Kind

def opcode : Kind → UInt8
  | text => Opcode.text
  | binary => Opcode.binary
  | ping => Opcode.ping

def frame : Kind → Bytes → Frame
  | text => Frame.text
  | binary => Frame.binary
  | ping => Frame.ping

end Kind

/-- A frame as a client sends it, with the key that its payload is masked with. -/
structure Sent where
  kind : Kind
  payload : Bytes
  key : MaskKey
  /-- The longest form of a length has eight bytes. -/
  fits : payload.length < UInt64.size

namespace Sent

variable (f : Sent)

def bytes : Bytes := encodeMasked f.kind.opcode f.payload f.key

/-- What the reader makes of it. -/
def frame : Frame := f.kind.frame f.payload

/-- What comes before the payload. -/
def header : Bytes :=
  (0x80 ||| f.kind.opcode) :: maskedLength f.payload.length ++ f.key.bytes

theorem bytes_eq : f.bytes = f.header ++ f.key.apply f.payload := rfl

theorem length_bytes : f.bytes.length = f.header.length + f.payload.length := by
  rw [bytes_eq, List.length_append, MaskKey.length_apply]

end Sent

/-! ### Frames of the three kinds -/

/-- The first two bytes of a final, masked frame of a known kind leave only its layout to be
found. -/
theorem parse_of_opcode (k : Kind) {first second : UInt8} (rest : Bytes)
    (hop : first &&& 0x0F = k.opcode) (hfinal : ¬ first < 0x80) (hmask : ¬ second < 0x80) :
    let buf := first :: second :: rest
    parse buf = match layout? buf second with
      | none => (.error .incomplete, buf)
      | some (key, span) => (.ok (k.frame (key.apply (span.slice buf)), span.stop),
          buf.take span.start ++ key.apply (span.slice buf) ++ buf.drop span.stop) := by
  have hcont : ¬ (first < 0x80 ∨ k.opcode = Opcode.continuation) := by
    rintro (h | h)
    · exact hfinal h
    · cases k <;> cases h
  cases k <;> simp only [parse, hop, if_neg hcont, if_neg hmask] <;> rfl

theorem parse_kind (k : Kind) {second : UInt8} (rest : Bytes) (hmask : 0x80 ≤ second) :
    let buf := (0x80 ||| k.opcode) :: second :: rest
    parse buf = match layout? buf second with
      | none => (.error .incomplete, buf)
      | some (key, span) => (.ok (k.frame (key.apply (span.slice buf)), span.stop),
          buf.take span.start ++ key.apply (span.slice buf) ++ buf.drop span.stop) :=
  parse_of_opcode k rest (by cases k <;> rfl) (by cases k <;> decide) (UInt8.not_lt.mpr hmask)

/-- The form of an announced length says how it is read back. -/
theorem lengthField?_maskedLength {n : Nat} (hn : n < UInt64.size) (first : UInt8) (tail : Bytes) :
    ∃ second ext, maskedLength n = second :: ext ∧ 0x80 ≤ second ∧
      lengthField? (first :: maskedLength n ++ tail) second =
        some (n, 1 + (maskedLength n).length) := by
  unfold maskedLength
  split_ifs with h125 h16
  · -- the length is the second byte itself
    refine ⟨UInt8.ofNat (0x80 + n), [], rfl, ?_, ?_⟩
    · have h80 : (0x80 : UInt8).toNat = 128 := rfl
      rw [UInt8.le_iff_toNat_le, UInt8.toNat_ofNat', h80]
      omega
    · have hshort : (UInt8.ofNat (0x80 + n)).toNat % 128 = n := by
        rw [UInt8.toNat_ofNat']
        omega
      simp only [lengthField?, hshort]
      rw [if_neg (by omega), if_neg (by omega)]
      rfl
  · -- two bytes follow
    refine ⟨0xFE, toBigEndian 2 n, rfl, by decide, ?_⟩
    have hl := length_toBigEndian 2 n
    simp only [lengthField?, List.cons_append, List.length_cons, List.length_append, hl]
    rw [if_pos (by rfl), if_pos (by omega)]
    simp only [List.drop_succ_cons, List.drop_zero]
    rw [List.take_left' hl, ofBigEndian_toBigEndian 2 n h16]
  · -- eight bytes follow
    refine ⟨0xFF, toBigEndian 8 n, rfl, by decide, ?_⟩
    have hl := length_toBigEndian 8 n
    simp only [lengthField?, List.cons_append, List.length_cons, List.length_append, hl]
    rw [if_neg (by decide), if_pos (by rfl), if_pos (by omega)]
    simp only [List.drop_succ_cons, List.drop_zero]
    rw [List.take_left' hl, ofBigEndian_toBigEndian 8 n hn]

namespace Sent

variable (f : Sent)

/-- The first two bytes of an encoded frame, and where its payload is. -/
theorem layout_bytes :
    ∃ second rest, f.bytes = (0x80 ||| f.kind.opcode) :: second :: rest ∧ 0x80 ≤ second ∧
      layout? f.bytes second = some (f.key, ⟨f.header.length, f.bytes.length⟩) := by
  obtain ⟨second, ext, hform, hmask, hlen⟩ := lengthField?_maskedLength f.fits
    (0x80 ||| f.kind.opcode) (f.key.bytes ++ f.key.apply f.payload)
  have hbytes : f.bytes = (0x80 ||| f.kind.opcode) :: maskedLength f.payload.length ++
      (f.key.bytes ++ f.key.apply f.payload) := by
    rw [bytes_eq, header, List.append_assoc]
  have hheader : f.header.length = 1 + (maskedLength f.payload.length).length + 4 := by
    simp only [header, MaskKey.bytes, List.length_append, List.length_cons, List.length_nil]
    omega
  refine ⟨second, ext ++ (f.key.bytes ++ f.key.apply f.payload), ?_, hmask, ?_⟩
  · rw [hbytes, hform]
    rfl
  · refine layout?_eq_some_iff.mpr ⟨_, _, hbytes ▸ hlen, ?_, ?_, ?_⟩
    · have hdrop : f.bytes.drop (1 + (maskedLength f.payload.length).length) =
          f.key.bytes ++ f.key.apply f.payload := by
        rw [hbytes]
        exact List.drop_left' (by rw [List.length_cons, Nat.add_comm])
      rw [keyAt?, hdrop]
      rfl
    · rw [length_bytes, hheader]
    · exact Nat.le_of_eq (by rw [length_bytes, hheader])

/-- **One frame is read off the front of a buffer.** Its payload is unmasked where it stands, and
what comes behind it is left as it was. -/
theorem parse_append (tail : Bytes) :
    parse (f.bytes ++ tail) =
      (.ok (f.frame, f.bytes.length), f.header ++ f.payload ++ tail) := by
  obtain ⟨second, rest, hfront, hmask, hlayout⟩ := f.layout_bytes
  have hlayout := layout?_append tail hlayout
  have hparse := parse_kind f.kind (rest ++ tail) hmask
  have hslice : Span.slice ⟨f.header.length, f.bytes.length⟩ (f.bytes ++ tail) =
      f.key.apply f.payload := by
    have hlen := f.length_bytes
    simp only [Span.slice, Span.length]
    rw [take_drop_append tail (by omega), bytes_eq, List.drop_left,
      List.take_of_length_le (by rw [List.length_append]; omega)]
  simp only [← List.cons_append, ← hfront, hlayout, hslice, MaskKey.apply_apply] at hparse
  rw [hparse, List.drop_left]
  simp only [bytes_eq, List.append_assoc, List.take_left]
  rfl

/-- **A frame that has not come whole is not read.** -/
theorem parse_prefix {p : Bytes} (hp : p <+: f.bytes) (hne : p ≠ f.bytes) :
    parse p = (.error .incomplete, p) := by
  obtain ⟨second, rest, hfront, hmask, hlayout⟩ := f.layout_bytes
  obtain ⟨tail, htail⟩ := hp
  have hshort : p.length < f.bytes.length := by
    have htail0 : 0 < tail.length := by
      apply List.length_pos_iff.mpr
      rintro rfl
      exact hne (by simpa using htail)
    rw [← htail, List.length_append]
    omega
  match p with
  | [] => rfl
  | [_] => rfl
  | b₀ :: b₁ :: p' =>
    obtain ⟨rfl, rfl, -⟩ : b₀ = 0x80 ||| f.kind.opcode ∧ b₁ = second ∧ p' ++ tail = rest := by
      simpa [hfront] using htail
    rw [parse_kind f.kind p' hmask]
    cases hcut : layout? ((0x80 ||| f.kind.opcode) :: b₁ :: p') b₁ with
    | none => rfl
    | some r =>
      -- the layout of the prefix is that of the whole frame, and ends behind the prefix
      obtain ⟨key, span⟩ := r
      have hwhole := layout?_append tail hcut
      rw [htail, hlayout] at hwhole
      obtain ⟨-, rfl⟩ : f.key = key ∧ Span.mk f.header.length f.bytes.length = span := by
        simpa using hwhole
      obtain ⟨n, i, -, -, hspan, hle⟩ := layout?_eq_some_iff.mp hcut
      have hstop : f.bytes.length = i + 4 + n := (Span.mk.inj hspan).2
      omega

end Sent

/-! ### Streams -/

/-- What is read takes some of the buffer, and the buffer keeps its length. -/
theorem parse_ok {buf rest : Bytes} {f : Frame} {used : Nat}
    (h : parse buf = (.ok (f, used), rest)) :
    0 < used ∧ used ≤ buf.length ∧ rest.length = buf.length := by
  unfold parse at h
  split at h
  case h_2 => simp at h
  case h_1 first second tail =>
    simp only [] at h
    split_ifs at h
    · simp only [Prod.mk.injEq, Except.ok.injEq] at h
      obtain ⟨⟨-, rfl⟩, rfl⟩ := h
      simp
    · simp at h
    · simp at h
    · simp at h
    · cases hl : layout? (first :: second :: tail) second with
      | none => simp [hl] at h
      | some r =>
        obtain ⟨key, span⟩ := r
        obtain ⟨n, i, -, -, rfl, hle⟩ := layout?_eq_some_iff.mp hl
        rw [hl] at h
        simp only [Prod.mk.injEq, Except.ok.injEq] at h
        obtain ⟨⟨-, rfl⟩, rfl⟩ := h
        simp only [List.length_append, List.length_take, List.length_drop, MaskKey.length_apply,
          Span.slice, Span.length]
        omega

theorem parse_error {buf rest : Bytes} {e : FrameError} (h : parse buf = (.error e, rest)) :
    rest = buf := by
  unfold parse at h
  split at h
  · simp only at h
    split_ifs at h
    · cases h
    · exact (Prod.ext_iff.mp h).2.symm
    · exact (Prod.ext_iff.mp h).2.symm
    · exact (Prod.ext_iff.mp h).2.symm
    · split at h
      · exact (Prod.ext_iff.mp h).2.symm
      · cases h
  · exact (Prod.ext_iff.mp h).2.symm

theorem length_parse (buf : Bytes) : (parse buf).2.length = buf.length := by
  cases h : parse buf with
  | mk r rest =>
    cases r with
    | ok x => exact (parse_ok h).2.2
    | error e => rw [parse_error h]

/-- Reads frames off the front of a buffer, as long as there are any: what each says and how many
bytes it took, and what is left of the buffer. -/
def readAll (buf : Bytes) : List (Frame × Nat) × Bytes :=
  match _h : parse buf with
  | (.ok (f, used), rest) =>
    let (fs, left) := readAll (rest.drop used)
    ((f, used) :: fs, left)
  | (.error _, rest) => ([], rest)
termination_by buf.length
decreasing_by
  obtain ⟨hused, hle, hlen⟩ := parse_ok _h
  rw [List.length_drop, hlen]
  omega

theorem readAll_error {buf rest : Bytes} {e : FrameError} (h : parse buf = (.error e, rest)) :
    readAll buf = ([], rest) := by
  rw [readAll]
  split
  · simp_all
  · simp_all

theorem readAll_ok {buf rest : Bytes} {f : Frame} {used : Nat}
    (h : parse buf = (.ok (f, used), rest)) :
    readAll buf =
      ((f, used) :: (readAll (rest.drop used)).1, (readAll (rest.drop used)).2) := by
  rw [readAll]
  split
  · simp_all
  · simp_all

/-- What a client sends that sends frames one behind the other. -/
def stream (fs : List Sent) : Bytes := (fs.map Sent.bytes).flatten

@[simp] theorem stream_nil : stream [] = [] := rfl

@[simp] theorem stream_cons (f : Sent) (fs : List Sent) :
    stream (f :: fs) = f.bytes ++ stream fs := rfl

/-- A frame at the front is read, and then what is behind it. -/
theorem readAll_append (f : Sent) (tail : Bytes) :
    readAll (f.bytes ++ tail) =
      ((f.frame, f.bytes.length) :: (readAll tail).1, (readAll tail).2) := by
  have hlen : (f.header ++ f.payload).length = f.bytes.length := by
    rw [List.length_append, Sent.length_bytes]
  rw [readAll_ok (f.parse_append tail), List.drop_left' hlen]

theorem readAll_stream_append (fs : List Sent) (tail : Bytes) :
    readAll (stream fs ++ tail) =
      (fs.map (fun f => (f.frame, f.bytes.length)) ++ (readAll tail).1, (readAll tail).2) := by
  induction fs with
  | nil => rfl
  | cons f fs ih => rw [stream_cons, List.append_assoc, readAll_append, ih]; rfl

/-- **A stream of frames is read back as it was sent**: every frame once, in order, with its payload
and with the bytes that it took, and nothing is left over. Each frame is read without a change to
what is behind it, and none is read before its last byte is there. -/
theorem readAll_stream (fs : List Sent) :
    readAll (stream fs) = (fs.map fun f => (f.frame, f.bytes.length), []) ∧
    (∀ f ∈ fs, ∀ tail, parse (f.bytes ++ tail) =
      (.ok (f.frame, f.bytes.length), f.header ++ f.payload ++ tail)) ∧
    ∀ f ∈ fs, ∀ p, p <+: f.bytes → p ≠ f.bytes → parse p = (.error .incomplete, p) := by
  refine ⟨?_, fun f _ tail => f.parse_append tail, fun f _ p hp hne => f.parse_prefix hp hne⟩
  have hnil : readAll [] = ([], []) := readAll_error (e := .incomplete) rfl
  have h := readAll_stream_append fs []
  rwa [List.append_nil, hnil, List.append_nil] at h

/-- An empty ping, and a message whose length has two bytes. -/
theorem readAll_ping_and_text :
    readAll (stream [⟨.ping, [], ⟨1, 2, 3, 4⟩, by decide⟩,
        ⟨.text, List.replicate 126 0x61, ⟨0x37, 0xFA, 0x21, 0x3D⟩, by decide +kernel⟩]) =
      ([(.ping [], 6), (.text (List.replicate 126 0x61), 134)], []) :=
  (readAll_stream _).1.trans (by decide +kernel)

end Frame

end Microweb

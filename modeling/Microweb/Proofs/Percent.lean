import Mathlib.Data.List.Basic
import Microweb.Head.Query
import Microweb.Proofs.Utf8

/-!
Percent-encoding. Which bytes of a text are written as escapes, and in which case, is up to its
writer (`Percent.Spells`); any such spelling is read back as the text (`Percent.decode_spelling`).
A query is its pairs between ampersands (`Query.parse_spelling`).
-/

namespace Microweb

namespace Percent

/-! ### Spellings -/

/-- The hexadecimal digits of a value, of either case. -/
inductive HexDigit : UInt8 → Nat → Prop
  | decimal {n : Nat} (hn : n < 10) : HexDigit (UInt8.ofNat (0x30 + n)) n
  | lower {n : Nat} (hn : n < 6) : HexDigit (UInt8.ofNat (0x61 + n)) (10 + n)
  | upper {n : Nat} (hn : n < 6) : HexDigit (UInt8.ofNat (0x41 + n)) (10 + n)

/-- **A spelling of bytes**: each of them stands for itself, if that is allowed, or is escaped by a
percent sign and the digits of its two halves. -/
inductive Spells (plain : UInt8 → Prop) : Bytes → Bytes → Prop
  | nil : Spells plain [] []
  | literal {b : UInt8} {raw spelling : Bytes} (hb : plain b) (h : Spells plain raw spelling) :
    Spells plain (b :: raw) (b :: spelling)
  | escaped {b high low : UInt8} {raw spelling : Bytes} (hhigh : HexDigit high (b.toNat / 16))
    (hlow : HexDigit low (b.toNat % 16)) (h : Spells plain raw spelling) :
    Spells plain (b :: raw) (Byte.percent :: high :: low :: spelling)

/-- **The bytes that may stand for themselves** in a target: those of ASCII other than the blanks,
the line feed and the percent sign, and than the delimiters of the place. -/
structure Literal (delimiters : Bytes) (b : UInt8) : Prop where
  ascii : b < 0x80
  not_space : b ≠ Byte.space
  not_tab : b ≠ Byte.tab
  not_lf : b ≠ Byte.lf
  not_percent : b ≠ Byte.percent
  not_delimiter : b ∉ delimiters

instance (delimiters : Bytes) (b : UInt8) : Decidable (Literal delimiters b) :=
  decidable_of_iff (b < 0x80 ∧ b ≠ Byte.space ∧ b ≠ Byte.tab ∧ b ≠ Byte.lf ∧ b ≠ Byte.percent ∧
      b ∉ delimiters)
    ⟨fun ⟨h₁, h₂, h₃, h₄, h₅, h₆⟩ => ⟨h₁, h₂, h₃, h₄, h₅, h₆⟩,
      fun ⟨h₁, h₂, h₃, h₄, h₅, h₆⟩ => ⟨h₁, h₂, h₃, h₄, h₅, h₆⟩⟩

/-- All hexadecimal digits. -/
def hexDigits : Bytes := Utf8.encode "0123456789abcdefABCDEF"

theorem HexDigit.mem {d : UInt8} {n : Nat} (h : HexDigit d n) : d ∈ hexDigits := by
  cases h with
  | @decimal n hn => revert n; decide +kernel
  | @lower n hn => revert n; decide +kernel
  | @upper n hn => revert n; decide +kernel

theorem HexDigit.read {d : UInt8} {n : Nat} (h : HexDigit d n) :
    Byte.hexDigit? d = some (UInt8.ofNat n) := by
  cases h with
  | @decimal n hn => revert n; decide
  | @lower n hn => revert n; decide
  | @upper n hn => revert n; decide

/-- The bytes of a spelling: those that may stand for themselves, percent signs and digits. -/
theorem Spells.forall_mem {plain p : UInt8 → Prop} {raw spelling : Bytes}
    (h : Spells plain raw spelling) (hplain : ∀ b, plain b → p b) (hpercent : p Byte.percent)
    (hhex : ∀ d ∈ hexDigits, p d) : ∀ b ∈ spelling, p b := by
  induction h with
  | nil => simp
  | literal hb _ ih => exact List.forall_mem_cons.mpr ⟨hplain _ hb, ih⟩
  | escaped hhigh hlow _ ih =>
    simp only [List.forall_mem_cons]
    exact ⟨hpercent, hhex _ hhigh.mem, hhex _ hlow.mem, ih⟩

/-! ### Reading spellings -/

/-- Two digits give their byte back. -/
theorem of_halves (b : UInt8) :
    UInt8.ofNat (b.toNat / 16) * 16 + UInt8.ofNat (b.toNat % 16) = b := by
  have hb := b.toNat_lt
  refine UInt8.toNat_inj.mp ?_
  rw [UInt8.toNat_add, UInt8.toNat_mul, Utf8.toNat_ofNat (by omega), Utf8.toNat_ofNat (by omega),
    show (16 : UInt8).toNat = 16 from rfl]
  omega

theorem bytesAfter?_literal {done rest : Bytes} {b : UInt8} (hb : b ≠ Byte.percent) :
    bytesAfter? done (b :: rest) = bytesAfter? (b :: done) rest := by
  rw [bytesAfter?.eq_def]
  exact if_neg hb

theorem bytesAfter?_escaped {done rest : Bytes} {b high low : UInt8}
    (hhigh : HexDigit high (b.toNat / 16)) (hlow : HexDigit low (b.toNat % 16)) :
    bytesAfter? done (Byte.percent :: high :: low :: rest) = bytesAfter? (b :: done) rest := by
  rw [bytesAfter?.eq_def]
  simp only [if_true, hhigh.read, hlow.read, of_halves]

/-- A spelling is passed over. -/
theorem bytesAfter?_append {plain : UInt8 → Prop} (hplain : ∀ b, plain b → b ≠ Byte.percent)
    {raw spelling : Bytes} (h : Spells plain raw spelling) (done rest : Bytes) :
    bytesAfter? done (spelling ++ rest) = bytesAfter? (raw.reverse ++ done) rest := by
  induction h generalizing done with
  | nil => rfl
  | literal hb _ ih =>
    rw [List.cons_append, bytesAfter?_literal (hplain _ hb), ih, List.reverse_cons,
      List.append_assoc]
    rfl
  | escaped hhigh hlow _ ih =>
    rw [List.cons_append, List.cons_append, List.cons_append, bytesAfter?_escaped hhigh hlow, ih,
      List.reverse_cons, List.append_assoc]
    rfl

theorem bytes?_spelling {plain : UInt8 → Prop} (hplain : ∀ b, plain b → b ≠ Byte.percent)
    {raw spelling : Bytes} (h : Spells plain raw spelling) : bytes? spelling = some raw := by
  have happend := bytesAfter?_append hplain h [] []
  rw [List.append_nil, List.append_nil, bytesAfter?, List.reverse_reverse] at happend
  exact happend

/-- **A spelling is read back** as the text. -/
theorem decode_spelling {delimiters spelling : Bytes} {s : String}
    (h : Spells (Literal delimiters) (Utf8.encode s) spelling) : decode spelling = .ok s := by
  have hbytes := bytes?_spelling (fun _ hb => hb.not_percent) h
  rw [decode, hbytes]
  simp only [Utf8.decode_encode, Except.mapError]

theorem decodeOrRaw_spelling {delimiters spelling : Bytes} {s : String}
    (h : Spells (Literal delimiters) (Utf8.encode s) spelling) : decodeOrRaw spelling = s := by
  rw [decodeOrRaw, decode_spelling h]

theorem Spells.ne_nil {plain : UInt8 → Prop} {raw spelling : Bytes} (h : Spells plain raw spelling)
    (hne : raw ≠ []) : spelling ≠ [] := by
  cases h with
  | nil => exact hne
  | literal _ _ => exact List.cons_ne_nil _ _
  | escaped _ _ _ => exact List.cons_ne_nil _ _

end Percent

namespace Query

open Percent (Spells Literal)

/-! ### Queries -/

/-- **A spelling of a pair**: its name, an equals sign and its value. The name has neither
delimiter in it; the value may have equals signs. -/
inductive SpellsParam : Param → Bytes → Prop
  | intro {p : Param} {name value : Bytes} (hne : p.name ≠ "")
      (hname : Spells (Literal [Byte.ampersand, Byte.equals]) (Utf8.encode p.name) name)
      (hvalue : Spells (Literal [Byte.ampersand]) (Utf8.encode p.value) value) :
      SpellsParam p (name ++ Byte.equals :: value)

/-- **A spelling of pairs**: those of each, with ampersands between them. -/
inductive SpellsQuery : Query → Bytes → Prop
  | intro {pairs : Query} {parts : List Bytes} (h : List.Forall₂ SpellsParam pairs parts) :
      SpellsQuery pairs ([Byte.ampersand].intercalate parts)

/-- The bytes of a spelling of a name or a value, or those of a spelling of a pair. -/
theorem SpellsParam.forall_mem {p : Param} {part : Bytes} {q : UInt8 → Prop}
    (h : SpellsParam p part) (hplain : ∀ b, Literal [Byte.ampersand] b → q b)
    (hpercent : q Byte.percent) (hequals : q Byte.equals)
    (hhex : ∀ d ∈ Percent.hexDigits, q d) : ∀ b ∈ part, q b := by
  cases h with
  | intro _ hname hvalue =>
    simp only [List.forall_mem_append, List.forall_mem_cons]
    refine ⟨hname.forall_mem (fun b hb => hplain b ?_) hpercent hhex, hequals,
      hvalue.forall_mem hplain hpercent hhex⟩
    exact { hb with not_delimiter := fun hmem => hb.not_delimiter (List.mem_cons.mpr
      (.inl (List.mem_singleton.mp hmem))) }

/-- **A pair is read back** off its spelling. -/
theorem param?_spelling {p : Param} {part : Bytes} (h : SpellsParam p part) :
    param? part = some p := by
  cases h with
  | @intro name value hne hname hvalue =>
    have hfree : ∀ b ∈ name, (b != Byte.equals) = true :=
      hname.forall_mem (fun b hb => bne_iff_ne.mpr fun heq => hb.not_delimiter (by simp [heq]))
        (by decide) (by decide +kernel)
    have hsplit : splitPair (name ++ Byte.equals :: value) = (name, value) := by
      rw [splitPair, List.takeWhile_append_of_pos hfree, List.dropWhile_append_of_pos hfree]
      simp
    have hempty : name.isEmpty = false :=
      List.isEmpty_eq_false_iff.mpr (hname.ne_nil (mt Utf8.encode_eq_nil_iff.mp hne))
    rw [param?, hsplit]
    simp only [hempty, Bool.false_eq_true, if_false, Percent.decodeOrRaw_spelling hname,
      Percent.decodeOrRaw_spelling hvalue]

/-- The bytes of a spelling of pairs. -/
theorem SpellsQuery.forall_mem {pairs : Query} {raw : Bytes} {q : UInt8 → Prop}
    (h : SpellsQuery pairs raw) (hplain : ∀ b, Literal [Byte.ampersand] b → q b)
    (hpercent : q Byte.percent) (hampersand : q Byte.ampersand) (hequals : q Byte.equals)
    (hhex : ∀ d ∈ Percent.hexDigits, q d) : ∀ b ∈ raw, q b := by
  cases h with
  | @intro parts h =>
    induction h with
    | nil => simp
    | @cons _ part _ parts hp _ ih =>
      have hpart := hp.forall_mem hplain hpercent hequals hhex
      cases parts with
      | nil => simpa using hpart
      | cons next parts =>
        rw [List.intercalate_cons_cons]
        simp only [List.forall_mem_append, List.forall_mem_singleton]
        exact ⟨⟨hpart, hampersand⟩, ih⟩

theorem SpellsParam.not_mem_ampersand {p : Param} {part : Bytes} (h : SpellsParam p part) :
    Byte.ampersand ∉ part := fun hmem =>
  h.forall_mem (q := fun b => b ≠ Byte.ampersand)
    (fun _ hb heq => hb.not_delimiter (List.mem_singleton.mpr heq)) (by decide) (by decide)
    (by decide +kernel) _ hmem rfl

theorem exists_of_mem_parts {pairs : Query} {parts : List Bytes}
    (h : List.Forall₂ SpellsParam pairs parts) : ∀ part ∈ parts, ∃ p, SpellsParam p part := by
  induction h with
  | nil => simp
  | cons hp _ ih => exact List.forall_mem_cons.mpr ⟨⟨_, hp⟩, ih⟩

/-- **A query is read back** off its spelling: the pairs, in their order. -/
theorem parse_spelling {pairs : Query} {raw : Bytes} (h : SpellsQuery pairs raw) :
    parse raw = pairs := by
  cases h with
  | @intro parts h =>
    have hparts : parts.filterMap param? = pairs := by
      induction h with
      | nil => rfl
      | cons hp _ ih => rw [List.filterMap_cons, param?_spelling hp, ih]
    by_cases hnil : parts = []
    · subst hnil
      cases h
      decide
    · have hfree : ∀ part ∈ parts, Byte.ampersand ∉ part := fun part hpart =>
        (exists_of_mem_parts h part hpart).elim fun _ hp => hp.not_mem_ampersand
      rw [parse, List.splitOn_intercalate _ hfree hnil, hparts]

end Query

end Microweb

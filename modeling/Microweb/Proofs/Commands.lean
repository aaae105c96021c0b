import Microweb.Bench.Registers
import Microweb.Board.Command
import Microweb.Proofs.Readback
import Microweb.Proofs.Utf8

/-!
Commands to a board of registers. A command is carried out or not at all, it changes no register but
its own, and the reply is itself a command, which gives that reply again (`Command.handle_registers`).
-/

namespace Microweb

open Bench (Registers)

/-! ### Texts without white space -/

namespace Text

theorem trim_eq {cs : List Char} (h : ∀ c ∈ cs, isBlank c = false) : trim cs = cs := by
  have hfront : cs.dropWhile isBlank = cs := by
    cases cs with
    | nil => rfl
    | cons c cs => exact List.dropWhile_cons_of_neg (by simp [h c])
  have hback : cs.reverse.dropWhile isBlank = cs.reverse := by
    cases hcs : cs.reverse with
    | nil => rfl
    | cons c rest =>
      have hmem : c ∈ cs := by
        rw [← List.mem_reverse, hcs]
        exact List.mem_cons_self
      exact List.dropWhile_cons_of_neg (by simp [h c hmem])
  rw [trim, hfront, dropEnd, hback, List.reverse_reverse]

theorem isBlank_of_isDigit {c : Char} (h : Decimal.isDigit c = true) : isBlank c = false := by
  have hcode := Decimal.toNat_of_isDigit h
  simp only [isBlank, decide_eq_false_iff_not]
  omega

end Text

namespace Binary32

/-- What the decimals of numbers are made of. -/
theorem ShortDecimal.mem_text {d : ShortDecimal} {c : Char} (h : c ∈ d.text) :
    Decimal.isDigit c = true ∨ c = '.' := by
  have hdigits : ∀ c ∈ Decimal.digits d.digits, Decimal.isDigit c = true :=
    fun c hc => Decimal.isDigit_of_mem_digits hc
  unfold ShortDecimal.text at h
  dsimp only at h
  split_ifs at h
  · rcases List.mem_append.mp h with h | h
    · exact .inl (hdigits c h)
    · rw [List.eq_of_mem_replicate h]
      exact .inl (by decide)
  · rcases List.mem_append.mp h with h | h
    · exact .inl (hdigits c (List.mem_of_mem_take h))
    · rcases List.mem_cons.mp h with rfl | h
      · exact .inr rfl
      · exact .inl (hdigits c (List.mem_of_mem_drop h))
  · rcases List.mem_append.mp h with h | h
    · rcases List.mem_append.mp h with h | h
      · simp only [List.mem_cons, List.not_mem_nil, or_false] at h
        rcases h with rfl | rfl
        · exact .inl (by decide)
        · exact .inr rfl
      · rw [List.eq_of_mem_replicate h]
        exact .inl (by decide)
    · exact .inl (hdigits c h)

theorem isBlank_of_mem_body {x : Binary32} {c : Char} (h : c ∈ x.body) :
    Text.isBlank c = false := by
  have hnames : ∀ c ∈ ['i', 'n', 'f'] ++ ['0'], Text.isBlank c = false := by
    simp [Text.isBlank]
  unfold body at h
  split_ifs at h
  · exact hnames c (List.mem_append_right _ h)
  · rcases ShortDecimal.mem_text h with hdigit | rfl
    · exact Text.isBlank_of_isDigit hdigit
    · decide
  · exact hnames c (List.mem_append_left _ h)

/-- No white space is in the text of a number. -/
theorem isBlank_of_mem_text (x : Binary32) : ∀ c ∈ x.text.toList, Text.isBlank c = false := by
  intro c hc
  by_cases hnan : x.isNaN = true
  · have htext : x.text = "NaN" := if_pos hnan
    have hname : ∀ c ∈ "NaN".toList, Text.isBlank c = false := by simp [Text.isBlank]
    rw [htext] at hc
    exact hname c hc
  · rw [toList_text (by simpa using hnan)] at hc
    split_ifs at hc
    · rcases List.mem_cons.mp hc with rfl | hc
      · decide
      · exact isBlank_of_mem_body hc
    · exact isBlank_of_mem_body hc

end Binary32

namespace Command

/-! ### Commands as they are written -/

/-- The characters of a command for a channel, with what follows its bracket. -/
def written (name : DeviceName) (index : UInt32) (rest : List Char) : List Char :=
  name.text.toList ++ '[' :: (Decimal.digits index.toNat ++ ']' :: rest)

/-- Characters of a byte each are split off by their number. -/
theorem splitAtByte?_append {front : List Char} (h : ∀ c ∈ front, c.utf8Size = 1)
    (rest : List Char) : splitAtByte? front.length (front ++ rest) = some (front, rest) := by
  induction front with
  | nil => cases rest <;> rfl
  | cons c front ih =>
    obtain ⟨hc, hfront⟩ := List.forall_mem_cons.mp h
    rw [List.length_cons, List.cons_append, splitAtByte?, hc, if_pos (by omega),
      Nat.add_sub_cancel, ih hfront, Option.map_some]

theorem splitAtByte?_name (name : DeviceName) (cs : List Char) :
    splitAtByte? 3 (name.text.toList ++ cs) = some (name.text.toList, cs) := by
  have hname : name.text.toList.length = 3 ∧ ∀ c ∈ name.text.toList, c.utf8Size = 1 := by
    cases name <;> simp [DeviceName.text, Char.utf8Size]
  rw [← hname.1, splitAtByte?_append hname.2]

theorem readChannel?_written (index : UInt32) (rest : List Char) :
    readChannel? ('[' :: (Decimal.digits index.toNat ++ ']' :: rest)) =
      (readValue? rest).map fun v => (index, v) := by
  have hdigits : ∀ c ∈ Decimal.digits index.toNat, Decimal.isDigit c = true :=
    fun c hc => Decimal.isDigit_of_mem_digits hc
  have hbracket : ∀ c ∈ Decimal.digits index.toNat, (c != ']') = true := by
    intro c hc
    simpa using Decimal.ne_of_isDigit (hdigits c hc) (by decide : Decimal.isDigit ']' = false)
  have htake : (Decimal.digits index.toNat ++ ']' :: rest).takeWhile (· != ']') =
      Decimal.digits index.toNat := by
    rw [List.takeWhile_append_of_pos hbracket, List.takeWhile_cons_of_neg (by decide),
      List.append_nil]
  have hdrop : (Decimal.digits index.toNat ++ ']' :: rest).dropWhile (· != ']') = ']' :: rest := by
    rw [List.dropWhile_append_of_pos hbracket, List.dropWhile_cons_of_neg (by decide)]
  have htrim : Text.trim (Decimal.digits index.toNat) = Decimal.digits index.toNat :=
    Text.trim_eq fun c hc => Text.isBlank_of_isDigit (hdigits c hc)
  have hread : Decimal.readUpTo? (UInt32.size - 1) (Decimal.digits index.toNat) =
      some index.toNat := Decimal.readUpTo?_digits (Nat.le_sub_one_of_lt index.toNat_lt_size)
  simp only [readChannel?, hdrop, htake, htrim, hread]
  cases readValue? rest with
  | none => simp
  | some v => simp

/-- **A command is read back** as it was written, if no white space is in it. -/
theorem parse_written {name : DeviceName} {index : UInt32} {rest : List Char}
    {value : Option Binary32} (hblank : ∀ c ∈ rest, Text.isBlank c = false)
    (hvalue : readValue? rest = some value) :
    parse (String.ofList (written name index rest)) = .ok ⟨name, index, value⟩ := by
  have htrim : Text.trim (written name index rest) = written name index rest := by
    apply Text.trim_eq
    have hname : ∀ c ∈ name.text.toList, Text.isBlank c = false := by
      cases name <;> simp [DeviceName.text, Text.isBlank]
    intro c hc
    simp only [written, List.mem_append, List.mem_cons] at hc
    rcases hc with hc | rfl | hc | rfl | hc
    · exact hname c hc
    · decide
    · exact Text.isBlank_of_isDigit (Decimal.isDigit_of_mem_digits hc)
    · decide
    · exact hblank c hc
  unfold parse
  rw [String.toList_ofList, htrim, written, splitAtByte?_name]
  dsimp only
  rw [String.ofList_toList, DeviceName.ofText?_text]
  dsimp only
  rw [readChannel?_written, hvalue]
  rfl

/-- The command that shows a channel alone. -/
def query (name : DeviceName) (index : UInt32) : String :=
  name.text ++ "[" ++ Decimal.text index.toNat ++ "]"

theorem parse_query (name : DeviceName) (index : UInt32) :
    parse (query name index) = .ok ⟨name, index, none⟩ := by
  have hquery : query name index = String.ofList (written name index []) := by
    apply String.toList_injective
    simp [query, written, Decimal.text]
  rw [hquery, parse_written (by simp) rfl]

/-- **A reply is a command** that writes what has the text that the reply shows. -/
theorem parse_reply (c : Command) (v : Binary32) : ∃ w : Binary32,
    parse (c.reply v) = .ok ⟨c.name, c.index, some w⟩ ∧ w.text = v.text ∧
      (v.isNaN = false → w = v) := by
  obtain ⟨w, hw, htext⟩ := v.text_stable
  have hreply : c.reply v = String.ofList (written c.name c.index ('=' :: v.text.toList)) := by
    apply String.toList_injective
    simp [reply, written, Decimal.text]
  have hvalue : readValue? ('=' :: v.text.toList) = some (some w) := by
    rw [readValue?, Text.trim_eq v.isBlank_of_mem_text, hw]
    rfl
  have hblank : ∀ d ∈ '=' :: v.text.toList, Text.isBlank d = false :=
    List.forall_mem_cons.mpr ⟨by decide, v.isBlank_of_mem_text⟩
  refine ⟨w, ?_, htext, ?_⟩
  · rw [hreply, parse_written hblank hvalue]
  · intro hnan
    rw [Binary32.read?_text hnan] at hw
    exact (Option.some.inj hw).symm

/-! ### Registers -/

/-- **What becomes of a command** to a board of registers. -/
theorem execute_registers (c : Command) (r : Registers) :
    c.execute (B := Registers.peripherals) r =
      if r.channels ≤ c.index then (.error (.device (.noChannel c.device c.index)), r)
      else match c.value with
        | none => (.ok (c.reply (r.value c.device c.index)), r)
        | some v =>
          if c.device = .adc then (.error (.device (.readOnly c.device)), r)
          else (.ok (c.reply v), r.set c.device c.index v) := by
  by_cases hchannel : r.channels ≤ c.index
  · have hread : ¬ c.index < r.channels := UInt32.not_lt.mpr hchannel
    rw [if_pos hchannel]
    cases hvalue : c.value <;>
      simp [execute, hvalue, Registers.read, Registers.write, hchannel, hread]
  · have hread : c.index < r.channels := UInt32.not_le.mp hchannel
    rw [if_neg hchannel]
    cases hvalue : c.value with
    | none => simp [execute, hvalue, Registers.read, hread]
    | some v =>
      by_cases hadc : c.device = .adc
      · simp [execute, hvalue, Registers.write, hchannel, hadc]
      · simp [execute, hvalue, Registers.write, Registers.read, Registers.set, hchannel, hread,
          hadc]

theorem handle_encode {B : Peripherals} {text : String} {c : Command} (h : parse text = .ok c)
    (s : B.State) : handle (B := B) (Utf8.encode text) s = c.execute s := by
  rw [handle, Utf8.decode_encode]
  dsimp only
  rw [h]

/-- To write what is there already leaves the registers as they are. -/
theorem set_value (d : Device) (i : UInt32) (r : Registers) : r.set d i (r.value d i) = r := by
  have hvalue : (r.set d i (r.value d i)).value = r.value := by
    funext d' i'
    by_cases h : d' = d ∧ i' = i
    · obtain ⟨rfl, rfl⟩ := h
      exact if_pos ⟨rfl, rfl⟩
    · exact if_neg h
  calc r.set d i (r.value d i) = ⟨r.channels, (r.set d i (r.value d i)).value, r.freeHeap⟩ := rfl
    _ = r := by rw [hvalue]

/-- **What a payload comes to**: nothing but an error; or a command that has its channel shown, on a
board that is as before but for the value that the command writes. -/
theorem handle_cases (payload : Bytes) (r : Registers) :
    (∃ e, handle (B := Registers.peripherals) payload r = (.error e, r)) ∨
      ∃ text c r', Utf8.decode payload = .ok text ∧ parse text = .ok c ∧
        handle (B := Registers.peripherals) payload r =
          (.ok (c.reply (r'.value c.device c.index)), r') ∧ c.index < r.channels ∧
        (c.value = none ∧ r' = r ∨ ∃ v, c.value = some v ∧ r' = r.set c.device c.index v) := by
  cases hdecode : Utf8.decode payload with
  | error e =>
    left
    exact ⟨.malformed, by rw [handle, hdecode]⟩
  | ok text =>
    cases hparse : parse text with
    | error e =>
      left
      refine ⟨e, ?_⟩
      rw [handle, hdecode]
      dsimp only
      rw [hparse]
    | ok c =>
      have hhandle : handle (B := Registers.peripherals) payload r = c.execute r := by
        rw [handle, hdecode]
        dsimp only
        rw [hparse]
      rw [hhandle, execute_registers]
      by_cases hchannel : r.channels ≤ c.index
      · exact .inl ⟨_, if_pos hchannel⟩
      · have hlt : c.index < r.channels := UInt32.not_le.mp hchannel
        rw [if_neg hchannel]
        cases hvalue : c.value with
        | none => exact .inr ⟨text, c, r, rfl, hparse, rfl, hlt, .inl ⟨hvalue, rfl⟩⟩
        | some v =>
          by_cases hadc : c.device = .adc
          · exact .inl ⟨_, if_pos hadc⟩
          · right
            refine ⟨text, c, r.set c.device c.index v, rfl, hparse, ?_, hlt,
              .inr ⟨v, hvalue, rfl⟩⟩
            simp [Registers.set, hadc]

/-- **A channel that was shown is shown again**, to who asks for it. -/
theorem handle_query {c : Command} {r : Registers} (hchannel : c.index < r.channels) :
    handle (B := Registers.peripherals) (Utf8.encode (query c.name c.index)) r =
      (.ok (c.reply (r.value c.device c.index)), r) := by
  rw [handle_encode (parse_query _ _), execute_registers, if_neg (UInt32.not_le.mpr hchannel)]
  rfl

/-- **A reply that is sent back is given again**, where it can be written. -/
theorem handle_reply {c : Command} {r : Registers} (hchannel : c.index < r.channels)
    (hdevice : c.device ≠ .adc) : ∃ r', handle (B := Registers.peripherals)
      (Utf8.encode (c.reply (r.value c.device c.index))) r =
        (.ok (c.reply (r.value c.device c.index)), r') ∧
      ((r.value c.device c.index).isNaN = false → r' = r) := by
  obtain ⟨w, hparse, htext, hsame⟩ := parse_reply c (r.value c.device c.index)
  refine ⟨r.set c.device c.index w, ?_, ?_⟩
  · have hreply : c.reply (r.value c.device c.index) = c.reply w := by rw [reply, reply, htext]
    rw [handle_encode hparse, execute_registers, if_neg (UInt32.not_le.mpr hchannel), hreply]
    exact if_neg hdevice
  · intro hnan
    rw [hsame hnan, set_value]

/-- **Commands are carried out or not at all, and replies are commands.** Whatever the payload and
the registers, a board is left as it was by a command that fails; if it does not fail, no register but
the one it names is another than before, and none at all if it has no value. The reply is read as a
command for the same channel of the same device. To ask for that channel gives the same reply again,
and so does the reply itself, if the device can be written. -/
theorem handle_registers (payload : Bytes) (r : Registers) :
    (∀ e r', handle (B := Registers.peripherals) payload r = (.error e, r') → r' = r) ∧
      ∀ reply r', handle (B := Registers.peripherals) payload r = (.ok reply, r') → ∃ text c,
        Utf8.decode payload = .ok text ∧ parse text = .ok c ∧
        (r'.channels = r.channels ∧ r'.freeHeap = r.freeHeap ∧
          ∀ d i, (d, i) ≠ (c.device, c.index) → r'.value d i = r.value d i) ∧
        (∀ v, c.value = some v → r'.value c.device c.index = v) ∧
        (c.value = none → r' = r) ∧
        (∃ c', parse reply = .ok c' ∧ c'.name = c.name ∧ c'.device = c.device ∧
          c'.index = c.index) ∧
        handle (B := Registers.peripherals) (Utf8.encode (query c.name c.index)) r' =
          (.ok reply, r') ∧
        (c.device ≠ .adc → ∃ r'',
          handle (B := Registers.peripherals) (Utf8.encode reply) r' = (.ok reply, r'') ∧
            ((r'.value c.device c.index).isNaN = false → r'' = r')) := by
  rcases handle_cases payload r with
    ⟨e, herror⟩ | ⟨text, c, r', hdecode, hparse, hok, hlt, hwritten⟩
  · refine ⟨?_, ?_⟩
    · intro e' r' h
      rw [herror] at h
      exact (Prod.mk.inj h).2.symm
    · intro reply r' h
      rw [herror] at h
      cases (Prod.mk.inj h).1
  · have hchannels : r'.channels = r.channels := by
      rcases hwritten with ⟨-, rfl⟩ | ⟨v, -, rfl⟩ <;> rfl
    have hheap : r'.freeHeap = r.freeHeap := by
      rcases hwritten with ⟨-, rfl⟩ | ⟨v, -, rfl⟩ <;> rfl
    have hframe : ∀ d i, (d, i) ≠ (c.device, c.index) → r'.value d i = r.value d i := by
      intro d i hne
      rcases hwritten with ⟨-, rfl⟩ | ⟨v, -, rfl⟩
      · rfl
      · exact if_neg fun heq => hne (Prod.ext heq.1 heq.2)
    have hchannel : c.index < r'.channels := by rwa [hchannels]
    refine ⟨?_, ?_⟩
    · intro e r'' h
      rw [hok] at h
      cases (Prod.mk.inj h).1
    · intro reply r'' h
      rw [hok] at h
      obtain ⟨hreply, rfl⟩ := Prod.mk.inj h
      obtain rfl := Except.ok.inj hreply
      obtain ⟨w, hread, -⟩ := parse_reply c (r'.value c.device c.index)
      refine ⟨text, c, hdecode, hparse, ⟨hchannels, hheap, hframe⟩, ?_, ?_,
        ⟨_, hread, rfl, rfl, rfl⟩, handle_query hchannel, handle_reply hchannel⟩
      · intro v hv
        rcases hwritten with ⟨hnone, -⟩ | ⟨v', hsome, rfl⟩
        · rw [hnone] at hv
          cases hv
        · rw [hsome] at hv
          obtain rfl := Option.some.inj hv
          exact if_pos ⟨rfl, rfl⟩
      · intro hv
        rcases hwritten with ⟨-, rfl⟩ | ⟨v', hsome, -⟩
        · rfl
        · rw [hsome] at hv
          cases hv

/-- White space in three places and an index with a sign: the reply has none of it, and is given
again. -/
theorem handle_registers_padded :
    let payload := Utf8.encode " dac[ +01 ]= 1.50\r\n"
    let r := Registers.fresh 4
    ∃ r', handle (B := Registers.peripherals) payload r = (.ok "dac[1]=1.5", r') ∧
      handle (B := Registers.peripherals) (Utf8.encode "dac[1]") r' = (.ok "dac[1]=1.5", r') ∧
      r'.value .pwm 1 = r.value .pwm 1 := by
  intro payload r
  have hreply : (handle (B := Registers.peripherals) payload r).1 = .ok "dac[1]=1.5" := by
    decide +kernel
  obtain ⟨text, c, hdecode, hparse, ⟨-, -, hframe⟩, -, -, -, hquery, -⟩ :=
    (handle_registers payload r).2 _ _ (Prod.ext hreply rfl)
  obtain rfl : " dac[ +01 ]= 1.50\r\n" = text := by
    rw [Utf8.decode_encode] at hdecode
    exact Except.ok.inj hdecode
  obtain ⟨hname, hindex⟩ : c.name = .dac ∧ c.index = 1 := by
    have hchannel : (parse " dac[ +01 ]= 1.50\r\n").toOption.map (fun c => (c.name, c.index)) =
        some (.dac, 1) := by
      decide +kernel
    rw [hparse] at hchannel
    exact Prod.mk.inj (Option.some.inj hchannel)
  rw [hname, hindex] at hquery
  refine ⟨_, Prod.ext hreply rfl, hquery, hframe .pwm 1 ?_⟩
  rw [device, hname]
  simp [DeviceName.device]

end Command

end Microweb

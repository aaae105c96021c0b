import Mathlib.Data.Multiset.Filter
import Mathlib.Data.Multiset.Range
import Microweb.Proofs.Custody
import Microweb.Proofs.Run

/-!
Platforms on record. Files are numbered in the order of being opened and scripts in the order of
being loaded, and all that a volume and an interpreter are asked for is written down; otherwise a
platform on record answers as it would without (the modules under `Forget` show it for servers).
-/

namespace Microweb

/-! ### Records -/

/-- A state, and what was asked of it, the last first. -/
structure Recorded (S E : Type) where
  inner : S
  trace : List E

/-- A state of which nothing was asked yet. -/
def Recorded.start {S E : Type} (inner : S) : Recorded S E := ⟨inner, []⟩

/-- **A record grew** by entries that are such, given what was on record before each. -/
structure Grew {E : Type} (such : E → List E → Prop) (t t' : List E) : Prop where
  suffix : t <:+ t'
  entries : ∀ e earlier, e :: earlier <:+ t' → t <:+ earlier → such e earlier

namespace Grew

variable {E : Type} {such such' : E → List E → Prop} {t t' t'' : List E}

theorem refl (such : E → List E → Prop) (t : List E) : Grew such t t := by
  refine ⟨List.suffix_refl t, fun e earlier h h' => ?_⟩
  have hlt := (h.trans h').length_le
  rw [List.length_cons] at hlt
  omega

theorem cons (h : Grew such t t') {e : E} (he : such e t') : Grew such t (e :: t') := by
  refine ⟨h.suffix.trans (List.suffix_cons e t'), fun e' earlier hsuffix hsince => ?_⟩
  obtain heq | hsuffix := List.suffix_cons_iff.mp hsuffix
  · obtain ⟨rfl, rfl⟩ := List.cons.inj heq
    exact he
  · exact h.entries e' earlier hsuffix hsince

theorem mono (h : Grew such t t') (hsuch : ∀ e earlier, such e earlier → such' e earlier) :
    Grew such' t t' :=
  ⟨h.suffix, fun e earlier hsuffix hsince => hsuch e earlier (h.entries e earlier hsuffix hsince)⟩

theorem trans (h : Grew such t t') (h' : Grew such t' t'') : Grew such t t'' := by
  refine ⟨h.suffix.trans h'.suffix, fun e earlier hsuffix hsince => ?_⟩
  obtain hold | hnew := List.suffix_or_suffix_of_suffix hsuffix h'.suffix
  · exact h.entries e earlier hold hsince
  · obtain rfl | hnew := List.suffix_cons_iff.mp hnew
    · exact h.entries e earlier (List.suffix_refl _) hsince
    · exact h'.entries e earlier hsuffix hnew

/-- All entries of a record that grew from nothing are such. -/
theorem of_mem (h : Grew such [] t) {e : E} (he : e ∈ t) : ∃ earlier, such e earlier := by
  obtain ⟨since, earlier, rfl⟩ := List.append_of_mem he
  exact ⟨earlier, h.entries e earlier (List.suffix_append _ _) List.nil_suffix⟩

end Grew

/-- A handle with its number. -/
structure Numbered (H : Type) where
  handle : H
  number : Nat

/-- What a volume was asked for. -/
inductive FileEvent where
  | opened (path : String)
  | refused (path : String)
  | read (number : Nat)
  | sought (number : Nat)
  | sized (number : Nat)
  | closed (number : Nat)
  | asked (path : String)
deriving DecidableEq

/-- What an interpreter was asked for. -/
inductive ScriptEvent where
  | published (query : Query)
  | assigned (name value : String)
  | loaded (path : String)
  | refused (path : String)
  | called (number : Nat)
  | released (number : Nat)
  | collected
deriving DecidableEq

/-! ### Ledgers -/

/-- How many handles were handed out, by number, and which were given back, the last first. -/
structure Ledger where
  issued : Nat
  returned : List Nat
deriving DecidableEq

namespace Ledger

/-- The handles that were not given back. -/
def outstanding (l : Ledger) : List Nat := (List.range l.issued).filter (· ∉ l.returned)

/-- The handles given back and the handles held are, each once, those handed out. -/
def Balances (l : Ledger) (held : Multiset Nat) : Prop :=
  (l.returned : Multiset Nat) + held = Multiset.range l.issued

variable {l : Ledger} {held : Multiset Nat} {n : Nat}

theorem Balances.issue (h : l.Balances held) :
    (⟨l.issued + 1, l.returned⟩ : Ledger).Balances ({l.issued} + held) := by
  unfold Balances at *
  rw [add_left_comm, h, Multiset.range_succ, Multiset.singleton_add]

theorem Balances.giveBack (h : l.Balances ({n} + held)) :
    (⟨l.issued, n :: l.returned⟩ : Ledger).Balances held := by
  unfold Balances at *
  rw [← h, ← Multiset.cons_coe, ← Multiset.singleton_add, add_assoc, add_left_comm]

theorem Balances.count (h : l.Balances held) (n : Nat) :
    l.returned.count n + held.count n = if n < l.issued then 1 else 0 := by
  have hn := congrArg (Multiset.count n) h
  rw [Multiset.count_add, Multiset.coe_count] at hn
  rw [hn]
  by_cases hlt : n < l.issued
  · rw [if_pos hlt, Multiset.count_eq_one_of_mem (Multiset.nodup_range _)
      (Multiset.mem_range.mpr hlt)]
  · rw [if_neg hlt, Multiset.count_eq_zero_of_notMem fun hmem => hlt (Multiset.mem_range.mp hmem)]

/-- **What is out is what is held.** -/
theorem Balances.outstanding_eq (h : l.Balances held) : (l.outstanding : Multiset Nat) = held := by
  ext n
  have hc := h.count n
  rw [Multiset.coe_count, outstanding]
  by_cases hret : n ∈ l.returned
  · have hpos := List.count_pos_iff.mpr hret
    rw [List.count_eq_zero_of_not_mem fun hmem => by simp [hret] at hmem]
    split at hc <;> omega
  · rw [List.count_eq_zero_of_not_mem hret, zero_add] at hc
    rw [hc, List.count_filter (by simpa using hret), List.nodup_range.count]
    simp only [List.mem_range]

/-- What the handles given back and the handles held, by number, are to those handed out. -/
structure Settles (l : Ledger) (held : List Nat) : Prop where
  /-- As many are out as are held. -/
  length_outstanding : l.outstanding.length = held.length
  /-- One that was handed out was given back once, or else it is held once. -/
  once : ∀ n < l.issued,
    l.returned.count n = 1 ∧ held.count n = 0 ∨ l.returned.count n = 0 ∧ held.count n = 1
  /-- One that was not handed out is neither given back nor held. -/
  never : ∀ n, l.issued ≤ n → n ∉ l.returned ∧ n ∉ held

theorem Balances.settles {held : List Nat} (h : l.Balances held) : l.Settles held := by
  have hc : ∀ n, l.returned.count n + held.count n = if n < l.issued then 1 else 0 := by
    intro n
    have hn := h.count n
    rwa [Multiset.coe_count] at hn
  refine ⟨?_, fun n hn => ?_, fun n hn => ?_⟩
  · have hcard := congrArg Multiset.card h.outstanding_eq
    rwa [Multiset.coe_card, Multiset.coe_card] at hcard
  · have hone := hc n
    rw [if_pos hn] at hone
    omega
  · have hzero := hc n
    rw [if_neg (by omega)] at hzero
    exact ⟨List.count_eq_zero.mp (by omega), List.count_eq_zero.mp (by omega)⟩

/-- A handle that was held and no longer is was given back. -/
theorem Settles.count_returned {l' : Ledger} {held held' : List Nat} (h : l.Settles held)
    (h' : l'.Settles held') (hle : l.issued ≤ l'.issued) (hmem : n ∈ held) (hnot : n ∉ held') :
    l'.returned.count n = 1 := by
  have hlt : n < l.issued := by
    by_contra hge
    exact (h.never n (by omega)).2 hmem
  obtain ⟨hret, -⟩ | ⟨-, hheld⟩ := h'.once n (by omega)
  · exact hret
  · have hpos := List.count_pos_iff.mp (by omega : 0 < held'.count n)
    exact absurd hpos hnot

/-- A handle that is held is held once. -/
theorem Settles.count_held {held : List Nat} (h : l.Settles held) (hmem : n ∈ held) :
    held.count n = 1 := by
  have hpos := List.count_pos_iff.mpr hmem
  by_cases hlt : n < l.issued
  · have := h.once n hlt
    omega
  · exact absurd hmem (h.never n (by omega)).2

/-- What was given back once stays so. -/
theorem Settles.count_returned_mono {l' : Ledger} {held' : List Nat} (h' : l'.Settles held')
    (hle : l.returned.Sublist l'.returned) (hone : l.returned.count n = 1) :
    l'.returned.count n = 1 := by
  have hpos := hle.count_le n
  have hmem : n ∈ l'.returned := List.count_pos_iff.mp (by omega)
  have hlt : n < l'.issued := by
    by_contra hge
    exact (h'.never n (by omega)).1 hmem
  have := h'.once n hlt
  omega

/-- A handle that one of the holders held was given back, once the others hold what is held. -/
theorem Settles.count_freed {α : Type} {number? : α → Option Nat} {before after : List α} {x : α}
    {l' : Ledger} (h : l.Settles ((before ++ x :: after).filterMap number?))
    (h' : l'.Settles ((before ++ after).filterMap number?)) (hle : l.issued ≤ l'.issued)
    (hx : number? x = some n) : l'.returned.count n = 1 := by
  have hmem : n ∈ (before ++ x :: after).filterMap number? :=
    List.mem_filterMap.mpr ⟨x, by simp, hx⟩
  have hone := h.count_held hmem
  rw [List.filterMap_append, List.filterMap_cons_some hx, List.count_append,
    List.count_cons_self] at hone
  refine h.count_returned h' hle hmem fun hmem' => ?_
  have hpos := List.count_pos_iff.mpr hmem'
  rw [List.filterMap_append, List.count_append] at hpos
  omega

end Ledger

namespace FileEvent

def isOpening : FileEvent → Bool
  | opened _ => true
  | _ => false

def closed? : FileEvent → Option Nat
  | closed n => some n
  | _ => none

/-- The files opened and the files closed. -/
def ledger (t : List FileEvent) : Ledger := ⟨t.countP isOpening, t.filterMap closed?⟩

theorem ledger_issued_le {t t' : List FileEvent} (h : t <:+ t') :
    (ledger t).issued ≤ (ledger t').issued := h.sublist.countP_le

theorem ledger_returned_sublist {t t' : List FileEvent} (h : t <:+ t') :
    (ledger t).returned.Sublist (ledger t').returned := h.sublist.filterMap closed?

theorem ledger_opened (t : List FileEvent) (path : String) :
    ledger (opened path :: t) = ⟨(ledger t).issued + 1, (ledger t).returned⟩ := by
  rw [ledger, List.countP_cons_of_pos rfl, List.filterMap_cons_none rfl]
  rfl

theorem ledger_closed (t : List FileEvent) (n : Nat) :
    ledger (closed n :: t) = ⟨(ledger t).issued, n :: (ledger t).returned⟩ := rfl

end FileEvent

namespace ScriptEvent

def isLoading : ScriptEvent → Bool
  | loaded _ => true
  | _ => false

def released? : ScriptEvent → Option Nat
  | released n => some n
  | _ => none

/-- The scripts loaded and the scripts released. -/
def ledger (t : List ScriptEvent) : Ledger := ⟨t.countP isLoading, t.filterMap released?⟩

theorem ledger_issued_le {t t' : List ScriptEvent} (h : t <:+ t') :
    (ledger t).issued ≤ (ledger t').issued := h.sublist.countP_le

theorem ledger_returned_sublist {t t' : List ScriptEvent} (h : t <:+ t') :
    (ledger t).returned.Sublist (ledger t').returned := h.sublist.filterMap released?

theorem ledger_loaded (t : List ScriptEvent) (path : String) :
    ledger (loaded path :: t) = ⟨(ledger t).issued + 1, (ledger t).returned⟩ := by
  rw [ledger, List.countP_cons_of_pos rfl, List.filterMap_cons_none rfl]
  rfl

theorem ledger_released (t : List ScriptEvent) (n : Nat) :
    ledger (released n :: t) = ⟨(ledger t).issued, n :: (ledger t).returned⟩ := rfl

end ScriptEvent

/-! ### Platforms on record -/

/-- A volume on record. -/
abbrev Volume.recorded (V : Volume) : Volume where
  State := Recorded V.State FileEvent
  File := Numbered V.File
  openFile path s :=
    match V.openFile path s.inner with
    | (.ok f, inner) => (.ok ⟨f, (FileEvent.ledger s.trace).issued⟩, ⟨inner, .opened path :: s.trace⟩)
    | (.error e, inner) => (.error e, ⟨inner, .refused path :: s.trace⟩)
  read f room s :=
    let ((r, handle), inner) := V.read f.handle room s.inner
    ((r, { f with handle }), ⟨inner, .read f.number :: s.trace⟩)
  seek f position s :=
    let ((r, handle), inner) := V.seek f.handle position s.inner
    ((r, { f with handle }), ⟨inner, .sought f.number :: s.trace⟩)
  size f s :=
    let (r, inner) := V.size f.handle s.inner
    (r, ⟨inner, .sized f.number :: s.trace⟩)
  close f s := ⟨V.close f.handle s.inner, .closed f.number :: s.trace⟩
  isDirectory path s :=
    let (r, inner) := V.isDirectory path s.inner
    (r, ⟨inner, .asked path :: s.trace⟩)

/-- An interpreter on record. -/
abbrev Interpreter.recorded (I : Interpreter) : Interpreter where
  State := Recorded I.State ScriptEvent
  Script := Numbered I.Script
  setQuery q s := ⟨I.setQuery q s.inner, .published q :: s.trace⟩
  setGlobal name value s := ⟨I.setGlobal name value s.inner, .assigned name value :: s.trace⟩
  load path s :=
    match I.load path s.inner with
    | (.ok x, inner) =>
      (.ok ⟨x, (ScriptEvent.ledger s.trace).issued⟩, ⟨inner, .loaded path :: s.trace⟩)
    | (.error e, inner) => (.error e, ⟨inner, .refused path :: s.trace⟩)
  call x s :=
    let ((r, handle), inner) := I.call x.handle s.inner
    ((r, { x with handle }), ⟨inner, .called x.number :: s.trace⟩)
  release x s := ⟨I.release x.handle s.inner, .released x.number :: s.trace⟩
  collect s := ⟨I.collect s.inner, .collected :: s.trace⟩
  absent := I.absent

/-- A platform with its volume and its interpreter on record. -/
abbrev Platform.recorded (P : Platform) : Platform :=
  { P with volume := P.volume.recorded, interpreter := P.interpreter.recorded }

namespace Surroundings

/-- Around a platform on record anything may happen, except to the records. -/
def recorded (P : Platform) : Surroundings P.recorded where
  network _ _ := True
  volume s s' := s'.trace = s.trace
  interpreter s s' := s'.trace = s.trace

end Surroundings

/-- The network of a platform on record may change alone. -/
theorem Server.Step.ofNetwork {P : Platform} (s : Server P.recorded)
    (f : P.network.State → P.network.State) : Step (.recorded P) s (s.onNetwork f) :=
  .onNetwork (fun _ => rfl) (fun _ => rfl) s f trivial

/-! ### What is put on record -/

section Recorded

variable {V : Volume} {I : Interpreter}

theorem Volume.recorded_openFile_ok {path : String} {s s' : V.recorded.State}
    {f : V.recorded.File} (heq : V.recorded.openFile path s = (.ok f, s')) :
    f.number = (FileEvent.ledger s.trace).issued ∧ s'.trace = .opened path :: s.trace := by
  dsimp only at heq
  split at heq
  · cases heq
    exact ⟨rfl, rfl⟩
  · cases heq

theorem Volume.recorded_openFile_error {path : String} {s s' : V.recorded.State} {e : VolumeError}
    (heq : V.recorded.openFile path s = (.error e, s')) : s'.trace = .refused path :: s.trace := by
  dsimp only at heq
  split at heq
  · cases heq
  · cases heq
    rfl

theorem Interpreter.recorded_load_ok {path : String} {s s' : I.recorded.State}
    {x : I.recorded.Script} (heq : I.recorded.load path s = (.ok x, s')) :
    x.number = (ScriptEvent.ledger s.trace).issued ∧ s'.trace = .loaded path :: s.trace := by
  dsimp only at heq
  split at heq
  · cases heq
    exact ⟨rfl, rfl⟩
  · cases heq

theorem Interpreter.recorded_load_error {path : String} {s s' : I.recorded.State}
    {e : ScriptError} (heq : I.recorded.load path s = (.error e, s')) :
    s'.trace = .refused path :: s.trace := by
  dsimp only at heq
  split at heq
  · cases heq
  · cases heq
    rfl

end Recorded

/-! ### Records grow -/

/-- What was on record stays there. -/
def Volume.Custody.since (V : Volume) (t : List FileEvent) : V.recorded.Custody where
  holds _ s := t <:+ s.trace
  openFile_ok h heq := by
    rw [(recorded_openFile_ok heq).2]
    exact h.trans (List.suffix_cons _ _)
  openFile_error h heq := by
    rw [recorded_openFile_error heq]
    exact h.trans (List.suffix_cons _ _)
  read h heq := by
    cases heq
    exact h.trans (List.suffix_cons _ _)
  size h := h.trans (List.suffix_cons _ _)
  close h := h.trans (List.suffix_cons _ _)
  isDirectory h := h.trans (List.suffix_cons _ _)

/-- What was on record stays there. -/
def Interpreter.Custody.since (I : Interpreter) (t : List ScriptEvent) : I.recorded.Custody where
  holds _ s := t <:+ s.trace
  setQuery h := h.trans (List.suffix_cons _ _)
  setGlobal h := h.trans (List.suffix_cons _ _)
  load_ok h heq := by
    rw [(recorded_load_ok heq).2]
    exact h.trans (List.suffix_cons _ _)
  load_error h heq := by
    rw [recorded_load_error heq]
    exact h.trans (List.suffix_cons _ _)
  call h heq := by
    cases heq
    exact h.trans (List.suffix_cons _ _)
  release h := h.trans (List.suffix_cons _ _)
  collect h := h.trans (List.suffix_cons _ _)

/-- What was on record stays there. -/
def Custody.since {P : Platform} (h : Host P.recorded) : Custody P.recorded where
  network := .any _
  volume := .since _ h.volume.trace
  interpreter := .since _ h.interpreter.trace
  log _ := True
  note _ _ := trivial

theorem Custody.accepts_since {P : Platform} (h : Host P.recorded) :
    (Custody.since h).network.Accepts := ⟨fun _ _ => trivial, fun _ _ => trivial⟩

theorem Custody.Covers.since {P : Platform} (h : Host P.recorded) (x : Holdings P.recorded) :
    (Custody.since h).Covers x h := ⟨trivial, List.suffix_refl _, List.suffix_refl _, trivial⟩

end Microweb

import Microweb.Proofs.Bench
import Microweb.Proofs.Custody.Server

/-!
The balance of handles: what was opened and not closed is what the slots hold, and what was loaded
and not released likewise, at every moment of every run.
-/

namespace Microweb

variable {P : Platform}

/-! ### What a connection holds -/

/-- The file that the response of a connection is made from, if it is open. -/
def Client.file? (c : Client P) : Option P.File :=
  match c.stage with
  | .streaming (.file job) => some job.file
  | .ending (some (.file job)) => some job.file
  | _ => none

/-- The script that the response of a connection is made from, if it is loaded. -/
def Client.script? (c : Client P) : Option P.Script :=
  match c.stage with
  | .streaming (.script job) => some job.script
  | .ending (some (.script job)) => some job.script
  | _ => none

theorem Client.file_holdings (c : Client P) : c.holdings.2.1 = ↑c.file?.toList := by
  unfold Client.holdings Client.connHoldings Client.file?
  cases c.conn <;> rcases c.stage with _ | _ | (_ | _) | (_ | _ | _) | _ <;> rfl

theorem Client.script_holdings (c : Client P) : c.holdings.2.2 = ↑c.script?.toList := by
  unfold Client.holdings Client.connHoldings Client.script?
  cases c.conn <;> rcases c.stage with _ | _ | (_ | _) | (_ | _ | _) | _ <;> rfl

/-- Peers hold neither files nor scripts. -/
theorem Peer.holdings_snd (ps : List (Peer P.Conn)) : (Peer.holdings ps).2 = 0 := by
  induction ps with
  | nil => rfl
  | cons p ps ih =>
    rw [Peer.holdings_cons, Prod.snd_add, ih]
    rfl

namespace Server

variable (s : Server P)

/-- The files that the slots hold. -/
def files : List P.File := s.slots.items.filterMap Client.file?

/-- The scripts that the slots hold. -/
def scripts : List P.Script := s.slots.items.filterMap Client.script?

theorem file_holdings : s.holdings.2.1 = ↑s.files := by
  rw [holdings, Prod.snd_add, Peers.holdings, Peer.holdings_snd, add_zero]
  exact Client.sum_holdings ((AddMonoidHom.fst _ _).comp (AddMonoidHom.snd _ _)) Client.file?
    Client.file_holdings _

theorem script_holdings : s.holdings.2.2 = ↑s.scripts := by
  rw [holdings, Prod.snd_add, Peers.holdings, Peer.holdings_snd, add_zero]
  exact Client.sum_holdings ((AddMonoidHom.snd _ _).comp (AddMonoidHom.snd _ _)) Client.script?
    Client.script_holdings _

end Server

/-! ### Keeping the balance -/

/-- The files that are out balance the record. -/
def Volume.Custody.balance (V : Volume) : V.recorded.Custody where
  holds fs s := (FileEvent.ledger s.trace).Balances (fs.map Numbered.number)
  openFile_ok h heq := by
    obtain ⟨hnumber, htrace⟩ := recorded_openFile_ok heq
    rw [htrace, FileEvent.ledger_opened, Multiset.map_add, Multiset.map_singleton, hnumber]
    exact h.issue
  openFile_error h heq := by
    rw [recorded_openFile_error heq]
    exact h
  read h heq := by
    cases heq
    rw [Multiset.map_add, Multiset.map_singleton] at h ⊢
    exact h
  size h := h
  close h := by
    rw [Multiset.map_add, Multiset.map_singleton] at h
    rw [FileEvent.ledger_closed]
    exact h.giveBack
  isDirectory h := h

/-- The scripts that are out balance the record. -/
def Interpreter.Custody.balance (I : Interpreter) : I.recorded.Custody where
  holds ss s := (ScriptEvent.ledger s.trace).Balances (ss.map Numbered.number)
  setQuery h := h
  setGlobal h := h
  load_ok h heq := by
    obtain ⟨hnumber, htrace⟩ := recorded_load_ok heq
    rw [htrace, ScriptEvent.ledger_loaded, Multiset.map_add, Multiset.map_singleton, hnumber]
    exact h.issue
  load_error h heq := by
    rw [recorded_load_error heq]
    exact h
  call h heq := by
    cases heq
    rw [Multiset.map_add, Multiset.map_singleton] at h ⊢
    exact h
  release h := by
    rw [Multiset.map_add, Multiset.map_singleton] at h
    rw [ScriptEvent.ledger_released]
    exact h.giveBack
  collect h := h

def Custody.balance (P : Platform) : Custody P.recorded where
  network := .any _
  volume := .balance _
  interpreter := .balance _
  log _ := True
  note _ _ := trivial

theorem Custody.accepts_balance (P : Platform) : (balance P).network.Accepts :=
  ⟨fun _ _ => trivial, fun _ _ => trivial⟩

theorem Custody.undisturbed_balance (P : Platform) :
    (balance P).Undisturbed (.recorded P) where
  network _ _ := trivial
  volume h hb := by
    show Ledger.Balances _ _
    rw [h]
    exact hb
  interpreter h hb := by
    show Ledger.Balances _ _
    rw [h]
    exact hb

/-! ### The balance -/

namespace Server

variable {s s₀ : Server P.recorded}

/-- The files opened and the files closed. -/
def fileLedger (s : Server P.recorded) : Ledger := FileEvent.ledger s.host.volume.trace

/-- The scripts loaded and the scripts released. -/
def scriptLedger (s : Server P.recorded) : Ledger := ScriptEvent.ledger s.host.interpreter.trace

/-- The records and the slots agree on what is open and what is loaded. -/
structure Balanced (s : Server P.recorded) : Prop where
  files : s.fileLedger.Settles (s.files.map Numbered.number)
  scripts : s.scriptLedger.Settles (s.scripts.map Numbered.number)

theorem balanced_of_sound (h : (Custody.balance P).Sound s) : s.Balanced := by
  refine ⟨Ledger.Balances.settles ?_, Ledger.Balances.settles ?_⟩
  · have hv := h.volume
    rw [file_holdings] at hv
    exact hv
  · have hi := h.interpreter
    rw [script_holdings] at hi
    exact hi

/-- The records only grow within a tick. -/
theorem trace_midTick (s : Server P.recorded) (k : Nat) :
    (s.midTick k).host.volume.trace <:+ (s.midTick (k + 1)).host.volume.trace ∧
      (s.midTick k).host.interpreter.trace <:+ (s.midTick (k + 1)).host.interpreter.trace := by
  obtain heq | ⟨i, heq⟩ := s.midTick_succ k
  · rw [heq]
    exact ⟨List.suffix_refl _, List.suffix_refl _⟩
  · rw [heq]
    have hs : (Custody.since (s.midTick k).host).Sound (s.midTick k) := Custody.Covers.since _ _
    have hs' := hs.stepSlot i
    exact ⟨hs'.volume, hs'.interpreter⟩

/-- What a connection held when its slot was freed was given back by then. -/
theorem given_back_of_freed {k i : Nat} {c : Client P.recorded} (h : (s.midTick k).Balanced)
    (h' : (s.midTick (k + 1)).Balanced) (hget : (s.midTick k).slots.get? i = some c)
    (hfree : (s.midTick (k + 1)).slots.get? i = none) :
    (∀ f, c.file? = some f → (s.midTick (k + 1)).fileLedger.returned.count f.number = 1) ∧
      ∀ x, c.script? = some x →
        (s.midTick (k + 1)).scriptLedger.returned.count x.number = 1 := by
  obtain ⟨before, after, hitems, hitems'⟩ := exists_items_eq_of_freed hget hfree
  obtain ⟨hv, hi⟩ := s.trace_midTick k
  constructor
  · intro f hf
    have hk := h.files
    have hk' := h'.files
    rw [files, List.map_filterMap, hitems] at hk
    rw [files, List.map_filterMap, hitems'] at hk'
    exact hk.count_freed hk' (FileEvent.ledger_issued_le hv) (by rw [hf]; rfl)
  · intro x hx
    have hk := h.scripts
    have hk' := h'.scripts
    rw [scripts, List.map_filterMap, hitems] at hk
    rw [scripts, List.map_filterMap, hitems'] at hk'
    exact hk.count_freed hk' (ScriptEvent.ledger_issued_le hi) (by rw [hx]; rfl)

/-- From one moment of a tick on, the records only grow. -/
theorem trace_tick {s : Server P.recorded} {k : Nat} (hk : k ≤ s.accept.slots.occupied.length) :
    (s.midTick k).host.volume.trace <:+ s.tick.host.volume.trace ∧
      (s.midTick k).host.interpreter.trace <:+ s.tick.host.interpreter.trace := by
  have hmid : ∀ m, k ≤ m → (s.midTick k).host.volume.trace <:+ (s.midTick m).host.volume.trace ∧
      (s.midTick k).host.interpreter.trace <:+ (s.midTick m).host.interpreter.trace := by
    intro m hm
    induction m, hm using Nat.le_induction with
    | base => exact ⟨List.suffix_refl _, List.suffix_refl _⟩
    | succ m _ ih =>
      obtain ⟨hv, hi⟩ := s.trace_midTick m
      exact ⟨ih.1.trans hv, ih.2.trans hi⟩
  obtain ⟨hv, hi⟩ := hmid _ hk
  rw [s.tick_eq]
  generalize s.midTick s.accept.slots.occupied.length = t at hv hi
  have hs : (Custody.since t.host).Sound t := Custody.Covers.since _ _
  exact ⟨hv.trans hs.poll.volume, hi.trans hs.poll.interpreter⟩

/-- What a connection held when a tick began was given back in it if the tick freed its slot. -/
theorem given_back_of_tick {i : Nat} {c : Client P.recorded} (hmid : ∀ k, (s.midTick k).Balanced)
    (htick : s.tick.Balanced) (hget : s.accept.slots.get? i = some c)
    (hfree : s.tick.slots.get? i = none) :
    (∀ f, c.file? = some f → s.tick.fileLedger.returned.count f.number = 1) ∧
      ∀ x, c.script? = some x → s.tick.scriptLedger.returned.count x.number = 1 := by
  obtain ⟨k, hk, hgetk, -, hlast⟩ := exists_midTick_eq hget
  rw [hlast] at hfree
  obtain ⟨hv, hi⟩ := s.trace_tick hk
  obtain ⟨hfiles, hscripts⟩ := given_back_of_freed (hmid k) (hmid (k + 1)) hgetk hfree
  constructor
  · exact fun f hf => htick.files.count_returned_mono (FileEvent.ledger_returned_sublist hv)
      (hfiles f hf)
  · exact fun x hx => htick.scripts.count_returned_mono (ScriptEvent.ledger_returned_sublist hi)
      (hscripts x hx)

/-- A new server on record has opened and loaded nothing. -/
theorem sound_of_new {config : Config} {network : P.network.State} {volume : P.volume.State}
    {interpreter : P.interpreter.State} {board : P.peripherals.State}
    (hnew : Server.new (P := P.recorded) config network (.start volume) (.start interpreter) board =
      .ok s₀) : (Custody.balance P).Sound s₀ := by
  obtain ⟨-, rfl⟩ := new_eq_ok_iff.mp hnew
  refine ⟨trivial, ?_, ?_, trivial⟩
  · rw [file_holdings, files, Slots.items_free]
    rfl
  · rw [script_holdings, scripts, Slots.items_free]
    rfl

/-- **The balance of handles.** On every run, whatever the network, the volume, the interpreter and
the board do, the files that are open are those that the slots hold for a response that is being
streamed or ended, and the scripts that are loaded likewise: between ticks and at every moment
within one. Each was opened or loaded just once, and is closed or released just once by the time
that its slot is free. -/
theorem handles_balance {config : Config} {network : P.network.State} {volume : P.volume.State}
    {interpreter : P.interpreter.State} {board : P.peripherals.State}
    (hnew : Server.new (P := P.recorded) config network (.start volume) (.start interpreter) board =
      .ok s₀) (hrun : Runs (.recorded P) s₀ s) :
    s.Balanced ∧ ∀ k, (s.midTick k).Balanced ∧
      ∀ i c, (s.midTick k).slots.get? i = some c → (s.midTick (k + 1)).slots.get? i = none →
        (∀ f, c.file? = some f → (s.midTick (k + 1)).fileLedger.returned.count f.number = 1) ∧
          ∀ x, c.script? = some x →
            (s.midTick (k + 1)).scriptLedger.returned.count x.number = 1 := by
  have hs := (sound_of_new hnew).runs (Custody.accepts_balance P) (Custody.undisturbed_balance P)
    id hrun
  have hmid : ∀ k, (s.midTick k).Balanced :=
    fun k => balanced_of_sound (hs.midTick (Custody.accepts_balance P) k)
  exact ⟨balanced_of_sound hs, fun k => ⟨hmid k, fun i c => given_back_of_freed (hmid k) (hmid _)⟩⟩

end Server

/-! ### A file and a script -/

namespace Balance

open Bench

/-- A server with two slots, a file to be sent and a script to be run. -/
def idle : Server kit :=
  onRecord { Config.default with maxConnections := 2 } (Flash.empty.withFile "/html/a" [1, 2, 3])
    (Scripts.empty.withScript "/html/b.lua" (.forever "b"))

/-- The file was sent but not closed, and the script was loaded but not called. -/
def busy : Server kit :=
  ((idle.onNetwork fun ws => ask 0 "/a" (ws.connect (clientAddress 1))).tick.onNetwork
    fun ws => ask 1 "/b.lua" (ws.connect (clientAddress 2))).tick.tick

theorem runs_busy : Server.Runs (.recorded _) idle busy :=
  ((((Relation.ReflTransGen.refl.tail (.step (.ofNetwork _ _))).tail (.step (.tick _))).tail
    (.step (.ofNetwork _ _))).tail (.step (.tick _))).tail (.step (.tick _))

theorem handles_balance_busy : busy.files.length = 1 ∧ busy.scripts.length = 1 ∧ busy.Balanced :=
  ⟨by decide +kernel, by decide +kernel,
    (Server.handles_balance (new_onRecord (by decide) _ _) runs_busy).1⟩

end Balance

end Microweb

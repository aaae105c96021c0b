import Microweb.Proofs.Balance
import Microweb.Proofs.Bench
import Microweb.Proofs.Overheard
import Microweb.Proofs.Upgrades

/-!
A server that is to stop. Once its flag is false, by a stop or as the listener failed for good, it
stays so, and though connections are still accepted and requests still answered, no response is gone
on with: no file is read, no script is called but for a frame, and nothing is written but what a
response starts with and the frames that answer peers. A response under way is ended in the next
tick, and what it was made from is given back in the one after it.
-/

namespace Microweb

open Relation (ReflTransGen)

variable {P : Platform}

/-! ### A quiet host -/

/-- What may be written while no response is gone on with: what a response starts with, and a
server's frame to whoever has an upgrade in the log. -/
def WrittenQuietly (limit : Nat) (log : List Notice) (address : SocketAddress) (bs : Bytes) :
    Prop :=
  Opening bs ∨ Frame.FromServer limit bs ∧ ∃ uri, .upgraded address uri ∈ log

theorem WrittenQuietly.mono {limit : Nat} {log log' : List Notice} {address : SocketAddress}
    {bs : Bytes} (h : WrittenQuietly limit log address bs) (hlog : log <:+ log') :
    WrittenQuietly limit log' address bs :=
  h.imp_right fun ⟨hframe, uri, hmem⟩ => ⟨hframe, uri, hlog.subset hmem⟩

/-- Responses are not gone on with, but all else may be asked of anyone. -/
def Scope.quiet (P : Platform) (limit : Nat) (log : List Notice) : Scope P :=
  ⟨fun _ => True, fun c bs => WrittenQuietly limit log (P.network.address c) bs, fun _ => True,
    fun _ => True, fun _ => True, fun _ => True, False⟩

/-- **A host that was quiet since an earlier state of it.** -/
structure Host.Quiet (limit : Nat) (g h : Host P.overheard.recorded) : Prop where
  /-- No file was read. -/
  reads : Grew (fun e _ => ∀ n, e ≠ .read n) g.volume.trace h.volume.trace
  /-- No script was called, but right after it was loaded for a frame. -/
  calls : Grew ScriptEvent.CalledForFrame g.interpreter.trace h.interpreter.trace
  /-- Nothing was written but what a response starts with, and frames to those upgraded. -/
  writes : Grew (fun e _ => WrittenQuietly limit h.log (P.network.address e.1) e.2)
    g.network.trace h.network.trace
  /-- What was noted stays in the log. -/
  log : g.log <:+ h.log

namespace Host.Quiet

variable {limit : Nat} {g h k : Host P.overheard.recorded}

/-- Nothing was asked. -/
theorem of_eq (hn : h.network.trace = g.network.trace) (hv : h.volume.trace = g.volume.trace)
    (hi : h.interpreter.trace = g.interpreter.trace) (hlog : g.log <:+ h.log) :
    g.Quiet limit h := by
  refine ⟨?_, ?_, ?_, hlog⟩
  · rw [hv]
    exact .refl _ _
  · rw [hi]
    exact .refl _ _
  · rw [hn]
    exact .refl _ _

theorem trans (hq : g.Quiet limit h) (hq' : h.Quiet limit k) : g.Quiet limit k :=
  ⟨hq.reads.trans hq'.reads, hq.calls.trans hq'.calls,
    (hq.writes.mono fun _ _ he => he.mono hq'.log).trans hq'.writes, hq.log.trans hq'.log⟩

theorem of_reaches (hr : (Scope.quiet _ limit g.log).Reaches g h) : g.Quiet limit h := by
  have hwrites : Grew (fun e _ => WrittenQuietly limit g.log (P.network.address e.1) e.2)
      g.network.trace h.network.trace := hr.written
  refine ⟨hr.files.mono fun e _ he n heq => ?_, hr.calls id, ?_, hr.log⟩
  · subst heq
    cases he with
    | read n hs => exact hs
  · exact hwrites.mono fun _ _ he => he.mono hr.log

end Host.Quiet

/-- What a response is made from is held until it is ended. -/
theorem Client.held_goTo_ending {c : Client P} {job : Job P} (hstage : c.stage = .streaming job) :
    (c.goTo (.ending (some job))).file? = c.file? ∧
      (c.goTo (.ending (some job))).script? = c.script? := by
  unfold Client.file? Client.script?
  rw [hstage]
  cases job <;> exact ⟨rfl, rfl⟩

theorem Client.exists_streaming {c : Client P} (h : c.phase = .streaming) :
    ∃ job, c.stage = .streaming job := by
  unfold Client.phase at h
  cases hstage : c.stage with
  | streaming job => exact ⟨job, rfl⟩
  | _ => rw [hstage] at h; cases h

namespace Server

/-! ### A flag that is false -/

theorem isRunning_stepSlot (s : Server P) (i : Nat) : (s.stepSlot i).isRunning = s.isRunning :=
  congrArg Control.running (s.reaches_stepSlot i).control

theorem isRunning_poll (s : Server P) : s.poll.isRunning = s.isRunning :=
  congrArg Control.running s.reaches_poll.control

theorem isRunning_shutdown (s : Server P) : s.shutdown.isRunning = false := by
  obtain ⟨h, hr, heq⟩ := s.reaches_shutdown
  unfold isRunning
  rw [heq]
  exact congrArg Control.running hr.control

/-! ### A server that is quiet -/

section Quiet

variable {s t : Server P.overheard.recorded}

/-- **What stays so** once the flag is false: since that server the host was quiet. -/
structure QuietSince (s t : Server P.overheard.recorded) : Prop where
  stopped : t.isRunning = false
  config : t.config = s.config
  peers : t.PeersNoted
  host : s.host.Quiet s.config.outputSize t.host

namespace QuietSince

theorem refl (hstop : s.isRunning = false) (hpeers : s.PeersNoted) : s.QuietSince s :=
  ⟨hstop, rfl, hpeers, .of_eq rfl rfl rfl (List.suffix_refl _)⟩

/-- An accept asks the network alone, and writes nothing. -/
theorem quiet_accept (s : Server P.overheard.recorded) (limit : Nat) :
    s.host.Quiet limit s.accept.host := by
  obtain ⟨-, hvolume, hinterpreter⟩ := s.accept_frame
  exact .of_eq s.written_accept (congrArg Recorded.trace hvolume)
    (congrArg Recorded.trace hinterpreter) s.log_accept

theorem of_accept (hstop : s.accept.isRunning = false) (hpeers : s.PeersNoted) :
    s.QuietSince s.accept :=
  ⟨hstop, s.config_accept, hpeers.accept, quiet_accept s _⟩

theorem accept (hq : s.QuietSince t) : s.QuietSince t.accept :=
  ⟨isRunning_accept hq.stopped, t.config_accept.trans hq.config, hq.peers.accept,
    hq.host.trans (quiet_accept t _)⟩

/-- A slot starts a response at most. -/
theorem stepSlot (hq : s.QuietSince t) (i : Nat) : s.QuietSince (t.stepSlot i) := by
  refine ⟨(t.isRunning_stepSlot i).trans hq.stopped, (t.config_stepSlot i).trans hq.config,
    hq.peers.stepSlot i, hq.host.trans (.of_reaches ?_)⟩
  refine (Scope.Reaches.refl _ t.host).stepSlot (fun c _ => ⟨?_, fun conn _ => ⟨?_, trivial⟩⟩)
    (fun _ _ => trivial) ⟨t.config.leadsTo_true, fun _ _ _ => trivial⟩
  · exact fun target _ => by cases target <;> trivial
  · refine ⟨trivial, fun bs => .inl, fun hrunning => ?_⟩
    rw [show t.host.control.running = false from hq.stopped] at hrunning
    cases hrunning

/-- The peers are answered as ever. -/
theorem poll (hq : s.QuietSince t) : s.QuietSince t.poll := by
  refine ⟨t.isRunning_poll.trans hq.stopped, hq.config, hq.peers.poll,
    hq.host.trans (.of_reaches ?_)⟩
  refine (Scope.Reaches.refl _ t.host).poll
    (fun p hp => ⟨trivial, fun bs hbs => .inr ⟨hq.config ▸ hbs, p.uri, hq.peers p hp⟩,
      fun _ _ _ => trivial⟩) fun _ _ => trivial

theorem tick (hq : s.QuietSince t) : s.QuietSince t.tick :=
  tick_induction (fun _ h => h.accept) (fun _ i h => h.stepSlot i) (fun _ h => h.poll) hq

/-- A shutdown closes connections, files and scripts, and writes nothing. -/
theorem shutdown (hq : s.QuietSince t) : s.QuietSince t.shutdown := by
  obtain ⟨h, hr, heq⟩ := Scope.Reaches.shutdown (s := t)
    (Scope.Reaches.refl (.quiet _ s.config.outputSize t.host.log) _)
    (fun _ _ _ _ => trivial) fun _ _ => trivial
  have hstop : t.host.Quiet s.config.outputSize { t.host with control := t.host.control.stop } :=
    .of_eq rfl rfl rfl (List.suffix_refl _)
  refine ⟨t.isRunning_shutdown, hq.config, fun p hp => (by cases hp), ?_⟩
  rw [heq]
  exact ((hq.host.trans hstop).trans (.of_reaches hr)).trans
    (.of_eq rfl rfl rfl (List.suffix_cons _ _))

theorem event {u : Server P.overheard.recorded} (hq : s.QuietSince t)
    (h : Event (.overheard P) t u) : s.QuietSince u := by
  have hsame : ∀ h : Host P.overheard.recorded, h.network.trace = t.host.network.trace →
      h.volume.trace = t.host.volume.trace → h.interpreter.trace = t.host.interpreter.trace →
      h.log = t.host.log → h.control.running = false → s.QuietSince { t with host := h } := by
    intro h hn hv hi hlog hrunning
    refine ⟨hrunning, hq.config, hq.peers.keep rfl (hlog ▸ List.suffix_refl _), ?_⟩
    exact hq.host.trans (.of_eq hn hv hi (hlog ▸ List.suffix_refl _))
  cases h with
  | step hstep =>
    cases hstep with
    | tick => exact hq.tick
    | stop => exact hsame _ rfl rfl rfl rfl rfl
    | setTimeouts => exact hsame _ rfl rfl rfl rfl hq.stopped
    | around board uptime hn hv hi => exact hsame _ hn hv hi rfl hq.stopped
  | shutdown => exact hq.shutdown

/-- **A server that is not to run** is quiet whatever comes. -/
theorem runs (hq : s.QuietSince t) {u : Server P.overheard.recorded}
    (hrun : Runs (.overheard P) t u) : s.QuietSince u := by
  induction hrun with
  | refl => exact hq
  | tail _ hevent ih => exact ih.event hevent

end QuietSince

end Quiet

/-! ### Responses under way -/

section Slots

variable {s : Server P} {i : Nat} {c : Client P}

/-- **A response under way** is not gone on with in a tick of a server that is not to run. -/
theorem ending_of_streaming (hstop : s.accept.isRunning = false)
    (hget : s.slots.get? i = some c) {job : Job P} (hstage : c.stage = .streaming job) :
    s.tick.slots.get? i = some (c.goTo (.ending (some job))) := by
  obtain ⟨k, -, hgetk, hstep, hlast⟩ := exists_midTick_eq (get?_accept hget)
  have hstopk : (s.midTick k).isRunning = false :=
    midTick_of_accept (I := fun t => t.isRunning = false)
      (fun t j ht => (t.isRunning_stepSlot j).trans ht) hstop k
  rw [hlast, hstep]
  generalize s.midTick k = t at hgetk hstopk
  have hstopped : ¬ t.host.control.running = true := by
    rw [show t.host.control.running = false from hstopk]
    nofun
  have hc : c.step t.config t.peers t.host =
      (c.goTo (.ending (some job)), t.peers, t.host.note (.cutShort c.address)) := by
    unfold Client.step
    rw [hstage]
    exact if_neg hstopped
  rw [stepSlot_of_open hgetk (by rw [hc]; nofun), hc]
  exact Slots.get?_set_self (Slots.lt_of_get? hgetk)

/-- A response that is to be ended is ended in a tick, and its slot is free. -/
theorem free_of_ending (hget : s.slots.get? i = some c) {job : Option (Job P)}
    (hstage : c.stage = .ending job) : s.tick.slots.get? i = none := by
  obtain ⟨peers, h, ⟨-, hfree⟩ | ⟨hopen, -⟩⟩ := get?_tick (get?_accept hget)
  · exact hfree
  · refine absurd ?_ hopen
    unfold Client.step
    rw [hstage]
    cases job <;> rfl

end Slots

theorem undisturbed_overheard : (Custody.balance P.overheard).Undisturbed (.overheard P) where
  network _ _ := trivial
  volume := (Custody.undisturbed_balance P.overheard).volume
  interpreter := (Custody.undisturbed_balance P.overheard).interpreter

/-- **A stop cuts responses short.** At every point of every run, whatever clients do and whatever
the network, the volume, the interpreter and the board do: if the server is not to run, it never is
again, and whatever comes it is quiet from then on: no file is read, no script is called but for a
frame, and nothing is written but heads, pages for what is not there and frames to those upgraded.
If it is not to run after the accept of a tick, be it that the flag was false or that the listener
failed for good in it, then the rest of that tick is quiet likewise and leaves the flag as it is;
each response under way is to be ended after that tick, and after the next one, whatever happens in
between, its slot is free and what it was made from was closed or released, just once. -/
theorem stop_cuts_short {s₀ s : Server P.overheard.recorded} {config : Config}
    {network : P.network.State} {volume : P.volume.State} {interpreter : P.interpreter.State}
    {board : P.peripherals.State}
    (hnew : Server.new (P := P.overheard.recorded) config (.start network) (.start volume)
      (.start interpreter) board = .ok s₀) (hrun : Runs (.overheard P) s₀ s) :
    (s.isRunning = false → s.accept.isRunning = false ∧
      ∀ t, Runs (.overheard P) s t → t.isRunning = false ∧
        s.host.Quiet s.config.outputSize t.host) ∧
    (s.accept.isRunning = false → s.tick.isRunning = false ∧
      s.host.Quiet s.config.outputSize s.tick.host ∧
      ∀ i c job, s.slots.get? i = some c → c.stage = .streaming job →
        s.tick.slots.get? i = some (c.goTo (.ending (some job))) ∧
        ∀ t, ReflTransGen (Aside (.overheard P)) s.tick t → t.tick.slots.get? i = none ∧
          (∀ f, c.file? = some f → t.tick.fileLedger.returned.count f.number = 1) ∧
          ∀ x, c.script? = some x → t.tick.scriptLedger.returned.count x.number = 1) := by
  have hpeers := (PeersNoted.of_new hnew).runs hrun
  refine ⟨fun hstop => ⟨isRunning_accept hstop, fun t ht => ?_⟩, fun hstop => ?_⟩
  · have hq := (QuietSince.refl hstop hpeers).runs ht
    exact ⟨hq.stopped, hq.host⟩
  · have hq : s.QuietSince s.tick := tick_of_accept (fun _ i h => h.stepSlot i)
      (fun _ h => h.poll) (.of_accept hstop hpeers)
    refine ⟨hq.stopped, hq.host, fun i c job hget hstage => ?_⟩
    have hending := ending_of_streaming hstop hget hstage
    refine ⟨hending, fun t ht => ?_⟩
    have hslots : t.slots = s.tick.slots := by
      induction ht with
      | refl => rfl
      | tail _ ha ih => exact ha.frame.2.1.trans ih
    have hgett : t.slots.get? i = some (c.goTo (.ending (some job))) := by rw [hslots, hending]
    have hfree := free_of_ending hgett rfl
    have hrunt : Runs (.overheard P) s₀ t := (hrun.tail (.step (.tick s))).trans
      (ht.lift id fun _ _ ha => .step ha.step)
    have hs : (Custody.balance P.overheard).Sound t := (sound_of_new hnew).runs
      (Custody.accepts_balance _) undisturbed_overheard id hrunt
    obtain ⟨hfiles, hscripts⟩ := given_back_of_tick
      (fun k => balanced_of_sound (hs.midTick (Custody.accepts_balance _) k))
      (balanced_of_sound (hs.tick (Custody.accepts_balance _))) (get?_accept hgett) hfree
    obtain ⟨hfile, hscript⟩ := Client.held_goTo_ending hstage
    exact ⟨hfree, fun f hf => hfiles f (hfile.trans hf), fun x hx => hscripts x (hscript.trans hx)⟩

end Server

/-! ### A listener that fails -/

namespace Stop

open Bench

/-- A flash volume and scripts, on record, and wires that are overheard. -/
abbrev kit : Platform := (platform Flash.volume Scripts.interpreter).overheard.recorded

/-- Sixteen bytes of a file are sent at a time. -/
def config : Config :=
  { Config.default with maxConnections := 3, outputSize := 16, maxUriLength := 256 }

/-- A server with a file to be sent, a script to be run, and another one for frames. -/
def idle : Server kit where
  config
  slots := .free config.maxConnections
  peers := .empty config.maxPeers
  host := {
    network := .start .empty
    volume := .start ⟨Flash.empty.withFile "/html/a" (List.replicate 64 0x61), .none, 0⟩
    interpreter := .start ((Scripts.empty.withScript "/html/b.lua" (.forever "b")).withScript
      "/html/c.lua" (.echoGlobal frameGlobal))
    board := .fresh 4
    control := .start config.timeouts
    uptime := 0
    log := [] }

/-- Clients act on the wires. -/
def act (s : Server kit) (f : Wires → Wires) : Server kit :=
  s.onNetwork fun r => { r with inner := f r.inner }

/-- The first client asks for an upgrade, the second for the file and the third for the script. -/
def queue : Server kit := act idle fun ws => ask 1 "/a" (ask 2 "/b.lua"
  ((((ws.connect (clientAddress 1)).connect (clientAddress 2)).connect (clientAddress 3)).update 0
    fun w => w.send (upgradeRequest "/c.lua" "dGhlIHNhbXBsZSBub25jZQ==")))

/-- The first client is a peer and has sent a frame, a piece of the file was sent, the script was
loaded, and the listener is about to fail. -/
def failing : Server kit := act queue.tick.tick.tick.tick fun ws =>
  { ws.update 0 fun w => w.send (Frame.encodeMasked Opcode.text [0x68] ⟨1, 2, 3, 4⟩) with
    acceptErrors := [.closed] }

theorem step_act (s : Server kit) (f : Wires → Wires) : Server.Step (.overheard _) s (act s f) :=
  (Server.Aside.ofNetwork s f).step

theorem runs_failing : Server.Runs (.overheard _) idle failing :=
  (((((ReflTransGen.refl.tail (.step (step_act _ _))).tail (.step (.tick _))).tail
    (.step (.tick _))).tail (.step (.tick _))).tail (.step (.tick _))).tail
    (.step (step_act _ _))

/-- A slot with a response under way that something is held for. -/
theorem exists_underWay {α : Type} {s : Server kit} {i : Nat} {held : Client kit → Option α}
    (h : (s.slots.get? i).any fun c => decide (c.phase = .streaming) && (held c).isSome) :
    ∃ c job x, s.slots.get? i = some c ∧ c.phase = .streaming ∧ c.stage = .streaming job ∧
      held c = some x := by
  obtain ⟨c, hget, hc⟩ := (Option.any_eq_true _ _).mp h
  obtain ⟨hphase, hsome⟩ := Bool.and_eq_true_iff.mp hc
  obtain ⟨x, hx⟩ := Option.isSome_iff_exists.mp hsome
  obtain ⟨job, hstage⟩ := Client.exists_streaming (of_decide_eq_true hphase)
  exact ⟨c, job, x, hget, of_decide_eq_true hphase, hstage, hx⟩

/-- In the tick in which the listener fails a script is called for the frame, and nothing else. In
the next one the file is closed and the other script released. -/
theorem stop_cuts_short_failing : failing.isRunning = true ∧ failing.tick.isRunning = false ∧
    .called 1 ∈ failing.tick.host.interpreter.trace ∧ failing.host.Quiet 16 failing.tick.host ∧
    (∀ t, Server.Runs (.overheard _) failing.tick t →
      t.isRunning = false ∧ failing.tick.host.Quiet 16 t.host) ∧
    (∃ c f, failing.slots.get? 0 = some c ∧ c.phase = .streaming ∧ c.file? = some f ∧
      failing.tick.tick.slots.get? 0 = none ∧
      failing.tick.tick.fileLedger.returned.count f.number = 1) ∧
    ∃ c x, failing.slots.get? 1 = some c ∧ c.phase = .streaming ∧ c.script? = some x ∧
      failing.tick.tick.slots.get? 1 = none ∧
      failing.tick.tick.scriptLedger.returned.count x.number = 1 := by
  have hnew : Server.new (P := kit) config (.start .empty) idle.host.volume idle.host.interpreter
      (Registers.fresh 4) = .ok idle := Server.new_eq_ok_iff.mpr ⟨by decide, rfl⟩
  have hrun := runs_failing
  have hfacts : (failing.isRunning = true ∧ failing.accept.isRunning = false ∧
        .called 1 ∈ failing.tick.host.interpreter.trace ∧ failing.config.outputSize = 16) ∧
      ((failing.slots.get? 0).any fun c => decide (c.phase = .streaming) && c.file?.isSome) ∧
      ((failing.slots.get? 1).any fun c => decide (c.phase = .streaming) && c.script?.isSome) := by
    decide +kernel
  -- From here on the server need not be computed.
  generalize failing = s at hrun hfacts ⊢
  obtain ⟨⟨hrunning, haccept, hcalled, hsize⟩, hfile, hscript⟩ := hfacts
  obtain ⟨-, hstopped⟩ := Server.stop_cuts_short hnew hrun
  obtain ⟨hstop, hquiet, hslots⟩ := hstopped haccept
  obtain ⟨hlater, -⟩ := Server.stop_cuts_short hnew (hrun.tail (.step (.tick s)))
  rw [Server.config_tick, hsize] at hlater
  rw [hsize] at hquiet
  refine ⟨hrunning, hstop, hcalled, hquiet, (hlater hstop).2, ?_, ?_⟩
  · obtain ⟨c, job, f, hget, hphase, hstage, hf⟩ := exists_underWay hfile
    obtain ⟨hfree, hfiles, -⟩ := (hslots 0 c job hget hstage).2 _ .refl
    exact ⟨c, f, hget, hphase, hf, hfree, hfiles f hf⟩
  · obtain ⟨c, job, x, hget, hphase, hstage, hx⟩ := exists_underWay hscript
    obtain ⟨hfree, -, hscripts⟩ := (hslots 1 c job hget hstage).2 _ .refl
    exact ⟨c, x, hget, hphase, hx, hfree, hscripts x hx⟩

end Stop

end Microweb

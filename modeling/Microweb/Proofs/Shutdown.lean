import Microweb.Proofs.Balance
import Microweb.Proofs.Wiring.Server

/-!
The end of a server. Whatever its slots and peers are at, a shutdown gives back all that they hold
(`Custody.Sound.shutdown`, for the connections, the files and the scripts together), and it writes
to nobody. What it leaves behind is a server with nothing to do and a listener that hands out
nobody: a tick then changes its host's log at most, and a second shutdown closes nothing more.
-/

namespace Microweb

/-- What two custodies say of one network. -/
def Network.Custody.both {N : Network} (K L : N.Custody) : N.Custody where
  holds cs s := K.holds cs s ∧ L.holds cs s
  setTimeouts h := ⟨K.setTimeouts h.1, L.setTimeouts h.2⟩
  receive h := ⟨K.receive h.1, L.receive h.2⟩
  write h := ⟨K.write h.1, L.write h.2⟩
  close h := ⟨K.close h.1, L.close h.2⟩

/-! ### A listener that is shut down -/

namespace Bench.Wires

variable {ws ws' : Wires}

/-- It hands out nobody. -/
theorem accept_of_shutDown (wait : UInt64) (h : ws.shutDown = true) :
    ∃ e ws', accept wait ws = (.error e, ws') ∧ ws'.list = ws.list ∧ ws'.shutDown = true := by
  unfold accept
  split
  · exact ⟨_, _, rfl, rfl, h⟩
  · rw [if_pos h]
    exact ⟨_, _, rfl, rfl, h⟩

theorem shutDown_of_acts (ha : ws.Acts ws') : ws'.shutDown = ws.shutDown := by
  cases ha <;> rfl

end Bench.Wires

/-! ### A server with nothing to do -/

variable {V : Volume} {I : Interpreter} {B : Peripherals}

/-- Around a platform on wires and on record clients do as they like, and nobody else uses the
volume and the interpreter. -/
def Surroundings.clientsOnRecord (V : Volume) (I : Interpreter) (B : Peripherals) :
    Surroundings (Platform.wired V I B).recorded :=
  { Surroundings.recorded (.wired V I B) with network := Bench.Wires.Acts }

/-- Its connections, its files and its scripts are all that a server holds. -/
def Custody.estate (V : Volume) (I : Interpreter) (B : Peripherals)
    (K : Bench.Wires.network.Custody) : Custody (Platform.wired V I B).recorded :=
  { Custody.balance (.wired V I B) with network := K }

theorem Custody.undisturbed_estate :
    (estate V I B Bench.Wires.balance).Undisturbed (.clientsOnRecord V I B) where
  network ha h := ⟨h.1.acts ha, h.2.acts ha⟩
  volume := (undisturbed_balance (.wired V I B)).volume
  interpreter := (undisturbed_balance (.wired V I B)).interpreter

/-- Clients may act while the others stay. -/
theorem Server.Step.clientsAct {s : Server (Platform.wired V I B).recorded}
    {f : Bench.Wires → Bench.Wires} (h : s.host.network.Acts (f s.host.network)) :
    Step (.clientsOnRecord V I B) s (s.onNetwork f) :=
  .onNetwork (fun _ => rfl) (fun _ => rfl) s f h

namespace Server

variable {s t u : Server (Platform.wired V I B).recorded}

/-- What a shutdown of the server `s` leaves behind for good. -/
structure Down (s t : Server (Platform.wired V I B).recorded) : Prop where
  /-- No slot is taken. -/
  free : t.slots.items = []
  /-- No peer is left. -/
  noPeers : t.peers.list = []
  /-- Each file that was opened is closed, and was closed once. -/
  files : t.fileLedger.Settles []
  /-- Each script that was loaded is released, and was released once. -/
  scripts : t.scriptLedger.Settles []
  /-- Each connection that was accepted is closed. -/
  isClosed : ∀ n < s.host.network.list.length,
    n ∉ s.host.network.pending.map Bench.Handle.number → t.host.network.isClosed n
  /-- The listener is shut down. -/
  shutDown : t.host.network.shutDown = true
  /-- The server is not to run. -/
  stopped : t.isRunning = false
  /-- Nothing was written to anyone. -/
  sent : ∀ k, t.host.network.sent k = s.host.network.sent k
  /-- Nobody is admitted. -/
  refuses : ∀ wait, ∃ e, (t.host.accept wait).1 = .error e

namespace Down

/-- What a change of the host has to keep. -/
theorem keep {h : Host (Platform.wired V I B).recorded} (hd : Down s t)
    (hv : h.volume.trace = t.host.volume.trace)
    (hi : h.interpreter.trace = t.host.interpreter.trace)
    (hclosed : ∀ n, t.host.network.isClosed n → h.network.isClosed n)
    (hshut : h.network.shutDown = true) (hrun : h.control.running = false)
    (hsent : ∀ k, h.network.sent k = t.host.network.sent k) : Down s { t with host := h } where
  free := hd.free
  noPeers := hd.noPeers
  files := by
    unfold fileLedger
    rw [hv]
    exact hd.files
  scripts := by
    unfold scriptLedger
    rw [hi]
    exact hd.scripts
  isClosed n hn hq := hclosed n (hd.isClosed n hn hq)
  shutDown := hshut
  stopped := hrun
  sent k := (hsent k).trans (hd.sent k)
  refuses wait := by
    obtain ⟨e, ws', heq, -, -⟩ := Bench.Wires.accept_of_shutDown wait hshut
    exact ⟨e, congrArg Prod.fst heq⟩

/-- **A tick** is an accept that fails. -/
theorem tick (hd : Down s t) : Down s t.tick := by
  have haccept : Down s t.accept := by
    obtain ⟨e, ws', hws, hlist, hshut⟩ := Bench.Wires.accept_of_shutDown t.acceptWait hd.shutDown
    have herror : t.host.accept t.acceptWait = (.error e, { t.host with network := ws' }) := by
      unfold Host.accept
      exact congrArg (fun r => (r.1, { t.host with network := r.2 })) hws
    obtain ha | ⟨conn, h, i, slots, heq, -, -⟩ | ⟨e', h, h', heq, ha, hcases⟩ := t.accept_cases
    · rwa [ha]
    · rw [herror] at heq
      cases heq
    · rw [herror] at heq
      cases heq
      have hclosed : ∀ n, t.host.network.isClosed n → ws'.isClosed n := fun n hn => by
        rwa [Bench.Wires.isClosed, hlist]
      have hsent : ∀ k, ws'.sent k = t.host.network.sent k := fun k => by
        rw [Bench.Wires.sent, hlist, Bench.Wires.sent]
      rw [ha]
      obtain rfl | rfl | rfl := hcases
      · exact hd.keep rfl rfl hclosed hshut hd.stopped hsent
      · exact hd.keep rfl rfl hclosed hshut hd.stopped hsent
      · exact hd.keep rfl rfl hclosed hshut rfl hsent
  have htick : t.tick = t.accept := by
    rw [Server.tick, stepSlots_of_free haccept.free, poll_of_no_peers haccept.noPeers]
  rwa [htick]

/-- What happens besides ticks. -/
theorem aside (hd : Down s t) (ha : Aside (.clientsOnRecord V I B) t u) : Down s u := by
  cases ha with
  | stop => exact hd.keep rfl rfl (fun _ h => h) hd.shutDown rfl fun _ => rfl
  | setTimeouts => exact hd.keep rfl rfl (fun _ h => h) hd.shutDown hd.stopped fun _ => rfl
  | around board uptime hn hv hi =>
    exact hd.keep hv hi (fun n => (Bench.Wires.acts_frame hn n).2)
      ((Bench.Wires.shutDown_of_acts hn).trans hd.shutDown) hd.stopped
      fun k => (Bench.Wires.acts_frame hn k).1

/-- **A second shutdown** finds nothing to close. -/
theorem shutdown (hd : Down s t) : Down s t.shutdown := by
  have hhost : t.shutdown.host =
      ({ t.host with control := t.host.control.stop } : Host _).closeListener.note .stopped := by
    show ((t.peers.list.foldl _ (t.slots.items.foldl _ _) : Host _).closeListener).note _ = _
    rw [hd.free, hd.noPeers]
    rfl
  have hkept : Down s { t with host := t.shutdown.host } := by
    rw [hhost]
    exact hd.keep rfl rfl (fun _ h => h) rfl rfl fun _ => rfl
  exact { hkept with free := Slots.items_drain, noPeers := rfl }

/-- Whatever happens, what a shutdown left behind stays so. -/
theorem runs (hd : Down s t) (hrun : Runs (.clientsOnRecord V I B) t u) : Down s u := by
  induction hrun with
  | refl => exact hd
  | tail _ hevent ih =>
    cases hevent with
    | shutdown => exact ih.shutdown
    | step hstep =>
      obtain rfl | ha := hstep.tick_or_aside
      · exact ih.tick
      · exact ih.aside ha

end Down

/-- **What a shutdown gives back**, if what is out before it is what the server holds. -/
theorem down_shutdown (hs : (Custody.estate V I B Bench.Wires.balance).Sound s) :
    Down s s.shutdown := by
  -- the connections that wait are nobody's, and stay the same until the listener is closed
  let K := Custody.estate V I B
    (Bench.Wires.balance.both (Bench.Wires.waiting s.host.network.pending))
  have hK : K.Sound s := ⟨⟨hs.network, rfl⟩, hs.volume, hs.interpreter, trivial⟩
  obtain ⟨h, hcovers, hhost⟩ := hK.shutdown
  obtain ⟨⟨hbalance, -⟩, hpending⟩ := hcovers.network
  have hlength : h.network.list.length = s.host.network.list.length := by
    obtain ⟨h', hr, heq⟩ := s.reaches_shutdown
    have hlist := congrArg (fun h => h.network.list.length) (hhost.symm.trans heq)
    exact hlist.trans hr.length_eq
  have hclosed : ∀ n < s.host.network.list.length,
      n ∉ s.host.network.pending.map Bench.Handle.number → h.network.isClosed n := by
    intro n hn hq
    have hone := hbalance n
    rw [hpending, hlength, if_pos hn, List.count_eq_zero.mpr hq] at hone
    cases hc : h.network.isClosed n with
    | true => rfl
    | false =>
      rw [hc] at hone
      cases hone
  refine ⟨Slots.items_drain, rfl, ?_, ?_, ?_, ?_, ?_, s.sent_shutdown, fun wait => ?_⟩
  · unfold fileLedger
    rw [hhost]
    exact Ledger.Balances.settles hcovers.volume
  · unfold scriptLedger
    rw [hhost]
    exact Ledger.Balances.settles hcovers.interpreter
  · rw [hhost]
    exact hclosed
  · rw [hhost]
    rfl
  · obtain ⟨h', hr, heq⟩ := s.reaches_shutdown
    unfold isRunning
    rw [heq]
    exact congrArg Control.running hr.control
  · rw [hhost]
    obtain ⟨e, ws', heq, -, -⟩ := Bench.Wires.accept_of_shutDown wait
      (rfl : h.network.shutdown.shutDown = true)
    exact ⟨e, congrArg Prod.fst heq⟩

/-- **The end of a server.** At every moment of every run on wires, whatever stages its slots are
at, whatever peers it has and whoever waits, a shutdown leaves no slot taken and no peer, each file
that was opened closed and each script that was loaded released, just once, each connection that was
accepted closed, the listener shut down and the server stopped, and it writes to nobody. All of this
stays so, and nobody is admitted, however many ticks and further shutdowns follow and whatever else
happens. -/
theorem shutdown_down {s₀ : Server (Platform.wired V I B).recorded} {config : Config}
    {volume : V.State} {interpreter : I.State} {board : B.State}
    (hnew : Server.new (P := (Platform.wired V I B).recorded) config Bench.Wires.empty
      (.start volume) (.start interpreter) board = .ok s₀)
    (hrun : Serves (.clientsOnRecord V I B) s₀ s)
    (hafter : Runs (.clientsOnRecord V I B) s.shutdown t) : Down s t := by
  have hs₀ : (Custody.estate V I B Bench.Wires.balance).Sound s₀ := by
    have hb := sound_of_new hnew
    obtain ⟨-, rfl⟩ := new_eq_ok_iff.mp hnew
    refine ⟨⟨fun n => ?_, ⟨0, rfl, rfl⟩⟩, hb.volume, hb.interpreter, trivial⟩
    rw [conn_holdings, slotConns, Slots.items_free]
    rfl
  have hs := hs₀.serves Bench.Wires.accepts_balance Custody.undisturbed_estate hrun
  exact (down_shutdown hs).runs hafter

end Server

/-! ### A busy server -/

namespace Shutdown

open Bench

/-- A server with two slots, a file to be sent and a script to be run. -/
def idle : Server kit :=
  onRecord { Config.default with maxConnections := 2 } (Flash.empty.withFile "/html/a" [1, 2, 3])
    (Scripts.empty.withScript "/html/b.lua" (.forever "b"))

/-- Four clients, of which one asks for an upgrade, one for the file and one for the script. -/
def queue : Server kit :=
  ((((((idle.onNetwork fun ws => ws.connect (clientAddress 1)).onNetwork
    fun ws => ws.connect (clientAddress 2)).onNetwork
    fun ws => ws.connect (clientAddress 3)).onNetwork
    fun ws => ws.connect (clientAddress 4)).onNetwork
    fun ws => ws.update 0 fun w => w.send (upgradeRequest "/" "dGhlIHNhbXBsZSBub25jZQ==")).onNetwork
    fun ws => ask 1 "/a" ws).onNetwork
    fun ws => ask 2 "/b.lua" ws

theorem serves_queue : Server.Serves (.clientsOnRecord _ _ _) idle queue := by
  unfold queue
  refine Relation.ReflTransGen.tail ?_ (.clientsAct (.send 2 _))
  refine Relation.ReflTransGen.tail ?_ (.clientsAct (.send 1 _))
  refine Relation.ReflTransGen.tail ?_ (.clientsAct (.send 0 _))
  refine Relation.ReflTransGen.tail ?_ (.clientsAct (.connect (clientAddress 4)))
  refine Relation.ReflTransGen.tail ?_ (.clientsAct (.connect (clientAddress 3)))
  refine Relation.ReflTransGen.tail ?_ (.clientsAct (.connect (clientAddress 2)))
  exact Relation.ReflTransGen.single (.clientsAct (.connect (clientAddress 1)))

/-- The first client is a peer, the next two have a slot each, and the last one waits. -/
def busy : Server kit := queue.tick.tick.tick.tick

theorem serves_busy : Server.Serves (.clientsOnRecord _ _ _) idle busy :=
  (((serves_queue.tail (.tick _)).tail (.tick _)).tail (.tick _)).tail (.tick _)

/-- Another client comes after a shutdown, two ticks pass, and there is another shutdown. -/
def again (s : Server kit) : Server kit :=
  (s.shutdown.onNetwork fun ws => ws.connect (clientAddress 5)).tick.tick.shutdown

theorem runs_again (s : Server kit) :
    Server.Runs (.clientsOnRecord _ _ _) s.shutdown (again s) :=
  (((Relation.ReflTransGen.refl.tail (.step (.clientsAct (.connect (clientAddress 5))))).tail
    (.step (.tick _))).tail (.step (.tick _))).tail (.shutdown _)

theorem shutdown_down_busy :
    busy.slots.items.length = 2 ∧ busy.peers.list.length = 1 ∧
      busy.host.network.pending.length = 1 ∧ busy.files.length = 1 ∧ busy.scripts.length = 1 ∧
      Server.Down busy (again busy) := by
  have hcounts : busy.slots.items.length = 2 ∧ busy.peers.list.length = 1 ∧
      busy.host.network.pending.length = 1 ∧ busy.files.length = 1 ∧ busy.scripts.length = 1 := by
    decide +kernel
  have hbusy := serves_busy
  -- From here on the server need not be computed.
  generalize busy = s at hcounts hbusy ⊢
  obtain ⟨hslots, hpeers, hpending, hfiles, hscripts⟩ := hcounts
  exact ⟨hslots, hpeers, hpending, hfiles, hscripts,
    Server.shutdown_down (new_onRecord (by decide) _ _) hbusy (runs_again s)⟩

end Shutdown

end Microweb

import Microweb.Proofs.Bench
import Microweb.Proofs.Custody.Server

/-!
Who owns a connection. On wires, each connection that was ever queued is at one place: it waits to
be accepted, one slot owns it, one peer owns it, or it is closed. Connections are accepted in the
order of the queue, one a tick at most, and never turned away.
-/

namespace Microweb

namespace Bench.Wires

variable {ws : Wires} {cs : Multiset Handle} {c : Handle}

/-! ### Wires that are closed -/

/-- The server closed its end of that wire. -/
def isClosed (ws : Wires) (n : Nat) : Bool := (ws.list[n]?).any Wire.closed

@[simp] theorem length_update (ws : Wires) (k : Nat) (f : Wire → Wire) :
    (ws.update k f).list.length = ws.list.length := by simp [update]

theorem getElem?_update (ws : Wires) (k n : Nat) (f : Wire → Wire) :
    (ws.update k f).list[n]? = (ws.list[n]?).map fun w => if k = n then f w else w := by
  unfold update
  rw [List.getElem?_modify]
  rfl

theorem isClosed_update {k : Nat} {f : Wire → Wire}
    (h : ∀ w, ws.list[k]? = some w → (f w).closed = w.closed) (n : Nat) :
    (ws.update k f).isClosed n = ws.isClosed n := by
  unfold isClosed
  rw [getElem?_update]
  cases hw : ws.list[n]? with
  | none => rfl
  | some w =>
    rw [Option.map_some, Option.any_some, Option.any_some]
    by_cases hk : k = n
    · subst hk
      rw [if_pos rfl, h w hw]
    · rw [if_neg hk]

theorem isClosed_close (ws : Wires) (k n : Nat) :
    (ws.update k Wire.close).isClosed n = (ws.isClosed n || (k = n && n < ws.list.length)) := by
  unfold isClosed
  rw [getElem?_update]
  by_cases hn : n < ws.list.length
  · rw [List.getElem?_eq_getElem hn]
    by_cases hk : k = n
    · simp [hk, hn, Wire.close]
    · simp [hk]
  · simp [hn]

theorem closed_receive (w : Wire) (room : Nat) : (w.receive room).2.closed = w.closed := by
  unfold Wire.receive
  split
  · rfl
  · split
    · rfl
    · split <;> rfl

theorem closed_write (w : Wire) (bs : Bytes) : (w.write bs).2.closed = w.closed := by
  unfold Wire.write
  split
  · rfl
  · split <;> rfl

/-! ### The balance of connections -/

/-- Each connection that was queued waits, is out or is closed, and is so just once. -/
def Balances (cs : Multiset Handle) (ws : Wires) : Prop :=
  ∀ n, (ws.pending.map Handle.number).count n + (cs.map Handle.number).count n +
    (ws.isClosed n).toNat = if n < ws.list.length then 1 else 0

/-- Those that wait are the last that were queued, in order. -/
def InOrder (ws : Wires) : Prop :=
  ∃ k, k + ws.pending.length = ws.list.length ∧
    ws.pending.map Handle.number = List.range' k ws.pending.length

theorem Balances.update {k : Nat} {f : Wire → Wire} (h : Balances cs ws)
    (hf : ∀ w, ws.list[k]? = some w → (f w).closed = w.closed) : Balances cs (ws.update k f) := by
  intro n
  rw [isClosed_update hf, length_update]
  exact h n

theorem InOrder.update (h : InOrder ws) (k : Nat) (f : Wire → Wire) : InOrder (ws.update k f) := by
  unfold InOrder
  rw [length_update]
  exact h

theorem Balances.close (h : Balances ({c} + cs) ws) :
    Balances cs (ws.update c.number Wire.close) := by
  intro n
  have hn := h n
  rw [Multiset.map_add, Multiset.map_singleton, Multiset.count_add, Multiset.count_singleton] at hn
  rw [isClosed_close, length_update]
  show (ws.pending.map Handle.number).count n + _ + _ = _
  by_cases hc : c.number = n
  · rw [if_pos hc.symm] at hn
    split at hn
    · next hlt =>
      have hopen : ws.isClosed n = false := by
        rw [← Bool.not_eq_true]
        intro hclosed
        rw [hclosed, Bool.toNat_true] at hn
        omega
      simp only [hopen, hc, hlt, decide_true, Bool.and_true, Bool.or_true, Bool.toNat_true,
        if_true, Bool.toNat_false] at hn ⊢
      omega
    · omega
  · rw [if_neg (Ne.symm hc), Nat.zero_add] at hn
    simp only [hc, decide_false, Bool.false_and, Bool.or_false]
    exact hn

/-- **What an accept does to the queue**: it takes the first that waits, or nothing. -/
theorem accept_cases (wait : UInt64) (ws : Wires) :
    (∃ c ws', accept wait ws = (.ok c, ws') ∧ ws.pending = c :: ws'.pending ∧
      ws'.list = ws.list) ∨
    ∃ e ws', accept wait ws = (.error e, ws') ∧ ws'.pending = ws.pending ∧ ws'.list = ws.list := by
  unfold Wires.accept
  split
  · exact .inr ⟨_, _, rfl, rfl, rfl⟩
  · split
    · exact .inr ⟨_, _, rfl, rfl, rfl⟩
    · simp only
      split
      · next c rest hp => exact .inl ⟨c, _, rfl, hp, rfl⟩
      · exact .inr ⟨_, _, rfl, rfl, rfl⟩

theorem Balances.keep {ws' : Wires} (h : Balances cs ws) (hp : ws'.pending = ws.pending)
    (hl : ws'.list = ws.list) : Balances cs ws' := by
  intro n
  rw [hp, isClosed, hl]
  exact h n

theorem Balances.take {ws' : Wires} (h : Balances cs ws) (hp : ws.pending = c :: ws'.pending)
    (hl : ws'.list = ws.list) : Balances ({c} + cs) ws' := by
  intro n
  have hn := h n
  rw [hp, List.map_cons, List.count_cons] at hn
  rw [isClosed, hl, Multiset.map_add, Multiset.map_singleton, Multiset.count_add,
    Multiset.count_singleton]
  simp only [beq_iff_eq, eq_comm (a := n)] at hn ⊢
  rw [← isClosed]
  omega

theorem InOrder.keep {ws' : Wires} (h : InOrder ws) (hp : ws'.pending = ws.pending)
    (hl : ws'.list = ws.list) : InOrder ws' := by
  unfold InOrder
  rw [hp, hl]
  exact h

theorem InOrder.take {ws' : Wires} (h : InOrder ws) (hp : ws.pending = c :: ws'.pending)
    (hl : ws'.list = ws.list) : InOrder ws' := by
  obtain ⟨k, hlen, hrange⟩ := h
  rw [hp, List.length_cons] at hlen hrange
  rw [List.map_cons, List.range'_succ] at hrange
  exact ⟨k + 1, by rw [hl]; omega, (List.cons.inj hrange).2⟩

/-! ### What clients do -/

theorem isClosed_connect (ws : Wires) (address : SocketAddress) (n : Nat) :
    (ws.connect address).isClosed n = ws.isClosed n := by
  unfold isClosed connect
  by_cases hn : n < ws.list.length
  · rw [List.getElem?_append_left hn]
  · rw [List.getElem?_append_right (Nat.le_of_not_lt hn),
      List.getElem?_eq_none (Nat.le_of_not_lt hn)]
    cases n - ws.list.length <;> rfl

theorem Balances.connect (h : Balances cs ws) (address : SocketAddress) :
    Balances cs (ws.connect address) := by
  intro n
  have hn := h n
  rw [isClosed_connect]
  have hp : ((ws.connect address).pending.map Handle.number).count n =
      (ws.pending.map Handle.number).count n + if ws.list.length = n then 1 else 0 := by
    simp [Wires.connect, nextHandle, List.count_append, List.count_singleton]
  have hl : (ws.connect address).list.length = ws.list.length + 1 := by
    simp [Wires.connect]
  rw [hp, hl]
  split at hn <;> split <;> split <;> omega

theorem InOrder.connect (h : InOrder ws) (address : SocketAddress) :
    InOrder (ws.connect address) := by
  obtain ⟨k, hlen, hrange⟩ := h
  refine ⟨k, by simp [Wires.connect]; omega, ?_⟩
  simp only [Wires.connect, nextHandle, List.map_append, hrange, List.length_append, List.map_cons,
    List.map_nil, List.length_singleton]
  rw [List.range'_concat, ← hlen, Nat.one_mul]

theorem Balances.acts {ws' : Wires} (h : Balances cs ws) (ha : ws.Acts ws') : Balances cs ws' := by
  cases ha with
  | connect address => exact h.connect address
  | send number segment => exact h.update fun _ _ => rfl
  | hangUp number => exact h.update fun _ _ => rfl
  | failReceive number e => exact h.update fun _ _ => rfl
  | failWrites number e => exact h.update fun _ _ => rfl
  | failAccept e => exact h.keep rfl rfl

theorem InOrder.acts {ws' : Wires} (h : InOrder ws) (ha : ws.Acts ws') : InOrder ws' := by
  cases ha with
  | connect address => exact h.connect address
  | send number segment => exact h.update _ _
  | hangUp number => exact h.update _ _
  | failReceive number e => exact h.update _ _
  | failWrites number e => exact h.update _ _
  | failAccept e => exact h.keep rfl rfl

/-! ### Custody of connections -/

/-- At most one wire is another one, and that is no more closed than it was. -/
inductive Touches (ws : Wires) : Wires → Prop
  | nothing : Touches ws ws
  | update {k : Nat} {f : Wire → Wire}
    (hf : ∀ w, ws.list[k]? = some w → (f w).closed = w.closed) : Touches ws (ws.update k f)

theorem touches_receive (c : Handle) (room : Nat) (ws : Wires) :
    ws.Touches (receive c room ws).2 := by
  unfold receive
  split
  · exact .nothing
  · next w hw =>
    refine .update fun w' hw' => ?_
    cases hw.symm.trans hw'
    exact closed_receive w room

theorem touches_write (c : Handle) (bs : Bytes) (ws : Wires) : ws.Touches (write c bs ws).2 := by
  unfold write
  split
  · exact .nothing
  · next w hw =>
    refine .update fun w' hw' => ?_
    cases hw.symm.trans hw'
    exact closed_write w bs

theorem Touches.pending {ws' : Wires} (ht : ws.Touches ws') : ws'.pending = ws.pending := by
  cases ht <;> rfl

theorem Balances.touches {ws' : Wires} (h : Balances cs ws) (ht : ws.Touches ws') :
    Balances cs ws' := by
  cases ht with
  | nothing => exact h
  | update hf => exact h.update hf

theorem InOrder.touches {ws' : Wires} (h : InOrder ws) (ht : ws.Touches ws') : InOrder ws' := by
  cases ht with
  | nothing => exact h
  | update => exact h.update _ _

/-- The connections that are out balance, and those that wait are in order. -/
def balance : network.Custody where
  holds cs ws := Balances cs ws ∧ InOrder ws
  setTimeouts h := ⟨h.1.update fun _ _ => rfl, h.2.update _ _⟩
  receive h := ⟨h.1.touches (touches_receive _ _ _), h.2.touches (touches_receive _ _ _)⟩
  write h := ⟨h.1.touches (touches_write _ _ _), h.2.touches (touches_write _ _ _)⟩
  close h := ⟨h.1.close, h.2.update _ _⟩

theorem accepts_balance : balance.Accepts where
  ok h heq := by
    obtain ⟨c, ws', hc, hp, hl⟩ | ⟨e, ws', he, -, -⟩ := accept_cases _ _
    · cases hc.symm.trans heq
      exact ⟨h.1.take hp hl, h.2.take hp hl⟩
    · cases he.symm.trans heq
  error h heq := by
    obtain ⟨c, ws', hc, -, -⟩ | ⟨e, ws', he, hp, hl⟩ := accept_cases _ _
    · cases hc.symm.trans heq
    · cases he.symm.trans heq
      exact ⟨h.1.keep hp hl, h.2.keep hp hl⟩

/-- The same connections wait. -/
def waiting (pending : List Handle) : network.Custody where
  holds _ ws := ws.pending = pending
  setTimeouts h := h
  receive h := (touches_receive _ _ _).pending.trans h
  write h := (touches_write _ _ _).pending.trans h
  close h := h

end Bench.Wires

variable {P : Platform}

/-! ### The connections of a server -/

theorem Client.conn_holdings (c : Client P) : c.holdings.1 = ↑c.conn.toList := by
  unfold Client.holdings Client.connHoldings
  cases c.conn <;> rcases c.stage with _ | _ | (_ | _) | (_ | _ | _) | _ <;> rfl

theorem Peer.conn_holdings (ps : List (Peer P.Conn)) :
    (Peer.holdings ps).1 = ↑(ps.map Peer.handle) := by
  induction ps with
  | nil => rfl
  | cons p ps ih =>
    rw [Peer.holdings_cons, Prod.fst_add, ih]
    rfl

namespace Server

/-- The connections that the slots own. -/
def slotConns (s : Server P) : List P.Conn := s.slots.items.filterMap Client.conn

/-- The connections that the peers own. -/
def peerConns (s : Server P) : List P.Conn := s.peers.list.map Peer.handle

theorem conn_holdings (s : Server P) : s.holdings.1 = ↑s.slotConns + ↑s.peerConns := by
  rw [holdings, Prod.fst_add, Peers.holdings, Peer.conn_holdings]
  exact congrArg (· + _)
    (Client.sum_holdings (AddMonoidHom.fst _ _) Client.conn Client.conn_holdings _)

end Server

/-- A platform on wires. -/
abbrev Platform.wired (V : Volume) (I : Interpreter) (B : Peripherals) : Platform :=
  ⟨Bench.Wires.network, V, I, B⟩

variable {V : Volume} {I : Interpreter} {B : Peripherals}

/-- Around a platform on wires clients do as they like, and so do the volume and the
interpreter. -/
def Surroundings.clients (V : Volume) (I : Interpreter) (B : Peripherals) :
    Surroundings (.wired V I B) where
  network := Bench.Wires.Acts
  volume _ _ := True
  interpreter _ _ := True

/-- Clients may act while the others stay. -/
theorem Server.Step.ofActs {s : Server (.wired V I B)} {f : Bench.Wires → Bench.Wires}
    (h : s.host.network.Acts (f s.host.network)) : Step (.clients V I B) s (s.onNetwork f) :=
  .onNetwork (fun _ => trivial) (fun _ => trivial) s f h

/-- The connections balance, and none was turned away. -/
def Custody.connections (V : Volume) (I : Interpreter) (B : Peripherals) :
    Custody (.wired V I B) where
  network := Bench.Wires.balance
  volume := .any _
  interpreter := .any _
  log ns := ∀ a, .slotsFull a ∉ ns
  note hn h a hmem := by
    obtain heq | hmem := List.mem_cons.mp hmem
    · exact hn a heq.symm
    · exact h a hmem

theorem Custody.undisturbed_connections :
    (connections V I B).Undisturbed (.clients V I B) where
  network ha h := ⟨h.1.acts ha, h.2.acts ha⟩
  volume _ _ := trivial
  interpreter _ _ := trivial

/-- The same connections wait. -/
def Custody.waiting (V : Volume) (I : Interpreter) (B : Peripherals)
    (pending : List Bench.Handle) : Custody (.wired V I B) where
  network := Bench.Wires.waiting pending
  volume := .any _
  interpreter := .any _
  log _ := True
  note _ _ := trivial

/-! ### Where a connection is -/

/-- A place for a connection. -/
inductive Place where
  | queue
  | slot
  | peer
  | closed
deriving DecidableEq

namespace Server

variable {s s₀ : Server (.wired V I B)}

/-- The number of connections ever queued. -/
def queued (s : Server (.wired V I B)) : Nat := s.host.network.list.length

/-- All places where a connection is, by its number in the order of the queue, and a place as often
as it is there. -/
def places (s : Server (.wired V I B)) (n : Nat) : List Place :=
  List.replicate ((s.host.network.pending.map Bench.Handle.number).count n) .queue ++
    List.replicate ((s.slotConns.map Bench.Handle.number).count n) .slot ++
    List.replicate ((s.peerConns.map Bench.Handle.number).count n) .peer ++
    List.replicate (s.host.network.isClosed n).toNat .closed

/-- Each connection is at one place, and what follows for those that are closed. -/
structure Placed (s : Server (.wired V I B)) : Prop where
  /-- One that was queued is at one place, and there once. -/
  once : ∀ n < s.queued, ∃ p, s.places n = [p]
  /-- One that was not is nowhere. -/
  nowhere : ∀ n, s.queued ≤ n → s.places n = []
  /-- A closed connection is owned by nobody. -/
  not_owned : ∀ n, s.host.network.isClosed n →
    n ∉ s.slotConns.map Bench.Handle.number ∧ n ∉ s.peerConns.map Bench.Handle.number
  /-- One that was accepted and is owned by nobody is closed. -/
  isClosed : ∀ n < s.queued, n ∉ s.host.network.pending.map Bench.Handle.number →
    n ∉ s.slotConns.map Bench.Handle.number → n ∉ s.peerConns.map Bench.Handle.number →
    s.host.network.isClosed n

/-- Each connection is at one place if it was queued, and else at none. -/
theorem length_places_of_sound (hs : (Custody.connections V I B).Sound s) (n : Nat) :
    (s.places n).length = if n < s.queued then 1 else 0 := by
  have hn := hs.network.1 n
  rw [conn_holdings, Multiset.map_add, Multiset.count_add, Multiset.map_coe, Multiset.map_coe,
    Multiset.coe_count, Multiset.coe_count] at hn
  simp only [places, List.length_append, List.length_replicate]
  rw [queued, ← hn]
  omega

theorem placed_of_sound (hs : (Custody.connections V I B).Sound s) : s.Placed := by
  have hlen := length_places_of_sound hs
  have hsum : ∀ n, (s.places n).length =
      (s.host.network.pending.map Bench.Handle.number).count n +
        (s.slotConns.map Bench.Handle.number).count n +
        (s.peerConns.map Bench.Handle.number).count n + (s.host.network.isClosed n).toNat := by
    intro n
    simp only [places, List.length_append, List.length_replicate]
  refine ⟨fun n hn => ?_, fun n hn => ?_, fun n hclosed => ?_, fun n hn hq hslot hpeer => ?_⟩
  · have hone := hlen n
    rw [if_pos hn] at hone
    exact List.length_eq_one_iff.mp hone
  · have hzero := hlen n
    rw [if_neg (by omega)] at hzero
    exact List.eq_nil_of_length_eq_zero hzero
  · have hle : (s.places n).length ≤ 1 := by
      rw [hlen]
      split <;> omega
    rw [hsum, hclosed, Bool.toNat_true] at hle
    exact ⟨List.count_eq_zero.mp (by omega), List.count_eq_zero.mp (by omega)⟩
  · have hone := hlen n
    rw [if_pos hn, hsum, List.count_eq_zero.mpr hq, List.count_eq_zero.mpr hslot,
      List.count_eq_zero.mpr hpeer] at hone
    cases hc : s.host.network.isClosed n with
    | true => rfl
    | false =>
      rw [hc] at hone
      cases hone

end Server

/-- What an accept of the network takes. -/
theorem Host.accept_wires (h : Host (.wired V I B)) (wait : UInt64) :
    (∃ c ws, h.accept wait = (.ok c, { h with network := ws }) ∧
        h.network.pending = c :: ws.pending ∧ ws.list = h.network.list) ∨
      ∃ e ws, h.accept wait = (.error e, { h with network := ws }) ∧
        ws.pending = h.network.pending ∧ ws.list = h.network.list := by
  obtain ⟨c, ws, hc, hpending, hlist⟩ | ⟨e, ws, he, hpending, hlist⟩ :=
    Bench.Wires.accept_cases wait h.network
  · refine .inl ⟨c, ws, ?_, hpending, hlist⟩
    simp only [Host.accept, hc]
  · refine .inr ⟨e, ws, ?_, hpending, hlist⟩
    simp only [Host.accept, he]

namespace Server

variable {s s₀ : Server (.wired V I B)}

/-- **An accept on wires** takes nobody, or the first that waits, and sets its timeouts. -/
theorem accept_wires (s : Server (.wired V I B)) :
    s.accept.slots = s.slots ∧ s.accept.host.network.pending = s.host.network.pending ∧
        s.accept.host.network.list = s.host.network.list ∨
      ∃ conn i t, s.slots.insert? (.fresh conn) = some (i, s.accept.slots) ∧
        s.host.network.pending = conn :: s.accept.host.network.pending ∧
        s.accept.host.network.list =
          (s.host.network.update conn.number fun w => { w with timeouts := some t }).list := by
  have hwires := s.host.accept_wires s.acceptWait
  obtain ha | ⟨conn, h, i, slots, heq, hins, ha⟩ | ⟨e, h, h', heq, ha, hcases⟩ := s.accept_cases
  · rw [ha]
    exact .inl ⟨rfl, rfl, rfl⟩
  · obtain ⟨c, ws, hc, hpending, hlist⟩ | ⟨e, ws, he, -, -⟩ := hwires
    · cases heq.symm.trans hc
      rw [ha]
      refine .inr ⟨_, i, s.host.control.timeouts, hins, hpending, ?_⟩
      simp only [Host.setTimeouts, Host.note, Bench.Wires.update, hlist]
    · cases heq.symm.trans he
  · obtain ⟨c, ws, hc, -, -⟩ | ⟨e', ws, he, hpending, hlist⟩ := hwires
    · cases heq.symm.trans hc
    · cases heq.symm.trans he
      rw [ha]
      obtain rfl | rfl | rfl := hcases <;> exact .inl ⟨rfl, hpending, hlist⟩

/-- **A tick accepts** the first connection that waits, or none. -/
theorem pending_tick (s : Server (.wired V I B)) :
    s.tick.host.network.pending = s.host.network.pending ∨
      ∃ c, s.host.network.pending = c :: s.tick.host.network.pending := by
  have hrest : s.tick.host.network.pending = s.accept.host.network.pending := by
    have h : (Custody.waiting V I B s.accept.host.network.pending).Sound s.accept :=
      ⟨rfl, trivial, trivial, trivial⟩
    rw [s.tick_eq]
    exact (h.midTick_of_accept _).poll.network
  rw [hrest]
  obtain ⟨-, hp, -⟩ | ⟨conn, i, t, -, hp, -⟩ := s.accept_wires
  · exact .inl hp
  · exact .inr ⟨conn, hp⟩

/-- **Who owns a connection.** On every run on wires before a shutdown, whatever clients, the
volume, the interpreter and the board do, each connection that was queued waits, is owned by one
slot, is owned by one peer or is closed, and just one of these; those that wait are the last that
were queued, and a tick takes the first of them, or none; and no connection was turned away because
all slots were taken. -/
theorem connections_placed {config : Config} {volume : V.State} {interpreter : I.State}
    {board : B.State} (hnew : Server.new (P := .wired V I B) config Bench.Wires.empty volume
      interpreter board = .ok s₀) (hrun : Serves (.clients V I B) s₀ s) :
    s.Placed ∧ s.host.network.InOrder ∧
      (s.tick.host.network.pending = s.host.network.pending ∨
        ∃ c, s.host.network.pending = c :: s.tick.host.network.pending) ∧
      ∀ a, .slotsFull a ∉ s.host.log := by
  have hs₀ : (Custody.connections V I B).Sound s₀ := by
    obtain ⟨-, rfl⟩ := new_eq_ok_iff.mp hnew
    refine ⟨⟨fun n => ?_, ⟨0, rfl, rfl⟩⟩, trivial, trivial, fun a => List.not_mem_nil⟩
    rw [conn_holdings, slotConns, Slots.items_free]
    rfl
  have hs := hs₀.serves Bench.Wires.accepts_balance Custody.undisturbed_connections hrun
  exact ⟨placed_of_sound hs, hs.network.2, s.pending_tick, hs.log⟩

end Server

/-! ### One connection at each place -/

namespace Ownership

open Bench

/-- A server with one slot. -/
def idle : Server kit := onRecord Config.default .empty .empty

/-- Four clients, of which the first asks for an upgrade and the second hangs up. -/
def queue : Server kit :=
  (((((idle.onNetwork fun ws => ws.connect (clientAddress 1)).onNetwork
    fun ws => ws.connect (clientAddress 2)).onNetwork
    fun ws => ws.connect (clientAddress 3)).onNetwork
    fun ws => ws.connect (clientAddress 4)).onNetwork
    fun ws => ws.update 0 fun w => w.send (upgradeRequest "/" "dGhlIHNhbXBsZSBub25jZQ==")).onNetwork
    fun ws => ws.update 1 Wire.hangUp

theorem serves_queue : Server.Serves (.clients _ _ _) idle queue := by
  unfold queue
  refine Relation.ReflTransGen.tail ?_ (.ofActs (.hangUp 1))
  refine Relation.ReflTransGen.tail ?_ (.ofActs (.send 0 _))
  refine Relation.ReflTransGen.tail ?_ (.ofActs (.connect (clientAddress 4)))
  refine Relation.ReflTransGen.tail ?_ (.ofActs (.connect (clientAddress 3)))
  refine Relation.ReflTransGen.tail ?_ (.ofActs (.connect (clientAddress 2)))
  exact Relation.ReflTransGen.single (.ofActs (.connect (clientAddress 1)))

/-- Three were accepted; the first is a peer, the second is closed, the third is in the slot. -/
def spread : Server kit := queue.tick.tick.tick

theorem serves_spread : Server.Serves (.clients _ _ _) idle spread :=
  ((serves_queue.tail (.tick _)).tail (.tick _)).tail (.tick _)

theorem connections_placed_spread :
    (List.range 4).map spread.places = [[.peer], [.closed], [.slot], [.queue]] ∧ spread.Placed :=
  ⟨by decide +kernel, (Server.connections_placed (new_onRecord (by decide) _ _) serves_spread).1⟩

end Ownership

end Microweb

import Microweb.Proofs.Wiring

/-!
Whose wire is whose. On every run on wires, shutdowns included, no two owners share a wire; so what
one of them does leaves the wires of all others as they are.
-/

namespace Microweb

/-! ### Connections that may be lost -/

namespace Network.Custody

variable {N : Network}

/-- What custody says while more may be out than is known, as connections may be lost that were
still waiting when the listener was closed. -/
def leaky (K : N.Custody) : N.Custody where
  holds cs s := ∃ lost, K.holds (cs + lost) s
  setTimeouts := fun ⟨lost, h⟩ => ⟨lost, K.setTimeouts h⟩
  receive := fun ⟨lost, h⟩ => ⟨lost, K.receive h⟩
  write := fun ⟨lost, h⟩ => ⟨lost, K.write h⟩
  close := fun ⟨lost, h⟩ => ⟨lost, K.close (by rwa [← add_assoc])⟩

theorem Accepts.leaky {K : N.Custody} (hK : K.Accepts) : K.leaky.Accepts where
  ok := by
    rintro cs wait s c s' ⟨lost, h⟩ heq
    exact ⟨lost, by rw [add_assoc]; exact hK.ok h heq⟩
  error := by
    rintro cs wait s e s' ⟨lost, h⟩ heq
    exact ⟨lost, hK.error h heq⟩

end Network.Custody

namespace Bench.Wires

/-- Closing the listener loses the connections that wait. -/
theorem leaky_shutdown {cs : Multiset Handle} {ws : Wires} (h : balance.leaky.holds cs ws) :
    balance.leaky.holds cs ws.shutdown := by
  obtain ⟨lost, hb, -⟩ := h
  refine ⟨lost + ↑ws.pending, fun n => ?_, ws.list.length, rfl, rfl⟩
  have hcount : ((↑ws.pending : Multiset Handle).map Handle.number).count n =
      (ws.pending.map Handle.number).count n := by
    rw [Multiset.map_coe, Multiset.coe_count]
  rw [← add_assoc, Multiset.map_add, Multiset.count_add, hcount]
  show 0 + _ + (ws.isClosed n).toNat = if n < ws.list.length then 1 else 0
  rw [← hb n]
  omega

end Bench.Wires

variable {V : Volume} {I : Interpreter} {B : Peripherals}

/-! ### One owner each -/

/-- Around a platform on wires clients do as they like, and so does the interpreter; the volume
changes in some way. -/
def Surroundings.steady (V : Volume) (I : Interpreter) (B : Peripherals)
    (R : V.State → V.State → Prop) : Surroundings (.wired V I B) where
  network := Bench.Wires.Acts
  volume := R
  interpreter _ _ := True

/-- The same, but the interpreter too changes in some way only. -/
def Surroundings.tended (V : Volume) (I : Interpreter) (B : Peripherals)
    (R : V.State → V.State → Prop) (around : I.State → I.State → Prop) :
    Surroundings (.wired V I B) :=
  { steady V I B R with interpreter := around }

theorem Server.Aside.steady {R : V.State → V.State → Prop} {around : I.State → I.State → Prop}
    {s s' : Server (.wired V I B)} (ha : Aside (.tended V I B R around) s s') :
    Aside (.steady V I B R) s s' := by
  cases ha with
  | stop => exact .stop
  | setTimeouts receive send => exact .setTimeouts receive send
  | around board uptime hn hv => exact .around board uptime hn hv trivial

/-- Each connection has one owner at most. -/
def Custody.owned (V : Volume) (I : Interpreter) (B : Peripherals) : Custody (.wired V I B) where
  network := Bench.Wires.balance.leaky
  volume := .any _
  interpreter := .any _
  log _ := True
  note _ _ := trivial

theorem Custody.accepts_owned : (owned V I B).network.Accepts := Bench.Wires.accepts_balance.leaky

theorem Custody.undisturbed_owned {R : V.State → V.State → Prop} :
    (owned V I B).Undisturbed (.steady V I B R) where
  network := fun ha ⟨lost, h⟩ => ⟨lost, h.1.acts ha, h.2.acts ha⟩
  volume _ _ := trivial
  interpreter _ _ := trivial

namespace Server

variable {s s₀ : Server (.wired V I B)} {R : V.State → V.State → Prop}

/-- What is out is what the server holds, but for what was lost. -/
abbrev Owned (s : Server (.wired V I B)) : Prop := (Custody.owned V I B).Sound s

theorem owned_new {config : Config} {volume : V.State} {interpreter : I.State} {board : B.State}
    (hnew : Server.new (P := .wired V I B) config Bench.Wires.empty volume interpreter board =
      .ok s₀) : s₀.Owned := by
  obtain ⟨-, rfl⟩ := new_eq_ok_iff.mp hnew
  refine ⟨⟨0, fun n => ?_, 0, rfl, rfl⟩, trivial, trivial, trivial⟩
  rw [conn_holdings, slotConns, Slots.items_free]
  rfl

theorem Owned.runs (hs : s₀.Owned) (hrun : Runs (.steady V I B R) s₀ s) : s.Owned :=
  Custody.Sound.runs Custody.accepts_owned Custody.undisturbed_owned
    Bench.Wires.leaky_shutdown hs hrun

theorem Owned.step (hs : s.Owned) {s' : Server (.wired V I B)}
    (hstep : Step (.steady V I B R) s s') : s'.Owned :=
  Custody.Sound.step Custody.accepts_owned Custody.undisturbed_owned hs hstep

theorem Owned.shutdown (hs : s.Owned) : s.shutdown.Owned :=
  hs.runs (R := fun _ _ => True) (.single (.shutdown s))

/-- The connections that wait, those in slots and those of peers. -/
def handles (s : Server (.wired V I B)) : List Bench.Handle :=
  s.host.network.pending ++ (s.slotConns ++ s.peerConns)

/-- **No two owners share a wire.** -/
theorem Owned.nodup (hs : s.Owned) : (s.handles.map Bench.Handle.number).Nodup := by
  obtain ⟨lost, hb, -⟩ := hs.network
  rw [List.nodup_iff_count_le_one]
  intro n
  have hn := hb n
  rw [conn_holdings, Multiset.map_add, Multiset.count_add, Multiset.map_add, Multiset.count_add,
    Multiset.map_coe, Multiset.map_coe, Multiset.coe_count, Multiset.coe_count] at hn
  rw [handles, List.map_append, List.map_append, List.count_append, List.count_append]
  split at hn <;> omega

/-- **Who else has a wire.** The connection of one slot is on another wire than those that wait,
those of other slots and those of peers. -/
theorem Owned.apart (hs : s.Owned) {i : Nat} {c : Client (.wired V I B)} {conn : Bench.Handle}
    (hget : s.slots.get? i = some c) (hconn : c.conn = some conn) :
    (∀ d ∈ s.host.network.pending, d.number ≠ conn.number) ∧
      (∀ j c', j ≠ i → s.slots.get? j = some c' → ∀ d, c'.conn = some d →
        d.number ≠ conn.number) ∧
      ∀ p ∈ s.peers.list, p.handle.number ≠ conn.number := by
  obtain ⟨before, after, hitems, hremoved, -⟩ := Slots.exists_items_eq hget
  have hnodup := hs.nodup
  rw [handles, slotConns, hitems, List.filterMap_append, List.filterMap_cons_some hconn,
    List.append_assoc, List.cons_append, ← List.append_assoc, List.map_append, List.map_cons,
    List.nodup_middle, List.nodup_cons, ← List.map_append] at hnodup
  have hne : ∀ d ∈ (s.host.network.pending ++ before.filterMap Client.conn) ++
      (after.filterMap Client.conn ++ s.peerConns), d.number ≠ conn.number :=
    fun d hd heq => hnodup.1 (heq ▸ List.mem_map_of_mem hd)
  refine ⟨fun d hd => hne d ?_, fun j c' hj hget' d hd => hne d ?_, fun p hp => hne _ ?_⟩
  · exact List.mem_append_left _ (List.mem_append_left _ hd)
  · have hmem : c' ∈ before ++ after := by
      rw [← hremoved]
      exact Slots.mem_items_of_get? ((Slots.get?_remove_of_ne (Ne.symm hj)).trans hget')
    obtain hmem | hmem := List.mem_append.mp hmem
    · exact List.mem_append_left _
        (List.mem_append_right _ (List.mem_filterMap.mpr ⟨c', hmem, hd⟩))
    · exact List.mem_append_right _
        (List.mem_append_left _ (List.mem_filterMap.mpr ⟨c', hmem, hd⟩))
  · exact List.mem_append_right _ (List.mem_append_right _ (List.mem_map_of_mem hp))

/-- A peer is on another wire than the connections that wait. -/
theorem Owned.peer_ne_pending (hs : s.Owned) {p : Peer Bench.Handle} (hp : p ∈ s.peers.list)
    {d : Bench.Handle} (hd : d ∈ s.host.network.pending) : p.handle.number ≠ d.number := by
  have hnodup := hs.nodup
  rw [handles, List.map_append, List.nodup_append] at hnodup
  have hpeer : p.handle ∈ s.slotConns ++ s.peerConns :=
    List.mem_append_right _ (List.mem_map_of_mem hp)
  exact Ne.symm (hnodup.2.2 _ (List.mem_map_of_mem hd) _ (List.mem_map_of_mem hpeer))

/-- A wire with an owner is there and is not closed. -/
theorem Owned.isClosed_eq_false (hs : s.Owned) {c : Bench.Handle} (hc : c ∈ s.handles) :
    c.number < s.host.network.list.length ∧ s.host.network.isClosed c.number = false := by
  obtain ⟨lost, hb, -⟩ := hs.network
  have hpos : 0 < (s.handles.map Bench.Handle.number).count c.number :=
    List.count_pos_iff.mpr (List.mem_map_of_mem hc)
  have hn := hb c.number
  rw [conn_holdings, Multiset.map_add, Multiset.count_add, Multiset.map_add, Multiset.count_add,
    Multiset.map_coe, Multiset.map_coe, Multiset.coe_count, Multiset.coe_count] at hn
  rw [handles, List.map_append, List.map_append, List.count_append, List.count_append] at hpos
  cases hclosed : s.host.network.isClosed c.number with
  | false =>
    refine ⟨?_, rfl⟩
    split at hn <;> omega
  | true =>
    rw [hclosed, Bool.toNat_true] at hn
    split at hn <;> omega

theorem mem_handles {i : Nat} {c : Client (.wired V I B)} {conn : Bench.Handle}
    (hget : s.slots.get? i = some c) (hconn : c.conn = some conn) : conn ∈ s.handles :=
  List.mem_append_right _ (List.mem_append_left _
    (List.mem_filterMap.mpr ⟨c, Slots.mem_items_of_get? hget, hconn⟩))

/-! ### The parts of a tick on wires -/

/-- An accept leaves what matters of each wire as it is. -/
theorem wire_accept (s : Server (.wired V I B)) (k : Nat) :
    s.accept.host.network.sent k = s.host.network.sent k ∧
      s.accept.host.network.isClosed k = s.host.network.isClosed k ∧
      s.accept.host.network.failure? k = s.host.network.failure? k := by
  obtain ⟨-, -, hlist⟩ | ⟨conn, i, t, -, -, hlist⟩ := s.accept_wires
  · simp only [Bench.Wires.sent, Bench.Wires.isClosed, Bench.Wires.failure?, hlist, and_self]
  · refine ⟨?_, ?_, ?_⟩
    · rw [Bench.Wires.sent, hlist, ← Bench.Wires.sent, Bench.Wires.sent_update, Bench.Wires.sent]
      refine congrArg (Option.getD · [])
        (congrArg (Option.map · s.host.network.list[k]?) (funext fun w => ?_))
      split <;> rfl
    · rw [Bench.Wires.isClosed, hlist, ← Bench.Wires.isClosed]
      exact Bench.Wires.isClosed_update (fun _ _ => by rfl) k
    · rw [Bench.Wires.failure?, hlist, ← Bench.Wires.failure?]
      exact Bench.Wires.failure?_update (fun _ => by rfl) conn.number k

theorem sent_accept (s : Server (.wired V I B)) (k : Nat) :
    s.accept.host.network.sent k = s.host.network.sent k :=
  (s.wire_accept k).1

theorem pending_stepSlot (s : Server (.wired V I B)) (i : Nat) :
    (s.stepSlot i).host.network.pending = s.host.network.pending :=
  (s.reaches_stepSlot i).pending_eq

theorem pending_poll (s : Server (.wired V I B)) :
    s.poll.host.network.pending = s.host.network.pending :=
  s.reaches_poll.pending_eq

/-- The unit of work of a slot writes to its own wire alone. -/
theorem sent_stepSlot (s : Server (.wired V I B)) {i k : Nat}
    (hk : ∀ c, s.slots.get? i = some c → ∀ conn, c.conn = some conn → conn.number ≠ k) :
    (s.stepSlot i).host.network.sent k = s.host.network.sent k := by
  let others : Scope (.wired V I B) :=
    .online (fun _ => True) (fun c _ => c.number ≠ k) fun _ => True
  have hr : others.Reaches s.host (s.stepSlot i).host :=
    (Scope.Reaches.refl others s.host).stepSlot
      (fun c hget => ⟨c.aimsAt_online, fun conn hconn =>
        ⟨.of_writes trivial trivial fun _ => hk c hget conn hconn, trivial⟩⟩)
      (fun _ _ => trivial) (Scope.serves_online s.config)
  exact hr.sent_eq fun _ _ hw => hw

/-- The unit of work of a slot leaves the wires alone that are neither its own nor a peer's. -/
theorem wire_stepSlot (s : Server (.wired V I B)) {i k : Nat}
    (hk : ∀ c, s.slots.get? i = some c → ∀ conn, c.conn = some conn → conn.number ≠ k)
    (hpeers : ∀ p ∈ s.peers.list, p.handle.number ≠ k) :
    (s.stepSlot i).host.network.list[k]? = s.host.network.list[k]? := by
  let others : Scope (.wired V I B) :=
    .online (fun c => c.number ≠ k) (fun c _ => c.number ≠ k) fun c => c.number ≠ k
  have hr : others.Reaches s.host (s.stepSlot i).host :=
    (Scope.Reaches.refl others s.host).stepSlot
      (fun c hget => ⟨c.aimsAt_online, fun conn hconn =>
        have hne := hk c hget conn hconn
        ⟨.of_writes hne trivial fun _ => hne, hne⟩⟩)
      hpeers (Scope.serves_online s.config)
  exact hr.wire_eq (fun _ h => h) (fun _ _ h => h) fun _ h => h

/-- **The polls** write frames to peers, and nothing to anyone else. -/
theorem sent_poll (s : Server (.wired V I B)) (k : Nat) :
    ∃ more, s.poll.host.network.sent k = s.host.network.sent k ++ more ∧
      ∀ f ∈ more, Frame.FromServer s.config.outputSize f ∧
        ∃ p ∈ s.peers.list, p.handle.number = k := by
  let answers : Scope (.wired V I B) :=
    .online (fun _ => True) (fun c bs => Frame.FromServer s.config.outputSize bs ∧
      ∃ p ∈ s.peers.list, p.handle = c) fun _ => True
  have hr : answers.Reaches s.host s.poll.host :=
    (Scope.Reaches.refl answers s.host).poll
      (fun p hp => ⟨trivial, fun _ hframe => ⟨hframe, p, hp, rfl⟩,
        Scope.mayRun_online s.config p.uri⟩)
      fun _ _ => trivial
  obtain ⟨more, hsent, hmore⟩ := hr.exists_sent_eq k
  refine ⟨more, hsent, fun f hf => ?_⟩
  obtain ⟨c, hk, hframe, p, hp, hc⟩ := hmore f hf
  exact ⟨hframe, p, hp, by rw [hc, hk]⟩

theorem sent_poll_of_ne (s : Server (.wired V I B)) {k : Nat}
    (hk : ∀ p ∈ s.peers.list, p.handle.number ≠ k) :
    s.poll.host.network.sent k = s.host.network.sent k := by
  obtain ⟨more, hsent, hmore⟩ := s.sent_poll k
  have hnil : more = [] := by
    refine List.eq_nil_iff_forall_not_mem.mpr fun f hf => ?_
    obtain ⟨-, p, hp, hnumber⟩ := hmore f hf
    exact hk p hp hnumber
  rw [hsent, hnil, List.append_nil]

/-- A shutdown writes to nobody. -/
theorem sent_shutdown (s : Server (.wired V I B)) (k : Nat) :
    s.shutdown.host.network.sent k = s.host.network.sent k := by
  obtain ⟨h, hr, heq⟩ := s.reaches_shutdown
  rw [heq]
  exact hr.sent_eq fun _ _ hw => hw.elim

/-- Between ticks nothing is sent, and a connection that waits waited before or is new. -/
theorem Aside.wires {s' : Server (.wired V I B)} (ha : Aside (.steady V I B R) s s') :
    (∀ k, s'.host.network.sent k = s.host.network.sent k) ∧
      ∀ c ∈ s'.host.network.pending,
        c ∈ s.host.network.pending ∨ s.host.network.sent c.number = [] := by
  cases ha with
  | stop => exact ⟨fun _ => rfl, fun _ hc => .inl hc⟩
  | setTimeouts => exact ⟨fun _ => rfl, fun _ hc => .inl hc⟩
  | around board uptime hn =>
    exact ⟨fun k => (Bench.Wires.acts_frame hn k).1, fun _ => Bench.Wires.pending_of_acts hn⟩

end Server

end Microweb

import Microweb.Proofs.Bench
import Microweb.Proofs.Segments.Alone

/-!
The turns of one peer, whatever others do meanwhile. A tick polls each peer once, and until its
connection is closed nothing but its own poll takes from what a peer sent. So over the ticks the
polls of a peer bring what the receives of its segments bring, one after the other.
-/

namespace Microweb

open Bench.Wire (rest receives)

variable {V : Volume} {I : Interpreter} {B : Peripherals}

/-- Around a platform on wires clients do as they like, but leave what is to be received on that
wire as it is. -/
def Surroundings.besides (V : Volume) (I : Interpreter) (B : Peripherals) (k : Nat) :
    Surroundings (.wired V I B) where
  network ws ws' := ws.Acts ws' ∧ ∀ segments, ws.Offers k segments → ws'.Offers k segments
  volume _ _ := True
  interpreter _ _ := True

theorem Custody.undisturbed_besides {k : Nat} :
    (connections V I B).Undisturbed (.besides V I B k) where
  network ha h := ⟨h.1.acts ha.1, h.2.acts ha.1⟩
  volume _ _ := trivial
  interpreter _ _ := trivial

theorem Bench.Wire.foldl_send (segments : List Bytes) (w : Wire) :
    segments.foldl Wire.send w = { w with inbound := w.inbound ++ segments } := by
  induction segments generalizing w with
  | nil => rw [List.foldl_nil, List.append_nil]
  | cons segment segments ih =>
    rw [List.foldl_cons, ih, Wire.send, List.append_assoc, List.singleton_append]

/-- A step leaves the handle of a connection where it is, or hands it on. -/
theorem Client.conn_of_step {P : Platform} {c : Client P} {config : Config} {peers : Peers P.Conn}
    {h : Host P} {conn : P.Conn} (hconn : (c.step config peers h).1.conn = some conn) :
    c.conn = some conn := by
  have hpooled := c.pooled_step config peers h
  generalize c.step config peers h = r at hconn hpooled
  cases hpooled with
  | stays h' hkind hsame => rwa [hsame] at hconn
  | joins uri h' => cases hconn

namespace Server

/-- The turns of the tick to come. -/
def nextTurns {P : Platform} (s : Server P) : List (Polling.Turn P) :=
  Polling.turns s.accept.stepSlots.config s.accept.stepSlots.peers.list
    (List.replicate (Polling.room s.accept.stepSlots.config) 0) s.accept.stepSlots.host

/-- **A tick ends as its last turn**, and then closes the peers that have to go. -/
theorem tick_host {P : Platform} (s : Server P) : s.tick.host =
    Polling.closeEvicted (Polling.withFate s.accept.stepSlots.config s.accept.stepSlots.peers
        s.accept.stepSlots.host .evict)
      ((s.nextTurns.getLast?.map Polling.Turn.after).getD s.accept.stepSlots.host) := by
  show (Polling.round _ s.accept.stepSlots.peers s.accept.stepSlots.host).2 = _
  rw [Polling.round_eq, Polling.pollEach_eq_turns]
  rfl

variable {s t : Server (.wired V I B)} {p : Peer Bench.Handle} {k : Nat}
  {segments segments' : List Bytes} {fss : List (List Frame.Sent)}

abbrev Sound (s : Server (.wired V I B)) : Prop := (Custody.connections V I B).Sound s

theorem Sound.owned (hs : s.Sound) : s.Owned := by
  refine ⟨⟨0, ?_⟩, trivial, trivial, trivial⟩
  rw [add_zero]
  exact hs.network

theorem sound_new {s₀ : Server (.wired V I B)} {config : Config} {volume : V.State}
    {interpreter : I.State} {board : B.State}
    (hnew : Server.new (P := .wired V I B) config Bench.Wires.empty volume interpreter board =
      .ok s₀) : s₀.Sound := by
  obtain ⟨-, rfl⟩ := new_eq_ok_iff.mp hnew
  refine ⟨⟨fun n => ?_, ⟨0, rfl, rfl⟩⟩, trivial, trivial, fun a => List.not_mem_nil⟩
  rw [conn_holdings, slotConns, Slots.items_free]
  rfl

/-! ### Who is on a wire -/

/-- A peer after the unit of work of a slot was there before, or comes from the slot. -/
theorem exists_of_mem_stepSlot {P : Platform} {s : Server P} {i : Nat} {q : Peer P.Conn}
    (hq : q ∈ (s.stepSlot i).peers.list) :
    q ∈ s.peers.list ∨ ∃ c, s.slots.get? i = some c ∧ c.conn = some q.handle := by
  obtain ⟨-, ht⟩ | ⟨c, c', peers, h, hget, hstep, hcases⟩ := s.stepSlot_cases i
  · rw [ht] at hq
    exact .inl hq
  · have hpeers : (s.stepSlot i).peers = peers := by
      obtain ⟨-, ht⟩ | ⟨-, ht⟩ := hcases <;> rw [ht]
    have hpooled := c.pooled_step s.config s.peers s.host
    rw [hstep] at hpooled
    rw [hpeers] at hq
    cases hpooled with
    | stays => exact .inl hq
    | joins uri h' hconn =>
      obtain rfl | hq := Peers.eq_or_mem_of_enrol hq
      · exact .inr ⟨c, hget, hconn⟩
      · exact .inl hq

theorem Owned.nodup_served (hs : s.Owned) : (s.slotConns.map Bench.Handle.number ++
    s.peerConns.map Bench.Handle.number).Nodup := by
  have hnodup := hs.nodup
  rw [handles, List.map_append, List.map_append, List.nodup_append] at hnodup
  exact hnodup.2.1

theorem Owned.nodup_peers (hs : s.Owned) : (s.peers.list.map fun p => p.handle.number).Nodup := by
  have hpeers := (List.nodup_append.mp hs.nodup_served).2.1
  rwa [peerConns, List.map_map] at hpeers

theorem Owned.peer_unique (hs : s.Owned) {q : Peer Bench.Handle} (hp : p ∈ s.peers.list)
    (hq : q ∈ s.peers.list) (hnumber : q.handle.number = p.handle.number) : q = p :=
  List.inj_on_of_nodup_map hs.nodup_peers hq hp hnumber

/-- An open wire that is nobody else's is a peer's. -/
theorem Sound.exists_peer (hs : s.Sound) (hlt : k < s.host.network.list.length)
    (hopen : s.host.network.isClosed k = false)
    (hpending : ∀ d ∈ s.host.network.pending, d.number ≠ k)
    (hslots : ∀ c ∈ s.slots.items, ∀ conn, c.conn = some conn → conn.number ≠ k) :
    ∃ q ∈ s.peers.list, q.handle.number = k := by
  by_contra hnone
  have hclosed := (placed_of_sound hs).isClosed k hlt ?_ ?_ ?_
  · rw [hopen] at hclosed
    cases hclosed
  · intro hmem
    obtain ⟨d, hd, hnumber⟩ := List.mem_map.mp hmem
    exact hpending d hd hnumber
  · intro hmem
    obtain ⟨d, hd, hnumber⟩ := List.mem_map.mp hmem
    obtain ⟨c, hc, hconn⟩ := List.mem_filterMap.mp hd
    exact hslots c hc d hconn hnumber
  · intro hmem
    obtain ⟨d, hd, hnumber⟩ := List.mem_map.mp hmem
    obtain ⟨q, hq, rfl⟩ := List.mem_map.mp hd
    exact hnone ⟨q, hq, hnumber⟩

/-- A peer's wire is nobody else's. -/
theorem Owned.others_ne (hs : s.Owned) (hp : p ∈ s.peers.list) :
    (∀ d ∈ s.host.network.pending, d.number ≠ p.handle.number) ∧
      ∀ c ∈ s.slots.items, ∀ conn, c.conn = some conn → conn.number ≠ p.handle.number := by
  refine ⟨fun d hd => Ne.symm (hs.peer_ne_pending hp hd), fun c hc conn hconn => ?_⟩
  have hslot : conn ∈ s.slotConns := List.mem_filterMap.mpr ⟨c, hc, hconn⟩
  have hpeer : p.handle ∈ s.peerConns := List.mem_map_of_mem hp
  exact (List.nodup_append.mp hs.nodup_served).2.2 _ (List.mem_map_of_mem hslot) _
    (List.mem_map_of_mem hpeer)

/-! ### A peer that is listened to -/

/-- The peer is one of the server, for all that its age may be, and these segments are next on its
wire; unless the server closed it. -/
structure Listens (p : Peer Bench.Handle) (segments : List Bytes) (s : Server (.wired V I B)) :
    Prop where
  sound : s.Sound
  offers : s.host.network.isClosed p.handle.number = true ∨
    (∃ age, { p with age } ∈ s.peers.list) ∧ s.host.network.Offers p.handle.number segments

namespace Listens

/-- What leaves a closed wire closed, and an open one to its peer. -/
theorem keep (hl : s.Listens p segments) (ht : t.Sound)
    (hclosed : s.host.network.isClosed p.handle.number = true →
      t.host.network.isClosed p.handle.number = true)
    (hopen : ∀ age, { p with age } ∈ s.peers.list →
      s.host.network.Offers p.handle.number segments →
      t.host.network.isClosed p.handle.number = true ∨
        (∃ age, { p with age } ∈ t.peers.list) ∧
          t.host.network.Offers p.handle.number segments') : t.Listens p segments' := by
  refine ⟨ht, ?_⟩
  obtain hc | ⟨⟨age, hp⟩, ho⟩ := hl.offers
  · exact .inl (hclosed hc)
  · exact hopen age hp ho

theorem accept (hl : s.Listens p segments) : s.accept.Listens p segments := by
  obtain ⟨hpeers, -⟩ := s.accept_frame
  obtain ⟨-, hclosed, -⟩ := s.wire_accept p.handle.number
  refine hl.keep (hl.sound.accept Bench.Wires.accepts_balance) (fun hc => hclosed.trans hc)
    fun age hp ho => .inr ⟨⟨age, by rwa [hpeers]⟩, ?_⟩
  obtain ⟨-, -, hlist⟩ | ⟨conn, i, t, -, hpending, hlist⟩ := s.accept_wires
  · rwa [Bench.Wires.Offers, hlist]
  · obtain ⟨w, hw, hrest⟩ := ho
    refine ⟨_, by rw [hlist, Bench.Wires.getElem?_update, hw]; rfl, ?_⟩
    split <;> exact hrest

/-- The unit of work of a slot may close the wire of a peer that makes room for a new one. -/
theorem stepSlot (hl : s.Listens p segments) (i : Nat) : (s.stepSlot i).Listens p segments := by
  have hsound : (s.stepSlot i).Sound := Custody.Sound.stepSlot hl.sound i
  refine hl.keep hsound (fun hc => ?_) fun age hp ho => ?_
  · exact (s.reaches_stepSlot i).isClosed hc
  · obtain ⟨hpending, hslots⟩ := hl.sound.owned.others_ne hp
    have hown : ∀ c, s.slots.get? i = some c → ∀ conn, c.conn = some conn →
        conn.number ≠ p.handle.number := fun c hget => hslots c (Slots.mem_items_of_get? hget)
    have hr := (Scope.Reaches.refl (.besides V I B p.handle.number True) s.host).stepSlot
      (fun c hget => ⟨c.aimsAt_online, fun conn hconn =>
        ⟨.of_writes (hown c hget conn hconn) trivial fun _ => trivial, trivial⟩⟩)
      (fun _ _ => trivial) (Scope.serves_online s.config)
    obtain ho' | ⟨-, hc⟩ := hr.offers ho
    swap
    · exact .inl hc
    refine .inr ⟨?_, ho'⟩
    -- the wire is still open, so that a peer has it, and no other peer can
    obtain ⟨q, hmem, hnumber⟩ := hsound.exists_peer ho'.lt ho'.isOpen (by rwa [pending_stepSlot])
      (forall_items_stepSlot s i
        (fun c hget _ conn hconn => hown c hget conn (Client.conn_of_step hconn)) hslots)
    obtain hq | ⟨c, hget, hconn⟩ := exists_of_mem_stepSlot hmem
    · rw [hl.sound.owned.peer_unique hp hq hnumber] at hmem
      exact ⟨age, hmem⟩
    · exact absurd hnumber (hown c hget _ hconn)

theorem stepSlots (hl : s.Listens p segments) : s.accept.stepSlots.Listens p segments := by
  have hmid : s.accept.stepSlots = s.midTick s.accept.slots.occupied.length := by
    rw [midTick, List.take_length]
    rfl
  rw [hmid]
  exact midTick_induction (I := fun t => t.Listens p segments) (fun _ h => h.accept)
    (fun _ i h => h.stepSlot i) hl _

end Listens

/-- A peer stands alone among its peers. -/
theorem Owned.exists_peers_eq (hs : s.Owned) {age : UInt32} (hp : { p with age } ∈ s.peers.list) :
    ∃ before after, s.peers.list = before ++ { p with age } :: after ∧
      (∀ q ∈ before, q.handle.number ≠ p.handle.number) ∧
      ∀ q ∈ after, q.handle.number ≠ p.handle.number := by
  obtain ⟨before, after, hpeers⟩ := List.append_of_mem hp
  have hnodup := hs.nodup_peers
  rw [hpeers, List.map_append, List.map_cons, List.nodup_append, List.nodup_cons] at hnodup
  obtain ⟨-, ⟨hafter, -⟩, hbefore⟩ := hnodup
  refine ⟨before, after, hpeers, fun q hq => ?_, fun q hq heq => ?_⟩
  · exact hbefore _ (List.mem_map_of_mem hq) _ List.mem_cons_self
  · exact hafter (heq ▸ List.mem_map_of_mem hq)

theorem length_buffer (config : Config) :
    (List.replicate (Polling.room config) (0 : UInt8)).length = Polling.room config :=
  List.length_replicate

theorem Owned.offers_poll (hs : s.Owned) {age : UInt32} (hp : { p with age } ∈ s.peers.list)
    (ho : s.host.network.Offers p.handle.number segments) :
    s.poll.host.network.Offers p.handle.number (rest (Polling.room s.config) segments) ∨
      s.poll.host.network.isClosed p.handle.number = true := by
  obtain ⟨before, after, hpeers, hbefore, hafter⟩ := hs.exists_peers_eq hp
  have hoffers := Polling.offers_pollEach (p := p) s.config age hbefore hafter
    (List.replicate (Polling.room s.config) 0) ho
  rw [length_buffer, ← hpeers] at hoffers
  unfold poll
  rw [Polling.round_eq]
  exact Polling.offers_closeEvicted _ hoffers

theorem Listens.poll (hl : s.Listens p segments) :
    s.poll.Listens p (rest (Polling.room s.config) segments) := by
  have hsound : s.poll.Sound := Custody.Sound.poll hl.sound
  refine hl.keep hsound (fun hc => ?_) fun age hp ho => ?_
  · exact s.reaches_poll.isClosed hc
  · obtain ho' | hc := hl.sound.owned.offers_poll hp ho
    swap
    · exact .inl hc
    refine .inr ⟨?_, ho'⟩
    obtain ⟨hpending, hslots⟩ := hl.sound.owned.others_ne hp
    obtain ⟨q, hmem, hnumber⟩ := hsound.exists_peer ho'.lt ho'.isOpen (by rwa [pending_poll])
      hslots
    obtain ⟨q', hq', heq⟩ := Polling.exists_mem_of_round hmem
    have hsame : q' = { p with age } :=
      hl.sound.owned.peer_unique hp hq' (by rw [← hnumber, heq])
    rw [heq, hsame] at hmem
    exact ⟨q.age, hmem⟩

theorem Listens.tick (hl : s.Listens p segments) :
    s.tick.Listens p (rest (Polling.room s.config) segments) := by
  have hconfig : s.accept.stepSlots.config = s.config := config_tick s
  have hpoll := hl.stepSlots.poll
  rwa [hconfig] at hpoll

theorem Listens.aside (hl : s.Listens p segments)
    (ha : Aside (.besides V I B p.handle.number) s t) : t.Listens p segments := by
  have hsound : t.Sound :=
    Custody.Sound.step Bench.Wires.accepts_balance Custody.undisturbed_besides hl.sound ha.step
  cases ha with
  | stop => exact hl.keep hsound id fun age hp ho => .inr ⟨⟨age, hp⟩, ho⟩
  | setTimeouts => exact hl.keep hsound id fun age hp ho => .inr ⟨⟨age, hp⟩, ho⟩
  | around board uptime hn =>
    obtain ⟨hacts, hoffers⟩ := hn
    refine hl.keep hsound (fun hc => ?_) fun age hp ho => .inr ⟨⟨age, hp⟩, hoffers _ ho⟩
    exact (Bench.Wires.acts_frame hacts p.handle.number).2 hc

/-- **A tick takes a receive**, and nothing else does. -/
theorem Listens.passes (hl : s.Listens p segments) {n : Nat}
    (hpasses : Passes (.besides V I B p.handle.number) s n t) :
    t.config = s.config ∧ t.Listens p ((rest (Polling.room s.config))^[n] segments) := by
  induction hpasses with
  | refl => exact ⟨rfl, hl⟩
  | @tick n t _ ih =>
    obtain ⟨hconfig, hl'⟩ := ih
    have htick := hl'.tick
    refine ⟨(config_tick t).trans hconfig, ?_⟩
    rw [Function.iterate_succ_apply']
    rwa [hconfig] at htick
  | aside _ ha ih =>
    obtain ⟨hconfig, hl'⟩ := ih
    exact ⟨ha.frame.1.trans hconfig, hl'.aside ha⟩

/-- **What a peer is served** after so many ticks: in each tick to come, whatever happens meanwhile
that leaves what it sent as it is, it has one turn, and that serves just what arrives for it in this
tick, until the server closes its connection. -/
def Hears (s : Server (.wired V I B)) (p : Peer Bench.Handle) (ahead : Nat)
    (fss : List (List Frame.Sent)) : Prop :=
  ∀ n t, Passes (.besides V I B p.handle.number) s (ahead + n) t →
    t.accept.stepSlots.host.network.isClosed p.handle.number = true ∨
      ∃ xs x ys, t.nextTurns = xs ++ x :: ys ∧
        (∀ y ∈ xs ++ ys, y.peer.handle.number ≠ p.handle.number) ∧
        x.Serves s.config p (fss.getD n [])

theorem Listens.hears {ahead : Nat} (hl : s.Listens p segments)
    (harr : Frame.Arrives (Polling.room s.config)
      ((rest (Polling.room s.config))^[ahead] segments) fss) : s.Hears p ahead fss := by
  intro n t hpasses
  obtain ⟨hconfig, hl'⟩ := hl.passes hpasses
  have harr' := harr.drop n
  rw [← Function.iterate_add_apply, Nat.add_comm n ahead] at harr'
  have hconfig : t.accept.stepSlots.config = s.config := (config_tick t).trans hconfig
  have hmid := hl'.stepSlots
  obtain hc | ⟨⟨age, hp⟩, ho⟩ := hmid.offers
  · exact .inl hc
  · right
    obtain ⟨before, after, hpeers, hbefore, hafter⟩ := hmid.sound.owned.exists_peers_eq hp
    obtain ⟨xs, x, ys, hturns, hothers, hserves⟩ := Polling.exists_turns_eq (p := p)
      t.accept.stepSlots.config age hbefore hafter
      (List.replicate (Polling.room t.accept.stepSlots.config) 0)
      (by rwa [length_buffer, hconfig]) ho
    rw [← hpeers] at hturns
    rw [hconfig, List.headD_eq_head?_getD, List.head?_drop, ← List.getD_eq_getElem?_getD] at hserves
    exact ⟨xs, x, ys, hturns, hothers, hserves⟩

/-! ### Segments that a client sends -/

/-- The server, once a client has sent it those segments. -/
def withSent (s : Server (.wired V I B)) (number : Nat) (segments : List Bytes) :
    Server (.wired V I B) :=
  s.onNetwork fun ws => ws.update number fun w => segments.foldl Bench.Wire.send w

theorem Sound.withSent (hs : s.Sound) (k : Nat) (segments : List Bytes) :
    (s.withSent k segments).Sound := by
  obtain ⟨⟨hbalances, hinOrder⟩, -, -, hlog⟩ := hs
  refine ⟨⟨hbalances.update fun w _ => ?_, hinOrder.update _ _⟩, trivial, trivial, hlog⟩
  rw [Bench.Wire.foldl_send]

theorem offers_withSent {earlier : List Bytes} (ho : s.host.network.Offers k earlier)
    (segments : List Bytes) :
    (s.withSent k segments).host.network.Offers k (earlier ++ segments) := by
  obtain ⟨w, hw, hopen, hfine, hin⟩ := ho
  have hget := Bench.Wires.getElem?_update s.host.network k k
    fun w => segments.foldl Bench.Wire.send w
  rw [hw, Option.map_some, if_pos rfl, Bench.Wire.foldl_send, hin] at hget
  exact ⟨_, hget, hopen, hfine, rfl⟩

theorem Only.withSent {ps : List (Peer Bench.Handle)} (hs : s.Only ps) (k : Nat)
    (segments : List Bytes) : (s.withSent k segments).Only ps :=
  ⟨hs.peers, hs.free, hs.nobody⟩

theorem alike_withSent (s : Server (.wired V I B)) (k : Nat) (segments : List Bytes) :
    s.host.Alike k (s.withSent k segments).host :=
  ⟨rfl, rfl, .symm (Bench.Wires.outlet?_update (fun w => by rw [Bench.Wire.foldl_send]; rfl) k k)⟩

/-- Before any tick nothing has come of what was sent. -/
theorem ends_withSent (honly : s.Only [p]) (hquiet : s.host.network.Offers p.handle.number [])
    (segments : List Bytes) : (s.withSent p.handle.number segments).Ends p (true, s.host) where
  board := rfl
  interpreter := rfl
  sent := Bench.Wires.sent_eq_of_outlet? (s.alike_withSent p.handle.number segments).outlet.symm
  only := honly.withSent _ segments
  isClosed := (offers_withSent hquiet segments).isOpen

/-- **Segments that arrive in frames**: a peer is served them after what it sent earlier, and if
there is nothing of that and the peer is alone with its server, it is served as by one answer after
the other. -/
theorem served_of_arrives (hs : s.Sound) (hp : p ∈ s.peers.list) {earlier : List Bytes}
    (hqueue : s.host.network.Offers p.handle.number earlier)
    (harr : Frame.Arrives (Polling.room s.config) segments fss) :
    (s.withSent p.handle.number segments).Hears p (receives (Polling.room s.config) earlier) fss ∧
      (earlier = [] → [] ∉ fss → s.Only [p] →
        (tick^[fss.length] (s.withSent p.handle.number segments)).Ends
          (if fss = [] then p else p.touch.1)
          (Polling.serveAll s.config p (fss.flatten.map Frame.Sent.frame) s.host)) := by
  have ho := offers_withSent hqueue segments
  refine ⟨?_, ?_⟩
  · have hl : (s.withSent p.handle.number segments).Listens p (earlier ++ segments) :=
      ⟨hs.withSent _ _, .inr ⟨⟨p.age, hp⟩, ho⟩⟩
    refine hl.hears ?_
    show Frame.Arrives (Polling.room s.config)
      ((rest (Polling.room s.config))^[receives (Polling.room s.config) earlier]
        (earlier ++ segments)) fss
    rwa [Bench.Wire.iterate_rest (Polling.room_pos s.config)]
  · rintro rfl hfss honly
    have hends := ends_of_arrives (s := s.withSent p.handle.number segments) harr hfss rfl
      (honly.withSent _ segments) ho
    have hconcur := (alike_withSent s p.handle.number segments).symm.serveAll s.config
      (fss.flatten.map Frame.Sent.frame)
    refine hends.congr ?_
    split
    · exact hconcur
    · exact hconcur

/-- **The frames of a segment.** On every run on wires, whatever clients, the volume, the
interpreter and the board do, a client may send frames back to back in one segment of any length, of
which no frame stands partly in one receive and partly in the next. Then, behind what it sent
earlier, each of them is served just once and in order, in the turns of its peer in as many ticks as
the segment needs receives, as it is in one tick after the other if each is sent in a segment of its
own; and if there is nothing earlier and the peer is alone with the server, the board, the
interpreter and all that was sent are the same in the end. Nothing else is served in these turns,
nor later, so that no byte of a payload is taken for a frame. The peer stays as long as no write to
it fails. -/
theorem segment_served {s₀ : Server (.wired V I B)} {config : Config} {volume : V.State}
    {interpreter : I.State} {board : B.State}
    (hnew : Server.new (P := .wired V I B) config Bench.Wires.empty volume interpreter board =
      .ok s₀) (hrun : Serves (.clients V I B) s₀ s) (hp : p ∈ s.peers.list) {earlier : List Bytes}
    (hqueue : s.host.network.Offers p.handle.number earlier) {fs : List Frame.Sent}
    (hwhole : Frame.Unbroken (Polling.room s.config) fs) :
    let together := s.withSent p.handle.number [Frame.stream fs]
    let apart := s.withSent p.handle.number (fs.map Frame.Sent.bytes)
    let ahead := receives (Polling.room s.config) earlier
    let needed := (Frame.stream fs).length ⌈/⌉ Polling.room s.config
    (∃ fss, fss.flatten = fs ∧ (fs ≠ [] → [] ∉ fss ∧ fss.length = needed) ∧
        together.Hears p ahead fss) ∧
      apart.Hears p ahead (fs.map fun f => [f]) ∧
      (earlier = [] → s.Only [p] →
        let r := Polling.serveAll s.config p (fs.map Frame.Sent.frame) s.host
        let q := if fs = [] then p else p.touch.1
        (tick^[needed] together).Ends q r ∧ (tick^[fs.length] apart).Ends q r ∧
          (s.host.network.failure? p.handle.number = none → r.1 = true)) := by
  intro together apart ahead needed
  have hs := (sound_new hnew).serves Bench.Wires.accepts_balance
    Custody.undisturbed_connections hrun
  obtain ⟨fss, hflat, harr, hfss⟩ := hwhole.exists_arrives (Polling.room_pos s.config)
  obtain ⟨hears, hends⟩ := served_of_arrives hs hp hqueue harr
  obtain ⟨hearsApart, hendsApart⟩ := served_of_arrives hs hp hqueue
    (Frame.arrives_each fun f hf => hwhole.length_le hf)
  refine ⟨⟨fss, hflat, hfss, hears⟩, hearsApart, fun hquiet honly => ⟨?_, ?_, fun hfine => ?_⟩⟩
  · by_cases hfs : fs = []
    · subst hfs hquiet
      have hnone : needed = 0 := zero_ceilDiv _
      rw [hnone]
      exact ends_withSent honly hqueue _
    · obtain ⟨hne, hlen⟩ := hfss hfs
      have hsome : fss ≠ [] := by
        rintro rfl
        exact hfs hflat.symm
      have hq : (if fs = [] then p else p.touch.1) = p.touch.1 := if_neg hfs
      have hends := hends hquiet hne honly
      rwa [hlen, hflat, if_neg hsome, ← hq] at hends
  · have hends := hendsApart hquiet (by simp) honly
    rw [← List.flatMap_def, List.flatMap_singleton'] at hends
    simpa using hends
  · exact Polling.serveAll_of_writable ⟨hqueue.lt, hqueue.isOpen, hfine⟩ _

end Server

/-! ### Two receives -/

namespace Segments

open Bench

/-- A server with room for thirty bytes in a receive from a peer. -/
def idle : Server kit :=
  onRecord { Config.default with outputSize := 16, maxUriLength := 256 } .empty .empty

def queue : Server kit :=
  (idle.onNetwork fun ws => ws.connect (clientAddress 1)).onNetwork
    fun ws => ws.update 0 fun w => w.send (upgradeRequest "/dev" "dGhlIHNhbXBsZSBub25jZQ==")

/-- The client has become a peer, of which commands for the board are taken. -/
def upgraded : Server kit := queue.tick

theorem serves_upgraded : Server.Serves (.clients _ _ _) idle upgraded := by
  unfold upgraded queue
  refine Relation.ReflTransGen.tail ?_ (.tick _)
  refine Relation.ReflTransGen.tail ?_ (.ofActs (.send 0 _))
  exact Relation.ReflTransGen.single (.ofActs (.connect (clientAddress 1)))

def peer : Peer Handle := ⟨⟨0, clientAddress 1⟩, clientAddress 1, "/dev", 1⟩

/-- It is alone with the server, and quiet. -/
theorem alone_upgraded : upgraded.Only [peer] ∧
    upgraded.host.network.Offers peer.handle.number [] ∧
    upgraded.host.network.failure? peer.handle.number = none ∧
    Polling.room upgraded.config = 30 := by
  have h : (upgraded.peers.list = [peer] ∧ upgraded.slots.items.length = 0 ∧
      upgraded.host.network.pending = []) ∧
      upgraded.host.network.Offers peer.handle.number [] ∧
      upgraded.host.network.failure? peer.handle.number = none ∧
      Polling.room upgraded.config = 30 := by decide +kernel
  generalize upgraded = s at h ⊢
  obtain ⟨⟨hpeers, hslots, hpending⟩, hrest⟩ := h
  exact ⟨⟨hpeers, List.length_eq_zero_iff.mp hslots, hpending⟩, hrest⟩

/-- Two pings, of which the second says in the middle of its payload what a frame with a command
would say. -/
def pings : List Frame.Sent := [
  ⟨.ping, List.replicate 16 0x70, ⟨0, 0, 0, 0⟩, by decide⟩,
  ⟨.ping, [0x61, 0x61, 0x81, 0x88, 0, 0, 0, 0] ++ Utf8.encode "dac[0]=1", ⟨0, 0, 0, 0⟩, by decide⟩]

/-- The first receive of both in one segment ends where the second says that, so that the second
receive brings the command. -/
theorem not_served_apart :
    (∀ f ∈ pings, f.payload.length ≤ upgraded.config.outputSize) ∧ upgraded.Only [peer] ∧
      upgraded.host.network.Offers peer.handle.number [] ∧
      let together := Server.tick^[2] (upgraded.withSent peer.handle.number [Frame.stream pings])
      let apart := Server.tick^[2]
        (upgraded.withSent peer.handle.number (pings.map Frame.Sent.bytes))
      together.host.network.Offers peer.handle.number [] ∧
        apart.host.network.Offers peer.handle.number [] ∧
        (together.host.network.sent peer.handle.number).getLast? =
          Frame.encode? Opcode.text (Utf8.encode "dac[0]=1") 16 ∧
        (apart.host.network.sent peer.handle.number).getLast? =
          (pings.getLast?.bind fun f => Frame.encode? Opcode.pong f.payload 16) ∧
        together.host.board.value .dac 0 ≠ apart.host.board.value .dac 0 := by
  obtain ⟨honly, hquiet, -, hroom⟩ := alone_upgraded
  have hsize : upgraded.config.outputSize = 16 := Nat.add_right_cancel hroom
  refine ⟨?_, honly, hquiet, ?_⟩
  · rw [hsize]
    decide +kernel
  · decide +kernel

/-- Three frames in one segment, of which the first two fill the first receive. -/
def commands : List Frame.Sent := [
  ⟨.ping, List.replicate 10 0x70, ⟨1, 2, 3, 4⟩, by decide⟩,
  ⟨.text, Utf8.encode "dac[0]=1", ⟨0x37, 0xFA, 0x21, 0x3D⟩, by decide⟩,
  ⟨.binary, Utf8.encode "dac[0]", ⟨5, 6, 7, 8⟩, by decide⟩]

theorem segment_served_commands :
    let together := upgraded.withSent peer.handle.number [Frame.stream commands]
    let apart := upgraded.withSent peer.handle.number (commands.map Frame.Sent.bytes)
    (∃ fss, fss.flatten = commands ∧ fss.length = 2 ∧ together.Hears peer 0 fss) ∧
      apart.Hears peer 0 (commands.map fun f => [f]) ∧
      ∃ r : Bool × Host kit, r.1 = true ∧ (Server.tick^[2] together).Ends peer.touch.1 r ∧
        (Server.tick^[3] apart).Ends peer.touch.1 r := by
  have hrun := serves_upgraded
  obtain ⟨honly, hquiet, hfine, hroom⟩ := alone_upgraded
  have hwhole : Frame.Unbroken 30 commands := by decide +kernel
  have hneeded : (Frame.stream commands).length ⌈/⌉ 30 = 2 := by decide +kernel
  -- From here on the server need not be computed.
  generalize upgraded = s at hrun honly hquiet hfine hroom ⊢
  obtain ⟨⟨fss, hflat, hfss, htogether⟩, hapart, hends⟩ := Server.segment_served
    (new_onRecord (by decide) _ _) hrun (honly.peers ▸ List.mem_cons_self) hquiet
    (hroom.symm ▸ hwhole)
  rw [hroom, hneeded] at hfss hends
  obtain ⟨hendsTogether, hendsApart, hstay⟩ := hends rfl honly
  exact ⟨⟨fss, hflat, (hfss (List.cons_ne_nil _ _)).2, htogether⟩, hapart, _, hstay hfine,
    hendsTogether, hendsApart⟩

end Segments

end Microweb

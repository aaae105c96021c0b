import Mathlib.Logic.Function.Iterate
import Microweb.Proofs.Alike
import Microweb.Proofs.Frames.Acceptance
import Microweb.Proofs.Run
import Microweb.Proofs.Scope.Server

/-!
A server with one peer and nobody else, on any network that keeps what is to be received from the
peer apart from what is written to it. What such a server makes of frames that arrive over several
ticks is what `Polling.serveAll` tells: one frame is answered after the other, until a write fails
for good.
-/

namespace Microweb

open Bench.Wire (rest Brings)

/-! ### Connections with two directions -/

/-- **How a network keeps a connection**: the segments that are to be received on it do not depend
on what is written, and what becomes of writes depends on its outlet alone. Writes may fail at any
time and may then have written a front of the bytes. -/
structure Network.Duplex (N : Network) (c : N.Conn) where
  /-- All that writes to the connection depend on and change. -/
  Outlet : Type
  outlet : N.State → Outlet
  /-- All bytes that were written. -/
  written : Outlet → Bytes
  /-- The connection is open, and these segments are next to be received. -/
  Offers : N.State → List Bytes → Prop
  /-- Nobody waits to be accepted. -/
  Quiet : N.State → Prop
  isOutlet : N.IsOutlet c outlet
  written_write : ∀ bs s, ∃ front, front <+: bs ∧
    written (outlet (N.write c bs s).2) = written (outlet s) ++ front ∧
      ((N.write c bs s).1 = .ok () → front = bs)
  offers_write : ∀ {s segments} bs, Offers s segments → Offers (N.write c bs s).2 segments
  quiet_write : ∀ {s} bs, Quiet s → Quiet (N.write c bs s).2
  brings : ∀ {s segments} room, Offers s segments → Brings room segments (N.receive c room s).1
  offers_receive : ∀ {s segments} room, Offers s segments →
    Offers (N.receive c room s).2 (rest room segments)
  outlet_receive : ∀ {s segments} room, Offers s segments →
    outlet (N.receive c room s).2 = outlet s
  quiet_receive : ∀ {s} room, Quiet s → Quiet (N.receive c room s).2
  accept : ∀ {s} wait, Quiet s → ∃ e, (N.accept wait s).1 = .error e
  offers_accept : ∀ {s segments} wait, Quiet s → Offers s segments →
    Offers (N.accept wait s).2 segments
  outlet_accept : ∀ {s} wait, Quiet s → outlet (N.accept wait s).2 = outlet s
  quiet_accept : ∀ {s} wait, Quiet s → Quiet (N.accept wait s).2
  outlet_close : ∀ {s t}, outlet s = outlet t → outlet (N.close c s) = outlet (N.close c t)
  written_close : ∀ s, written (outlet (N.close c s)) = written (outlet s)
  quiet_close : ∀ {s}, Quiet s → Quiet (N.close c s)

variable {P : Platform}

/-! ### One poll -/

namespace Polling

variable {config : Config} {p : Peer P.Conn} {fs : List Frame.Sent} {tail buf : Bytes}
  {h h' : Host P}

/-- **The buffer plays no part**: what a poll left in it is not seen by the next. -/
theorem pollPeer_buffer (config : Config) (p : Peer P.Conn) (h : Host P) {buf buf' : Bytes}
    (hlen : buf.length = buf'.length) :
    (pollPeer config p buf h).1 = (pollPeer config p buf' h).1 ∧
      (pollPeer config p buf h).2.2 = (pollPeer config p buf' h).2.2 := by
  unfold pollPeer
  rw [hlen]
  split
  · split <;> exact ⟨rfl, rfl⟩
  · simp only [List.take_left, and_self]

/-- What is no frame is noted at most. -/
theorem serveFrames_of_error (config : Config) (p : Peer P.Conn) (h : Host P)
    (htail : ∃ e, (Frame.parse tail).1 = .error e) {fuel : Nat} (hfuel : tail.length ≤ fuel)
    (any : Bool) {O : Type} (view : P.network.State → O) :
    (serveFrames config p fuel any tail h).1 = .ended any ∧
      h.AlikeBy view (serveFrames config p fuel any tail h).2.2 := by
  obtain ⟨e, he⟩ := htail
  cases fuel with
  | zero => exact ⟨rfl, .refl view h⟩
  | succ fuel =>
    unfold serveFrames
    split
    · exact ⟨rfl, .refl view h⟩
    · have hparse : Frame.parse tail = (.error e, (Frame.parse tail).2) := Prod.ext he rfl
      rw [hparse]
      exact ⟨rfl, rfl, rfl, rfl⟩

/-- A closing frame is noted, and nothing behind it is looked at. -/
theorem serveFrames_of_closes (config : Config) (p : Peer P.Conn) (h : Host P)
    (hcloses : Frame.Closes tail) {fuel : Nat} (hfuel : tail.length ≤ fuel) (any : Bool) {O : Type}
    (view : P.network.State → O) :
    (serveFrames config p fuel any tail h).1 = .evict ∧
      h.AlikeBy view (serveFrames config p fuel any tail h).2.2 := by
  have hparse := Frame.parse_closes hcloses
  obtain ⟨fuel, rfl⟩ : ∃ n, fuel = n + 1 := by
    obtain ⟨-⟩ := hcloses
    exact Nat.exists_eq_add_one.mpr (Nat.lt_of_lt_of_le (Nat.succ_pos _) hfuel)
  have hne : tail.isEmpty = false := by
    obtain ⟨-⟩ := hcloses
    rfl
  unfold serveFrames
  rw [if_neg (by simp [hne]), hparse]
  exact ⟨rfl, rfl, rfl, rfl⟩

/-- **A poll that brings frames**, and behind them what is no frame. -/
theorem pollPeer_of_error (config : Config) {O : Type} (view : P.network.State → O)
    (hreceive : h.receive p.handle buf.length = (.ok (Frame.stream fs ++ tail), h'))
    (hne : fs ≠ []) (htail : ∃ e, (Frame.parse tail).1 = .error e) :
    let r := serveAll config p (fs.map Frame.Sent.frame) h'
    (pollPeer config p buf h).1 = (if r.1 then p.touch else (p, .evict)) ∧
      r.2.AlikeBy view (pollPeer config p buf h).2.2 := by
  obtain ⟨fuel, hfuel, hout, hhost⟩ := exists_pollPeer_eq config hreceive
  have hany : (!fs.isEmpty) = true := by simpa using hne
  rw [hany] at hout hhost
  generalize serveAll config p (fs.map Frame.Sent.frame) h' = r at hout hhost ⊢
  obtain ⟨hend, hbehind⟩ := serveFrames_of_error config p r.2 htail hfuel true view
  rw [hend] at hout
  rw [hout, hhost]
  by_cases hstay : r.1 = true
  · simp only [if_pos hstay]
    exact ⟨rfl, hbehind⟩
  · simp only [if_neg hstay]
    exact ⟨rfl, .refl view _⟩

/-- **A poll that brings frames**, and behind them a closing one. -/
theorem pollPeer_of_closes (config : Config) {O : Type} (view : P.network.State → O)
    (hreceive : h.receive p.handle buf.length = (.ok (Frame.stream fs ++ tail), h'))
    (hcloses : Frame.Closes tail) :
    (pollPeer config p buf h).1 = (p, .evict) ∧
      (serveAll config p (fs.map Frame.Sent.frame) h').2.AlikeBy view
        (pollPeer config p buf h).2.2 := by
  obtain ⟨fuel, hfuel, hout, hhost⟩ := exists_pollPeer_eq config hreceive
  generalize serveAll config p (fs.map Frame.Sent.frame) h' = r at hout hhost ⊢
  obtain ⟨hend, hbehind⟩ := serveFrames_of_closes config p r.2 hcloses hfuel
    (!fs.isEmpty) view
  rw [hend, ite_self] at hout
  refine ⟨hout, ?_⟩
  rw [hhost]
  split
  · exact hbehind
  · exact .refl view _

/-! ### A round with one peer -/

variable {peers : Peers P.Conn}

theorem round_of_touch (hp : peers.list = [p])
    (hpoll : (pollPeer config p (List.replicate (room config) 0) h).1 = p.touch) :
    round config peers h = ({ peers with list := [p.touch.1] },
      (pollPeer config p (List.replicate (room config) 0) h).2.2) := by
  unfold round
  rw [if_neg (by simp [Peers.isEmpty, hp])]
  simp only [hp, pollEach, hpoll, List.map_cons, List.map_nil]
  rfl

theorem round_of_evict (hp : peers.list = [p])
    (hpoll : (pollPeer config p (List.replicate (room config) 0) h).1 = (p, .evict)) :
    round config peers h = ({ peers with list := [] },
      ((pollPeer config p (List.replicate (room config) 0) h).2.2.note
        (.closingPeer p.address)).close p.handle) := by
  unfold round
  rw [if_neg (by simp [Peers.isEmpty, hp])]
  simp only [hp, pollEach, hpoll, List.map_cons, List.map_nil]
  rfl

/-- Answers ask nothing of the network but writes to the peer. -/
theorem serveAll_network {I : P.network.State → Prop}
    (write : ∀ bs s, I s → I (P.network.write p.handle bs s).2) (fs : List Frame)
    (hinit : I h.network) : I (serveAll config p fs h).2.network := by
  induction fs generalizing h with
  | nil => exact hinit
  | cons f fs ih =>
    have hone : I (serveOne config p f h).2.network := by
      have hoffline := ((Scope.Reaches.refl (.offline P) h).answer
        (Scope.mayRun_online config p.uri) f).network_eq
      rw [← hoffline] at hinit
      unfold serveOne
      cases hreply : (answer config p f h).1 with
      | none => exact hinit
      | some reply =>
        have hsent := write reply _ hinit
        unfold send
        simp only
        split
        · next h₁ heq => exact congrArg (fun x => I x.2.network) heq ▸ hsent
        · next e h₁ heq => exact congrArg (fun x => I x.2.network) heq ▸ hsent
    unfold serveAll
    split
    · exact ih hone
    · exact hone

end Polling

namespace Server

variable {c : P.Conn} {d : P.network.Duplex c} {ps : List (Peer P.Conn)} {s t : Server P}

/-! ### A server with nobody else -/

/-- These peers are all that the server has: no connection is in a slot, and nobody waits. -/
structure Alone (d : P.network.Duplex c) (ps : List (Peer P.Conn)) (s : Server P) : Prop where
  peers : s.peers.list = ps
  free : s.slots.items = []
  quiet : d.Quiet s.host.network

/-- Servers that a peer on that connection cannot tell apart, with the same peers. -/
structure Twins (d : P.network.Duplex c) (s t : Server P) : Prop where
  host : s.host.AlikeBy d.outlet t.host
  peers : s.peers.list = t.peers.list

namespace Alone

/-- An accept finds nobody. -/
theorem accept (hs : s.Alone d ps) : s.accept.Alone d ps ∧
    s.host.AlikeBy d.outlet s.accept.host ∧ ∀ {segments}, d.Offers s.host.network segments →
      d.Offers s.accept.host.network segments := by
  obtain ha | ⟨conn, h, i, slots, heq, -, -⟩ | ⟨e, h, h', heq, ha, hcases⟩ := s.accept_cases
  · rw [ha]
    exact ⟨hs, .refl _ _, id⟩
  · -- the network would have handed out a connection
    obtain ⟨e, he⟩ := d.accept s.acceptWait hs.quiet
    have hok : (P.network.accept s.acceptWait s.host.network).1 = .ok conn := congrArg Prod.fst heq
    cases he.symm.trans hok
  · obtain ⟨-, rfl⟩ := Prod.ext_iff.mp heq
    have hquiet := d.quiet_accept s.acceptWait hs.quiet
    have houtlet := (d.outlet_accept s.acceptWait hs.quiet).symm
    rw [ha]
    obtain rfl | rfl | rfl := hcases <;>
      exact ⟨⟨hs.peers, hs.free, hquiet⟩, ⟨rfl, rfl, houtlet⟩, d.offers_accept _ hs.quiet⟩

theorem tick_eq (hs : s.Alone d ps) : s.tick = s.accept.poll := by
  rw [Server.tick, stepSlots_of_free hs.accept.1.free]

/-- Without peers nothing happens. -/
theorem ticks (hs : s.Alone d []) (n : Nat) :
    (tick^[n] s).Alone d [] ∧ s.host.AlikeBy d.outlet (tick^[n] s).host := by
  induction n generalizing s with
  | zero => exact ⟨hs, .refl _ _⟩
  | succ n ih =>
    obtain ⟨haccept, halike, -⟩ := hs.accept
    have htick : s.tick = s.accept := by rw [hs.tick_eq, poll_of_no_peers haccept.peers]
    rw [Function.iterate_succ_apply, htick]
    obtain ⟨hthen, hafter⟩ := ih haccept
    exact ⟨hthen, halike.trans hafter⟩

end Alone

/-! ### What comes of it -/

/-- **What comes of a server** with one peer once frames were served: the board, the interpreter
and what was written are those of that result, and the peer stays, unless the result says that it
had to go. -/
structure After (d : P.network.Duplex c) (p : Peer P.Conn) (r : Bool × Host P) (t : Server P) :
    Prop where
  alone : t.Alone d (if r.1 then [p] else [])
  board : t.host.board = r.2.board
  interpreter : t.host.interpreter = r.2.interpreter
  outlet : d.outlet t.host.network =
    d.outlet (if r.1 then r.2.network else P.network.close c r.2.network)

variable {p q : Peer P.Conn} {r r' : Bool × Host P}

theorem After.congr (ha : t.After d q r) (hr : Host.ConcurBy d.outlet r r') : t.After d q r' where
  alone := hr.result ▸ ha.alone
  board := ha.board.trans hr.host.board
  interpreter := ha.interpreter.trans hr.host.interpreter
  outlet := by
    rw [ha.outlet, hr.result]
    split
    · exact hr.host.outlet
    · exact d.outlet_close hr.host.outlet

/-- A peer that had to go is gone for good. -/
theorem After.ticks (ha : t.After d q r) (hleave : r.1 = false) (n : Nat) :
    (tick^[n] t).After d q r := by
  have halone := ha.alone
  rw [hleave] at halone
  obtain ⟨hthen, hafter⟩ := Alone.ticks halone n
  exact ⟨by rw [hleave]; exact hthen, hafter.board.symm.trans ha.board,
    hafter.interpreter.symm.trans ha.interpreter, hafter.outlet.symm.trans ha.outlet⟩

/-- What comes of two servers with the same result is the same. -/
theorem After.twins (hs : s.After d q r) (ht : t.After d q r) : s.Twins d t where
  host := ⟨hs.board.trans ht.board.symm, hs.interpreter.trans ht.interpreter.symm,
    hs.outlet.trans ht.outlet.symm⟩
  peers := hs.alone.peers.trans ht.alone.peers.symm

/-- Whether the peer is there tells what the result is. -/
theorem After.peers_cases (ha : t.After d q r) :
    r.1 = false ∧ t.peers.list = [] ∨ r.1 = true ∧ t.peers.list = [q] := by
  have hpeers := ha.alone.peers
  cases hstay : r.1 with
  | true => exact .inr ⟨rfl, by rwa [hstay] at hpeers⟩
  | false => exact .inl ⟨rfl, by rwa [hstay] at hpeers⟩

/-- If the peer goes in any case, only its connection need be closed in the other server, unless it
is gone there as well. -/
theorem After.outlet_of_leave {q' : Peer P.Conn} (ht : t.After d q (false, r.2))
    (hs : s.After d q' r) :
    d.outlet t.host.network = d.outlet (if s.peers.isEmpty then s.host.network
      else P.network.close c s.host.network) := by
  refine ht.outlet.trans ?_
  have houtlet := hs.outlet
  obtain ⟨hleave, hpeers⟩ | ⟨hstay, hpeers⟩ := hs.peers_cases
  · rw [hleave] at houtlet
    rw [Peers.isEmpty, hpeers]
    exact houtlet.symm
  · rw [hstay] at houtlet
    rw [Peers.isEmpty, hpeers]
    exact (d.outlet_close houtlet).symm

/-! ### One tick -/

section Tick

variable {d : P.network.Duplex p.handle} {fs : List Frame.Sent} {tail segment : Bytes}
  {segments : List Bytes}

namespace Alone

/-- A tick is what the poll makes of it. -/
theorem after_of_poll (hs : s.Alone d [p]) (hquiet : d.Quiet r.2.network)
    (hout : (Polling.pollPeer s.config p (List.replicate (Polling.room s.config) 0)
      s.accept.host).1 = if r.1 then p.touch else (p, .evict))
    (halike : r.2.AlikeBy id (Polling.pollPeer s.config p
      (List.replicate (Polling.room s.config) 0) s.accept.host).2.2) :
    s.tick.After d p.touch.1 r ∧ (r.1 = true → s.tick.host.network = r.2.network) := by
  obtain ⟨hpeers, hfree, -⟩ := hs.accept.1
  obtain ⟨hboard, hinterpreter, hnetwork⟩ := halike
  rw [id_eq, id_eq] at hnetwork
  rw [hs.tick_eq, Server.poll, s.config_accept]
  by_cases hstay : r.1 = true
  · rw [if_pos hstay] at hout
    rw [Polling.round_of_touch hpeers hout]
    refine ⟨⟨?_, hboard.symm, hinterpreter.symm, ?_⟩, fun _ => hnetwork.symm⟩
    · rw [if_pos hstay]
      exact ⟨rfl, hfree, hnetwork ▸ hquiet⟩
    · rw [if_pos hstay, hnetwork]
  · rw [if_neg hstay] at hout
    rw [Polling.round_of_evict hpeers hout]
    refine ⟨⟨?_, hboard.symm, hinterpreter.symm, ?_⟩, fun h => absurd h hstay⟩
    · rw [if_neg hstay]
      exact ⟨rfl, hfree, d.quiet_close (hnetwork ▸ hquiet)⟩
    · rw [if_neg hstay, hnetwork]
      rfl

/-- What a tick receives, and what the answers to it leave of the network. -/
theorem exists_receive (hs : s.Alone d [p]) (ho : d.Offers s.host.network (segment :: segments))
    (fs : List Frame) :
    ∃ h : Host P, s.accept.host.receive p.handle
          (List.replicate (Polling.room s.config) (0 : UInt8)).length =
        (.ok (segment.take (Polling.room s.config)), h) ∧
      Host.ConcurBy d.outlet (Polling.serveAll s.config p fs h)
        (Polling.serveAll s.config p fs s.host) ∧
      d.Quiet (Polling.serveAll s.config p fs h).2.network ∧
      d.Offers (Polling.serveAll s.config p fs h).2.network
        (rest (Polling.room s.config) (segment :: segments)) := by
  obtain ⟨haccept, halike, hoffers⟩ := hs.accept
  have ho' := hoffers ho
  rw [List.length_replicate]
  refine ⟨_, Prod.ext (d.brings _ ho') rfl, ?_, ?_, ?_⟩
  · have hreceived : s.host.AlikeBy d.outlet
        (s.accept.host.receive p.handle (Polling.room s.config)).2 :=
      halike.trans ⟨rfl, rfl, (d.outlet_receive _ ho').symm⟩
    exact hreceived.symm.serveAll d.isOutlet s.config fs
  · exact Polling.serveAll_network (I := d.Quiet) (fun bs _ hq => d.quiet_write bs hq) fs
      (d.quiet_receive _ haccept.quiet)
  · exact Polling.serveAll_network (I := (d.Offers · _)) (fun bs _ ho => d.offers_write bs ho) fs
      (d.offers_receive _ ho')

/-- **A tick that brings frames** and behind them what is no frame, or nothing. -/
theorem after_tick (hs : s.Alone d [p]) (ho : d.Offers s.host.network (segment :: segments))
    (hfront : segment.take (Polling.room s.config) = Frame.stream fs ++ tail) (hne : fs ≠ [])
    (htail : ∃ e, (Frame.parse tail).1 = .error e) :
    let r := Polling.serveAll s.config p (fs.map Frame.Sent.frame) s.host
    s.tick.After d p.touch.1 r ∧ (r.1 = true →
      d.Offers s.tick.host.network (rest (Polling.room s.config) (segment :: segments))) := by
  obtain ⟨h, hreceive, hconcur, hquiet, hoffers⟩ :=
    hs.exists_receive ho (fs.map Frame.Sent.frame)
  rw [hfront] at hreceive
  obtain ⟨hout, hpolled⟩ := Polling.pollPeer_of_error s.config id hreceive hne htail
  obtain ⟨hafter, hnetwork⟩ := hs.after_of_poll hquiet hout hpolled
  refine ⟨hafter.congr hconcur, fun hstay => ?_⟩
  rw [hnetwork (hconcur.result.trans hstay)]
  exact hoffers

/-- **A tick that brings frames** and behind them a closing one: the peer goes. -/
theorem after_tick_of_closes (hs : s.Alone d [p])
    (ho : d.Offers s.host.network (segment :: segments))
    (hfront : segment.take (Polling.room s.config) = Frame.stream fs ++ tail)
    (hcloses : Frame.Closes tail) :
    s.tick.After d p.touch.1
      (false, (Polling.serveAll s.config p (fs.map Frame.Sent.frame) s.host).2) := by
  obtain ⟨h, hreceive, hconcur, hquiet, -⟩ := hs.exists_receive ho (fs.map Frame.Sent.frame)
  rw [hfront] at hreceive
  obtain ⟨hout, hpolled⟩ := Polling.pollPeer_of_closes s.config id hreceive hcloses
  obtain ⟨hafter, -⟩ := hs.after_of_poll (r := (false, _)) hquiet hout hpolled
  exact hafter.congr ⟨rfl, hconcur.host⟩

end Alone

/-- **Frames that arrive over several ticks** are served one after the other. -/
theorem after_of_arrives {room : Nat} {fss : List (List Frame.Sent)}
    (harr : Frame.Arrives room segments fss) (hfss : [] ∉ fss)
    (hroom : room = Polling.room s.config) (hs : s.Alone d [p])
    (ho : d.Offers s.host.network segments) :
    let r := Polling.serveAll s.config p (fss.flatten.map Frame.Sent.frame) s.host
    (tick^[fss.length] s).After d (if fss = [] then p else p.touch.1) r ∧ (r.1 = true →
      d.Offers (tick^[fss.length] s).host.network ((rest room)^[fss.length] segments)) := by
  induction harr generalizing s p with
  | nil => exact ⟨⟨hs, rfl, rfl, rfl⟩, fun _ => ho⟩
  | @cons segment segments fs fss hfront hrest ih =>
    subst hroom
    obtain ⟨hne, hfss⟩ := not_or.mp (mt List.mem_cons.mpr hfss)
    obtain ⟨hafter, hoffers⟩ := hs.after_tick ho (hfront.trans (List.append_nil _).symm)
      (Ne.symm hne) ⟨.incomplete, rfl⟩
    rw [List.length_cons, Function.iterate_succ_apply, Function.iterate_succ_apply,
      List.flatten_cons, List.map_append, Polling.serveAll_append,
      if_neg (List.cons_ne_nil _ _)]
    generalize hr : Polling.serveAll s.config p (fs.map Frame.Sent.frame) s.host = r at *
    by_cases hstay : r.1 = true
    · have halone := hafter.alone
      rw [if_pos hstay] at halone ⊢
      have hlast := ih (s := s.tick) (p := p.touch.1) hfss (by rw [config_tick]) halone
        (hoffers hstay)
      have houtlet := hafter.outlet
      rw [if_pos hstay] at houtlet
      have hconcur := (Host.AlikeBy.mk hafter.board hafter.interpreter houtlet).serveAll
        d.isOutlet s.config (fss.flatten.map Frame.Sent.frame)
      have hsame : (if fss = [] then p.touch.1 else p.touch.1.touch.1) = p.touch.1 := ite_self _
      rw [hsame, config_tick, Polling.serveAll_touch] at hlast
      exact ⟨hlast.1.congr hconcur, fun hstays => hlast.2 (hconcur.result.trans hstays)⟩
    · rw [if_neg hstay]
      exact ⟨hafter.ticks (by simpa using hstay) _, fun h => absurd h hstay⟩

/-- **Frames in segments of their own** are served over as many ticks. -/
theorem after_each (hs : s.Alone d [p])
    (hroom : ∀ f ∈ fs, f.bytes.length ≤ Polling.room s.config)
    (ho : d.Offers s.host.network (fs.map Frame.Sent.bytes)) :
    (tick^[fs.length] s).After d (if fs = [] then p else p.touch.1)
      (Polling.serveAll s.config p (fs.map Frame.Sent.frame) s.host) := by
  have hafter := (after_of_arrives (Frame.arrives_each hroom) (by simp) rfl hs ho).1
  rw [List.length_map, ← List.flatMap_def, List.flatMap_singleton'] at hafter
  simpa only [List.map_eq_nil_iff] using hafter

end Tick

end Server

end Microweb

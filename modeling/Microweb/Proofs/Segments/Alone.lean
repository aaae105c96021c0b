import Microweb.Proofs.Segments.Duplex
import Microweb.Proofs.Segments.Wires

/-!
A server on wires with one peer and nobody else: what frames that arrive over several ticks make of
the board, the interpreter and the wire of the peer.
-/

namespace Microweb

/-! ### The two directions of a wire -/

namespace Bench.Wires

theorem flatten_sent (ws : Wires) (k : Nat) :
    (ws.sent k).flatten = ((ws.outlet? k).map fun o => o.1.reverse.flatten).getD [] := by
  rw [sent, outlet?, Option.map_map]
  cases ws.list[k]? <;> rfl

theorem outlet?_close (ws : Wires) (k : Nat) :
    (ws.update k Wire.close).outlet? k = (ws.outlet? k).map fun o => (o.1, true, o.2.2) := by
  rw [outlet?, outlet?, getElem?_update, Option.map_map, Option.map_map]
  refine congrArg (Option.map · ws.list[k]?) (funext fun w => ?_)
  simp only [Function.comp, if_true]
  rfl

theorem accept_of_nobody {ws : Wires} (wait : UInt64) (hnobody : ws.pending = []) :
    (∃ e, (accept wait ws).1 = .error e) ∧ (accept wait ws).2.list = ws.list ∧
      (accept wait ws).2.pending = [] := by
  unfold accept
  split
  · exact ⟨⟨_, rfl⟩, rfl, hnobody⟩
  · split
    · exact ⟨⟨_, rfl⟩, rfl, hnobody⟩
    · rw [hnobody]
      exact ⟨⟨_, rfl⟩, rfl, rfl⟩

theorem moves_write (c : Handle) (bs : Bytes) (ws : Wires) :
    network.Moves (fun _ => False) (fun _ _ => True) (fun _ => False) ws (write c bs ws).2 :=
  .write trivial

theorem moves_receive (c : Handle) (room : Nat) (ws : Wires) :
    network.Moves (fun _ => True) (fun _ _ => False) (fun _ => False) ws (receive c room ws).2 :=
  .receive room trivial

/-- What is to be received on a wire and what is written to it are kept apart. -/
def duplex (c : Handle) : network.Duplex c where
  Outlet := Option (List Bytes × Bool × Option NetError)
  outlet ws := ws.outlet? c.number
  written o := (o.map fun o => o.1.reverse.flatten).getD []
  Offers ws segments := ws.Offers c.number segments
  Quiet ws := ws.pending = []
  isOutlet := isOutlet c
  written_write bs ws := by
    simp only [← flatten_sent]
    obtain ⟨-, hsent⟩ | ⟨e, heq⟩ := write_cases c bs ws
    · refine ⟨bs, List.prefix_refl bs, ?_, fun _ => rfl⟩
      show ((write c bs ws).2.sent c.number).flatten = _
      rw [hsent, List.flatten_append, List.flatten_cons, List.flatten_nil, List.append_nil]
    · refine ⟨[], List.nil_prefix, ?_, fun hok => ?_⟩
      · show ((write c bs ws).2.sent c.number).flatten = _
        rw [heq, List.append_nil]
      · cases (congrArg Prod.fst heq).symm.trans hok
  offers_write bs ho :=
    (ho.moves (moves_write c bs _) fun _ h => h.elim).resolve_right fun ⟨⟨_, h, _⟩, _⟩ => h
  quiet_write bs hq := (pending_of_moves (moves_write c bs _)).trans hq
  brings room ho := (ho.receive room).1
  offers_receive room ho := (ho.receive room).2.1
  outlet_receive room ho := (ho.receive room).2.2
  quiet_receive room hq := (pending_of_moves (moves_receive c room _)).trans hq
  accept wait hq := (accept_of_nobody wait hq).1
  offers_accept wait hq ho := by
    rwa [Wires.Offers, (accept_of_nobody wait hq).2.1]
  outlet_accept wait hq := by rw [outlet?, outlet?, (accept_of_nobody wait hq).2.1]
  quiet_accept wait hq := (accept_of_nobody wait hq).2.2
  outlet_close h := by
    show (Wires.update _ _ Wire.close).outlet? _ = (Wires.update _ _ Wire.close).outlet? _
    rw [outlet?_close, outlet?_close, h]
  written_close ws := by
    show (((ws.update c.number Wire.close).outlet? c.number).map _).getD [] = _
    rw [outlet?_close, Option.map_map]
    rfl
  quiet_close hq := hq

end Bench.Wires

variable {V : Volume} {I : Interpreter} {B : Peripherals}

namespace Server

variable {s t : Server (.wired V I B)} {p : Peer Bench.Handle} {segments : List Bytes}

/-! ### A server with nobody else -/

/-- These peers are all that the server has: no connection is in a slot, and nobody waits. -/
structure Only (ps : List (Peer Bench.Handle)) (s : Server (.wired V I B)) : Prop where
  peers : s.peers.list = ps
  free : s.slots.items = []
  nobody : s.host.network.pending = []

theorem only_iff_alone {ps : List (Peer Bench.Handle)} (c : Bench.Handle) :
    s.Only ps ↔ s.Alone (Bench.Wires.duplex c) ps :=
  ⟨fun h => ⟨h.peers, h.free, h.nobody⟩, fun h => ⟨h.peers, h.free, h.quiet⟩⟩

/-! ### Frames over several ticks -/

/-- **What comes of a server** with one peer once frames were served: the board, the interpreter
and what the peer was sent are those of that result, and the peer stays, unless the result says that
it had to go. -/
structure Ends (p : Peer Bench.Handle) (r : Bool × Host (.wired V I B))
    (t : Server (.wired V I B)) : Prop where
  board : t.host.board = r.2.board
  interpreter : t.host.interpreter = r.2.interpreter
  sent : t.host.network.sent p.handle.number = r.2.network.sent p.handle.number
  only : t.Only (if r.1 then [p] else [])
  isClosed : t.host.network.isClosed p.handle.number = !r.1

theorem Ends.congr {r r' : Bool × Host (.wired V I B)} (he : t.Ends p r)
    (hr : Host.Concur p.handle.number r r') : t.Ends p r' where
  board := he.board.trans hr.host.board
  interpreter := he.interpreter.trans hr.host.interpreter
  sent := he.sent.trans (Bench.Wires.sent_eq_of_outlet? hr.host.outlet)
  only := hr.result ▸ he.only
  isClosed := hr.result ▸ he.isClosed

/-- A peer that stays has an open wire, and the wire of one that had to go is closed. -/
theorem After.ends {c : Bench.Handle} {r : Bool × Host (.wired V I B)}
    (ha : t.After (Bench.Wires.duplex c) p r) (hp : p.handle = c)
    (hlt : c.number < r.2.network.list.length)
    (hopen : r.1 = true → t.host.network.isClosed c.number = false) : t.Ends p r := by
  subst hp
  have houtlet : t.host.network.outlet? p.handle.number =
      (if r.1 then r.2.network else r.2.network.update p.handle.number Bench.Wire.close).outlet?
        p.handle.number := ha.outlet
  refine ⟨ha.board, ha.interpreter, ?_, (only_iff_alone _).mpr ha.alone, ?_⟩
  · rw [Bench.Wires.sent_eq_of_outlet? houtlet]
    split
    · rfl
    · refine (Bench.Wires.sent_update _ _ _).trans ?_
      rw [Bench.Wires.sent]
      cases r.2.network.list[p.handle.number]? with
      | none => rfl
      | some w => simp [Bench.Wire.close]
  · by_cases hstay : r.1 = true
    · rw [hopen hstay, hstay]
      rfl
    · rw [Bench.Wires.isClosed_eq_of_outlet? houtlet, if_neg hstay]
      refine (Bench.Wires.isClosed_close r.2.network _ _).trans ?_
      simpa [hstay] using Or.inr hlt

/-- **Frames that arrive over several ticks** are served one after the other. -/
theorem ends_of_arrives {room : Nat} {fss : List (List Frame.Sent)}
    (harr : Frame.Arrives room segments fss) (hfss : [] ∉ fss)
    (hroom : room = Polling.room s.config) (hs : s.Only [p])
    (ho : s.host.network.Offers p.handle.number segments) :
    (tick^[fss.length] s).Ends (if fss = [] then p else p.touch.1)
      (Polling.serveAll s.config p (fss.flatten.map Frame.Sent.frame) s.host) := by
  obtain ⟨hafter, hoffers⟩ := after_of_arrives (d := Bench.Wires.duplex p.handle) harr hfss hroom
    ((only_iff_alone _).mp hs) ho
  refine hafter.ends (by split <;> rfl) ?_ fun hstay => (hoffers hstay).isOpen
  exact Polling.serveAll_network (P := .wired V I B)
    (I := fun ws : Bench.Wires => p.handle.number < ws.list.length)
    (fun bs ws hlt => by
      show _ < (Bench.Wires.write p.handle bs ws).2.list.length
      rwa [Bench.Wires.write_snd, Bench.Wires.length_update]) _ ho.lt

end Server

/-! ### Writes that do not fail -/

namespace Polling

variable {config : Config} {p : Peer Bench.Handle} {h : Host (.wired V I B)}

theorem send_of_writable (hw : h.network.Writable p.handle.number) (reply : Option Bytes) :
    (send (P := .wired V I B) p reply h).1 = true ∧
      (send (P := .wired V I B) p reply h).2.network.Writable p.handle.number := by
  cases reply with
  | none => exact ⟨rfl, hw⟩
  | some bs =>
    have hwrite : h.write p.handle bs = (.ok (), (h.write p.handle bs).2) :=
      Prod.ext (hw.write bs) rfl
    unfold send
    simp only
    rw [hwrite]
    exact ⟨rfl, hw.after_write bs⟩

/-- **Every frame is served** on a wire that writes do not fail on. -/
theorem serveAll_of_writable (hw : h.network.Writable p.handle.number) (fs : List Frame) :
    (serveAll (P := .wired V I B) config p fs h).1 = true := by
  induction fs generalizing h with
  | nil => rfl
  | cons f fs ih =>
    have hoffline := (Scope.Reaches.refl (.offline (.wired V I B)) h).answer
      (Scope.mayRun_online config p.uri) f
    obtain ⟨hstay, hafter⟩ := send_of_writable (h := (answer config p f h).2)
      (by rwa [hoffline.network_eq]) (answer config p f h).1
    have hone : (serveOne (P := .wired V I B) config p f h).1 = true := hstay
    unfold serveAll
    rw [if_pos hone]
    exact ih hafter

end Polling

end Microweb

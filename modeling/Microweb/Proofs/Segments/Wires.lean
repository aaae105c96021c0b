import Microweb.Proofs.Alike
import Microweb.Proofs.Wiring.Server

/-!
What is to be received on a wire. Nothing takes from the segments of a wire but its own receives, so
that they are received one after the other, each as far as there is room for it; and a poll that
brings frames leaves everything as after one answer after the other.
-/

namespace Microweb

open Bench.Wire (rest)

namespace Bench.Wires

variable {ws ws' : Wires} {c : Handle} {k : Nat} {segments : List Bytes}

theorem wire_length_receive {w : Wire} {room : Nat} {bs : Bytes}
    (h : (w.receive room).1 = .ok bs) : bs.length ≤ room := by
  unfold Wire.receive at h
  split at h
  · cases h
  · split at h
    · cases h
    · split at h
      · cases h
      · cases h
        exact List.length_take_le _ _

theorem length_receive {room : Nat} {bs : Bytes} (h : (receive c room ws).1 = .ok bs) :
    bs.length ≤ room := by
  unfold receive at h
  split at h
  · cases h
  · exact wire_length_receive h

/-- The wire is open, and these segments are next to be received. -/
def Offers (ws : Wires) (k : Nat) (segments : List Bytes) : Prop :=
  ∃ w, ws.list[k]? = some w ∧ w.closed = false ∧ w.receiveError = none ∧ w.inbound = segments

theorem offers_iff : ws.Offers k segments ↔
    (ws.list[k]?).map (fun w => (w.closed, w.receiveError, w.inbound)) =
      some (false, none, segments) := by
  simp only [Offers, Option.map_eq_some_iff, Prod.mk.injEq]

instance (ws : Wires) (k : Nat) (segments : List Bytes) : Decidable (ws.Offers k segments) :=
  decidable_of_iff _ offers_iff.symm

theorem Offers.lt (ho : ws.Offers k segments) : k < ws.list.length := by
  obtain ⟨w, hw, -⟩ := ho
  exact (List.getElem?_eq_some_iff.mp hw).1

theorem Offers.isOpen (ho : ws.Offers k segments) : ws.isClosed k = false := by
  obtain ⟨w, hw, hopen, -, -⟩ := ho
  rw [isClosed, hw, Option.any_some, hopen]

/-- **A receive** brings what is next. -/
theorem Offers.receive (ho : ws.Offers c.number segments) (room : Nat) :
    Wire.Brings room segments (receive c room ws).1 ∧
      (receive c room ws).2.Offers c.number (rest room segments) ∧
      (receive c room ws).2.outlet? c.number = ws.outlet? c.number := by
  obtain ⟨w, hw, hopen, hfine, hin⟩ := ho
  have hr : Wire.Brings room segments (w.receive room).1 ∧
      (w.receive room).2 = { w with inbound := rest room segments } := by
    obtain ⟨address, inbound, written, hungUp, closed, receiveError, writeError, timeouts⟩ := w
    obtain rfl : closed = false := hopen
    obtain rfl : receiveError = none := hfine
    obtain rfl : inbound = segments := hin
    cases inbound with
    | nil => exact ⟨⟨_, rfl⟩, rfl⟩
    | cons segment segments => exact ⟨rfl, rfl⟩
  obtain ⟨hbrings, hwire⟩ := hr
  have hget := getElem?_update ws c.number c.number fun w => (w.receive room).2
  rw [← receive_snd c room ws, hw, Option.map_some, if_pos rfl, hwire] at hget
  refine ⟨?_, ⟨_, hget, hopen, hfine, rfl⟩, ?_⟩
  · rw [Wires.receive, hw]
    exact hbrings
  · rw [outlet?, outlet?, hget, hw]
    rfl

/-- What is to be received stays as long as the wire is not heard, unless it is closed. -/
theorem Offers.moves {hears closes : Handle → Prop} {writes : Handle → Bytes → Prop}
    (ho : ws.Offers k segments) (hm : network.Moves hears writes closes ws ws')
    (hh : ∀ c, hears c → c.number ≠ k) :
    ws'.Offers k segments ∨ (∃ c, closes c ∧ c.number = k) ∧ ws'.isClosed k = true := by
  obtain ⟨c, f, hf, rfl⟩ := exists_update_of_moves hm
  obtain ⟨w, hw, hrest⟩ := ho
  have hget := getElem?_update ws c.number k f
  rw [hw, Option.map_some] at hget
  by_cases hk : c.number = k
  · rw [if_pos hk] at hget
    cases hf with
    | hear hc => exact absurd hk (hh c hc)
    | @write bs hc =>
      left
      refine ⟨_, hget, ?_⟩
      obtain heq | ⟨e, heq⟩ := wire_write_cases w bs
      · simp only [heq]
        exact hrest
      · simp only [heq]
        exact hrest
    | close hc =>
      right
      refine ⟨⟨c, hc, hk⟩, ?_⟩
      rw [isClosed, hget]
      rfl
  · rw [if_neg hk] at hget
    exact .inl ⟨w, hget, hrest⟩

end Bench.Wires

variable {V : Volume} {I : Interpreter} {B : Peripherals}

/-! ### Others -/

/-- All that may be asked while one wire is not heard, and nobody is closed unless that may be. -/
def Scope.besides (V : Volume) (I : Interpreter) (B : Peripherals) (k : Nat) (mayClose : Prop) :
    Scope (.wired V I B) :=
  .online (fun c => c.number ≠ k) (fun _ _ => True) fun _ => mayClose

theorem Scope.answers_besides {V : Volume} {I : Interpreter} {B : Peripherals} {k : Nat}
    {mayClose : Prop} (config : Config) {q : Peer Bench.Handle} (hq : q.handle.number ≠ k) :
    (besides V I B k mayClose).Answers config q :=
  ⟨hq, fun _ _ => trivial, mayRun_online config q.uri⟩

/-- **Others** leave alone what is to be received on a wire, unless they close it. -/
theorem Scope.Reaches.offers {g h : Host (.wired V I B)} {k : Nat} {mayClose : Prop}
    {segments : List Bytes} (hr : (besides V I B k mayClose).Reaches g h)
    (ho : g.network.Offers k segments) :
    h.network.Offers k segments ∨ mayClose ∧ h.network.isClosed k = true := by
  refine hr.network_induction
    (I := fun ws : Bench.Wires => ws.Offers k segments ∨ mayClose ∧ ws.isClosed k = true)
    (fun ws ws' hm ih => ?_) (.inl ho)
  obtain ho | ⟨hmay, hclosed⟩ := ih
  · obtain ho | ⟨⟨_, hmay, -⟩, hclosed⟩ := ho.moves hm fun _ hc => hc
    · exact .inl ho
    · exact .inr ⟨hmay, hclosed⟩
  · have hended : ws.Ended k (ws.sent k) := ⟨hclosed, rfl⟩
    exact .inr ⟨hmay, (hended.moves hm).1⟩

theorem Scope.Reaches.offers_of_open {g h : Host (.wired V I B)} {k : Nat} {segments : List Bytes}
    (hr : (besides V I B k False).Reaches g h) (ho : g.network.Offers k segments) :
    h.network.Offers k segments :=
  (hr.offers ho).resolve_right fun hclosed => hclosed.1

/-! ### One poll -/

namespace Polling

variable {p : Peer Bench.Handle} {h : Host (.wired V I B)} {segments : List Bytes}

/-- **A poll** leaves what is not received yet. -/
theorem offers_pollPeer (config : Config) (buf : Bytes)
    (ho : h.network.Offers p.handle.number segments) :
    (pollPeer (P := .wired V I B) config p buf h).2.2.network.Offers p.handle.number
      (rest buf.length segments) := by
  have hoffers : (h.receive p.handle buf.length).2.network.Offers p.handle.number
      (rest buf.length segments) := (ho.receive buf.length).2.1
  have hr := Scope.Reaches.refl (.besides V I B p.handle.number False)
    (h.receive p.handle buf.length).2
  unfold pollPeer
  split
  · next e h₁ heq =>
    rw [heq] at hoffers hr
    split
    · exact (hr.note _).offers_of_open hoffers
    · exact hoffers
  · next bs h₁ heq =>
    rw [heq] at hoffers hr
    exact (hr.serveFrames (fun _ _ => trivial) (Scope.mayRun_online config p.uri) _ _
      _).offers_of_open hoffers

/-- **A poll on a wire that frames arrive on**: all is as after one answer after the other. -/
theorem pollPeer_of_arrives (config : Config) (buf : Bytes) {fss : List (List Frame.Sent)}
    (ho : h.network.Offers p.handle.number segments)
    (harr : Frame.Arrives buf.length segments fss) :
    let r := serveAll config p ((fss.headD []).map Frame.Sent.frame) h
    let polled := pollPeer (P := .wired V I B) config p buf h
    r.2.Alike p.handle.number polled.2.2 ∧
      (fss.headD [] ≠ [] → polled.1 = if r.1 then p.touch else (p, .evict)) := by
  intro r polled
  obtain ⟨hbrings, -, hsame⟩ := ho.receive buf.length
  have halike : h.Alike p.handle.number (h.receive p.handle buf.length).2 :=
    ⟨rfl, rfl, hsame.symm⟩
  cases harr with
  | nil =>
    -- nothing is received, and nothing is served
    obtain ⟨e, he⟩ := hbrings
    have hreceive : h.receive p.handle buf.length =
        (.error e, (h.receive p.handle buf.length).2) := Prod.ext he rfl
    refine ⟨?_, fun hne => absurd rfl hne⟩
    show h.Alike p.handle.number (pollPeer (P := .wired V I B) config p buf h).2.2
    unfold pollPeer
    rw [hreceive]
    simp only
    split
    · exact ⟨halike.board, halike.interpreter, halike.outlet⟩
    · exact halike
  | @cons segment segments fs fss hfront hrest =>
    have hreceive : h.receive p.handle buf.length =
        (.ok (Frame.stream fs), (h.receive p.handle buf.length).2) :=
      Prod.ext (hbrings.trans (congrArg Except.ok hfront)) rfl
    have hconcur := halike.serveAll config (fs.map Frame.Sent.frame)
    obtain ⟨hhost, hout⟩ := pollPeer_stream config hreceive
    have hresult : r.1 = (serveAll (P := .wired V I B) config p (fs.map Frame.Sent.frame)
        (h.receive p.handle buf.length).2).1 := hconcur.result
    refine ⟨hhost.symm ▸ hconcur.host, fun hne => ?_⟩
    rw [hresult]
    exact hout hne

/-! ### A round of polls -/

/-- Peers that have to go are closed, and nothing else happens to what is to be received. -/
theorem offers_closeEvicted {k : Nat} (ps : List (Peer Bench.Handle))
    (ho : h.network.Offers k segments) :
    (closeEvicted (P := .wired V I B) ps h).network.Offers k segments ∨
      (closeEvicted (P := .wired V I B) ps h).network.isClosed k = true := by
  have hr : (Scope.besides V I B k True).Reaches h (closeEvicted ps h) :=
    Scope.Reaches.closeEach (fun q _ hr => (hr.note (.closingPeer q.address)).close trivial)
      (.refl _ h)
  exact (hr.offers ho).imp_right And.right

/-- **In that turn** of the peer, for all that its age may be, those frames were served, one after
the other, and nothing else; and the peer has to go if a write failed for good. -/
structure Turn.Serves (config : Config) (p : Peer Bench.Handle) (fs : List Frame.Sent)
    (x : Turn (.wired V I B)) : Prop where
  peer : ∃ age, x.peer = { p with age }
  host : (serveAll config p (fs.map Frame.Sent.frame) x.before).2.Alike p.handle.number x.after
  outcome : fs ≠ [] → x.outcome =
    if (serveAll config p (fs.map Frame.Sent.frame) x.before).1 then p.touch else (x.peer, .evict)

section Round

variable {before after : List (Peer Bench.Handle)}

/-- **The polls of a round** leave what is not received yet. -/
theorem offers_pollEach (config : Config) (age : UInt32)
    (hbefore : ∀ q ∈ before, q.handle.number ≠ p.handle.number)
    (hafter : ∀ q ∈ after, q.handle.number ≠ p.handle.number) (buf : Bytes)
    (ho : h.network.Offers p.handle.number segments) :
    (pollEach (P := .wired V I B) config (before ++ { p with age } :: after) buf
      h).2.network.Offers p.handle.number (rest buf.length segments) := by
  induction before generalizing buf h with
  | nil =>
    have hoffers := offers_pollPeer (p := { p with age }) config buf ho
    refine Scope.Reaches.offers_of_open ?_ hoffers
    exact (Scope.Reaches.refl _ _).pollEach
      (fun q hq => Scope.answers_besides config (hafter q hq)) _
  | cons q before ih =>
    have hq := hbefore q List.mem_cons_self
    have hoffers := ((Scope.Reaches.refl (.besides V I B p.handle.number False) h).pollPeer
      (Scope.answers_besides config hq) buf).offers_of_open ho
    have hlen := length_pollPeer (P := .wired V I B) config q buf (h := h)
      fun _ => Bench.Wires.length_receive
    have hlast := ih (fun r hr => hbefore r (List.mem_cons_of_mem _ hr))
      (pollPeer (P := .wired V I B) config q buf h).2.1 hoffers
    rwa [hlen] at hlast

/-- **Among the turns of a round** that of a peer serves the frames that arrive next. -/
theorem exists_turns_eq (config : Config) (age : UInt32)
    (hbefore : ∀ q ∈ before, q.handle.number ≠ p.handle.number)
    (hafter : ∀ q ∈ after, q.handle.number ≠ p.handle.number) (buf : Bytes)
    {fss : List (List Frame.Sent)} (harr : Frame.Arrives buf.length segments fss)
    (ho : h.network.Offers p.handle.number segments) :
    ∃ xs x ys, turns (P := .wired V I B) config (before ++ { p with age } :: after) buf h =
      xs ++ x :: ys ∧ (∀ y ∈ xs ++ ys, y.peer.handle.number ≠ p.handle.number) ∧
      x.Serves config p (fss.headD []) := by
  induction before generalizing buf h with
  | nil =>
    obtain ⟨hhost, hout⟩ := pollPeer_of_arrives (p := { p with age }) config buf ho harr
    rw [serveAll_age] at hhost hout
    refine ⟨[], _, _, rfl, fun y hy => ?_, ⟨age, rfl⟩, hhost, hout⟩
    have hpeer := List.mem_map_of_mem (f := Turn.peer) hy
    rw [List.nil_append, map_peer_turns] at hpeer
    exact hafter _ hpeer
  | cons q before ih =>
    have hq := hbefore q List.mem_cons_self
    have hoffers := ((Scope.Reaches.refl (.besides V I B p.handle.number False) h).pollPeer
      (Scope.answers_besides config hq) buf).offers_of_open ho
    have hlen := length_pollPeer (P := .wired V I B) config q buf (h := h)
      fun _ => Bench.Wires.length_receive
    obtain ⟨xs, x, ys, hturns, hothers, hserves⟩ :=
      ih (fun r hr => hbefore r (List.mem_cons_of_mem _ hr))
        (pollPeer (P := .wired V I B) config q buf h).2.1 (hlen.symm ▸ harr) hoffers
    refine ⟨_ :: xs, x, ys, congrArg (_ :: ·) hturns, fun y hy => ?_, hserves⟩
    obtain rfl | hy := List.mem_cons.mp hy
    · exact hq
    · exact hothers y hy

end Round

end Polling

end Microweb

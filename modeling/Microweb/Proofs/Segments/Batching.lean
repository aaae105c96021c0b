import Microweb.Proofs.Segments.Server

/-!
Frames in one segment and frames in segments of their own. Both are served as `Polling.serveAll`
tells, so that a client can have any number of frames served in one tick and nothing but the time it
takes is different; what is behind them, or in the buffer from before, has no part in it.
-/

namespace Microweb

variable {P : Platform}

/-! ### Writes that fail -/

namespace Polling

variable {config : Config} {p : Peer P.Conn} {h : Host P}

/-- The frames before it are answered, and then the write of the answer to a frame fails for
good. -/
inductive Breaks (config : Config) (p : Peer P.Conn) (h : Host P) (fs : List Frame) (e : NetError) :
    Prop
  | intro {before after : List Frame} {f : Frame} {reply : Bytes} (heq : fs = before ++ f :: after)
    (hbefore : (serveAll config p before h).1 = true)
    (hanswer : (answer config p f (serveAll config p before h).2).1 = some reply)
    (hwrite : ((answer config p f (serveAll config p before h).2).2.write p.handle reply).1 =
      .error e)
    (hfatal : e.isFatal = true) : Breaks config p h fs e

theorem send_eq_false_iff {reply : Option Bytes} : (send p reply h).1 = false ↔
    ∃ bs e, reply = some bs ∧ (h.write p.handle bs).1 = .error e ∧ e.isFatal = true := by
  cases reply with
  | none => simp [send]
  | some bs =>
    unfold send
    simp only
    split
    · next h₁ heq => simp [heq]
    · next e h₁ heq => simp [heq]

/-- **A peer has to go** just if a write to it fails for good. -/
theorem serveAll_eq_false_iff (config : Config) (p : Peer P.Conn) (h : Host P) (fs : List Frame) :
    (serveAll config p fs h).1 = false ↔ ∃ e, Breaks config p h fs e := by
  constructor
  · intro hleave
    induction fs using List.reverseRecOn with
    | nil => cases hleave
    | append_singleton fs f ih =>
      rw [serveAll_append] at hleave
      by_cases hstay : (serveAll config p fs h).1 = true
      · rw [if_pos hstay, serveAll] at hleave
        have hone : (serveOne config p f (serveAll config p fs h).2).1 = false := by
          by_contra hone
          rw [if_pos (by simpa using hone)] at hleave
          cases hleave
        obtain ⟨reply, e, hanswer, hwrite, hfatal⟩ := send_eq_false_iff.mp hone
        exact ⟨e, rfl, hstay, hanswer, hwrite, hfatal⟩
      · obtain ⟨e, heq, hbefore, hanswer, hwrite, hfatal⟩ := ih (by simpa using hstay)
        exact ⟨e, by rw [heq, List.append_assoc]; rfl, hbefore, hanswer, hwrite, hfatal⟩
  · rintro ⟨e, rfl, hbefore, hanswer, hwrite, hfatal⟩
    rename_i before after f reply
    have hone : (serveOne config p f (serveAll config p before h).2).1 = false :=
      send_eq_false_iff.mpr ⟨reply, e, hanswer, hwrite, hfatal⟩
    rw [serveAll_append, if_pos hbefore, serveAll, if_neg (by simp [hone])]
    exact hone

end Polling

/-! ### One segment -/

namespace Server

/-- **Frames are served in one segment as in several.** A peer is alone with its server, on any
network that keeps the two directions of its connection apart, with any interpreter and any board.
It has sent frames of any of the three kinds, each in a segment of its own, and they are served over
as many ticks; or it has sent them in one segment, with what is no frame behind them or with
nothing, and there is room for all of it, and they are served in one tick. Then all that was written
to the peer is the same, and so are the board and the interpreter. The peer has to go in both if the
write of an answer fails for good, and otherwise it stays in both and is of age zero. If there is a
closing frame behind them, with anything behind that, just those frames are served, and the peer
goes. What polls before left in the buffer is of no account. -/
theorem batch_served {p : Peer P.Conn} {d : P.network.Duplex p.handle} {s t : Server P}
    {fs : List Frame.Sent} {tail : Bytes} (hconfig : s.config = t.config) (hs : s.Alone d [p])
    (ht : t.Alone d [p]) (hsame : s.host.AlikeBy d.outlet t.host)
    (hapart : d.Offers s.host.network (fs.map Frame.Sent.bytes))
    (htogether : d.Offers t.host.network [Frame.stream fs ++ tail])
    (hroom : (Frame.stream fs ++ tail).length ≤ Polling.room s.config) :
    let apart := tick^[fs.length] s
    let together := t.tick
    let breaks := ∃ e, Polling.Breaks s.config p s.host (fs.map Frame.Sent.frame) e
    (fs ≠ [] → (tail = [] ∨ ∃ e, (Frame.parse tail).1 = .error e) →
        apart.Twins d together ∧
          (breaks ∧ together.peers.list = [] ∨
            ¬ breaks ∧ together.peers.list = [{ p with age := 0 }])) ∧
      (Frame.Closes tail →
        together.peers.list = [] ∧ together.host.board = apart.host.board ∧
          together.host.interpreter = apart.host.interpreter ∧
          d.outlet together.host.network = d.outlet (if apart.peers.isEmpty
            then apart.host.network else P.network.close p.handle apart.host.network)) ∧
      ∀ (h : Host P) (buf buf' : Bytes), buf.length = buf'.length →
        (Polling.pollPeer s.config p buf h).1 = (Polling.pollPeer s.config p buf' h).1 ∧
          (Polling.pollPeer s.config p buf h).2.2 = (Polling.pollPeer s.config p buf' h).2.2 := by
  intro apart together breaks
  have hfront : (Frame.stream fs ++ tail).take (Polling.room t.config) = Frame.stream fs ++ tail :=
    List.take_of_length_le (hconfig ▸ hroom)
  have heach : ∀ f ∈ fs, f.bytes.length ≤ Polling.room s.config := by
    intro f hf
    have hle := Frame.length_bytes_le_length_stream hf
    rw [List.length_append] at hroom
    omega
  -- what comes of the segments is told by one result, on either host
  have hconcur := hsame.serveAll d.isOutlet s.config (fs.map Frame.Sent.frame)
  have hafter := after_each hs heach hapart
  have hbreaks := Polling.serveAll_eq_false_iff s.config p s.host (fs.map Frame.Sent.frame)
  generalize Polling.serveAll s.config p (fs.map Frame.Sent.frame) s.host = r at *
  refine ⟨fun hne htail => ?_, fun hcloses => ?_,
    fun h buf buf' => Polling.pollPeer_buffer s.config p h⟩
  · have htail : ∃ e, (Frame.parse tail).1 = .error e := by
      obtain rfl | htail := htail
      · exact ⟨.incomplete, rfl⟩
      · exact htail
    have htogether := (ht.after_tick htogether hfront hne htail).1
    rw [← hconfig] at htogether
    have htogether := htogether.congr ⟨hconcur.result.symm, hconcur.host.symm⟩
    rw [if_neg hne] at hafter
    refine ⟨hafter.twins htogether, ?_⟩
    obtain ⟨hleave, hpeers⟩ | ⟨hstay, hpeers⟩ := htogether.peers_cases
    · exact .inl ⟨hbreaks.mp hleave, hpeers⟩
    · refine .inr ⟨fun hb => ?_, hpeers⟩
      cases hstay.symm.trans (hbreaks.mpr hb)
  · have htogether := ht.after_tick_of_closes htogether hfront hcloses
    rw [← hconfig] at htogether
    have htogether := htogether.congr (Host.ConcurBy.mk (y := (false, r.2)) rfl hconcur.host.symm)
    exact ⟨htogether.alone.peers, htogether.board.trans hafter.board.symm,
      htogether.interpreter.trans hafter.interpreter.symm, htogether.outlet_of_leave hafter⟩

end Server

/-! ### Two frames and a front of a third -/

namespace Segments

open Bench

/-- A ping and a command for the board. -/
def pair : List Frame.Sent := [
  ⟨.ping, [0x70, 0x70], ⟨1, 2, 3, 4⟩, by decide⟩,
  ⟨.text, Utf8.encode "dac[0]=2", ⟨0x37, 0xFA, 0x21, 0x3D⟩, by decide⟩]

theorem batch_served_pair :
    let apart := Server.tick^[2] (upgraded.withSent peer.handle.number (pair.map Frame.Sent.bytes))
    let together := (upgraded.withSent peer.handle.number [Frame.stream pair ++ [0x81, 0x85]]).tick
    apart.Twins (Wires.duplex peer.handle) together ∧
      together.peers.list = [{ peer with age := 0 }] := by
  obtain ⟨honly, hquiet, hfine, hroom⟩ := alone_upgraded
  have hlen : (Frame.stream pair ++ [0x81, 0x85]).length ≤ 30 := by decide +kernel
  -- From here on the server need not be computed.
  generalize upgraded = s at honly hquiet hfine hroom ⊢
  have alone : ∀ segments, (s.withSent peer.handle.number segments).Alone
      (Wires.duplex peer.handle) [peer] := fun segments =>
    (Server.only_iff_alone peer.handle).mp (honly.withSent peer.handle.number segments)
  have alike : ∀ segments, s.host.AlikeBy (Wires.duplex peer.handle).outlet
      (s.withSent peer.handle.number segments).host := fun segments =>
    Host.alike_iff.mp (s.alike_withSent peer.handle.number segments)
  have offers : ∀ segments, (s.withSent peer.handle.number segments).host.network.Offers
      peer.handle.number segments := Server.offers_withSent hquiet
  obtain ⟨htwins, hpeers⟩ := (Server.batch_served (d := Wires.duplex peer.handle)
    (s := s.withSent peer.handle.number (pair.map Frame.Sent.bytes))
    (t := s.withSent peer.handle.number [Frame.stream pair ++ [0x81, 0x85]]) rfl (alone _)
    (alone _) ((alike _).symm.trans (alike _)) (offers _) (offers _)
    (hlen.trans (Nat.le_of_eq hroom.symm))).1 (List.cons_ne_nil _ _) (.inr ⟨.incomplete, rfl⟩)
  refine ⟨htwins, ?_⟩
  obtain ⟨hbreaks, -⟩ | ⟨-, hpeers⟩ := hpeers
  · -- writes do not fail
    have hofs := offers (pair.map Frame.Sent.bytes)
    have hwritable : (s.withSent peer.handle.number
        (pair.map Frame.Sent.bytes)).host.network.Writable peer.handle.number :=
      ⟨hofs.lt, hofs.isOpen, (Wires.failure?_update (fun w => by rw [Wire.foldl_send]) _ _).trans
        hfine⟩
    rw [← Polling.serveAll_eq_false_iff, Polling.serveAll_of_writable hwritable] at hbreaks
    cases hbreaks
  · exact hpeers

end Segments

end Microweb

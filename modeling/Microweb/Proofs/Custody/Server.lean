import Microweb.Proofs.Custody.Client
import Microweb.Proofs.Run
import Microweb.Proofs.Slots

/-!
Custody of the whole server: whatever is out is held by a slot or by a peer, after each part of a
tick, after each tick, and along every run; a shutdown gives all of it back.
-/

namespace Microweb

variable {P : Platform} {K : Custody P} {x : Holdings P} {h h' : Host P}

namespace Custody.Covers

/-! ### A round of polls -/

theorem respond (hc : K.Covers x h) (config : Config) (uri : String) (payload : Bytes) :
    K.Covers x (Polling.respond config uri payload h).2 := by
  unfold Polling.respond
  split
  · split
    · next reply h₁ heq => exact hc.command heq
    · next e h₁ heq => exact (hc.command heq).note nofun
  · split
    · exact hc
    · next path _ => exact hc.runForFrame path _

theorem answerMessage (hc : K.Covers x h) (config : Config) (p : Peer P.Conn) (payload : Bytes) :
    K.Covers x (Polling.answerMessage config p payload h).2 := by
  have hn := hc.note (n := .frame p.address payload.length p.uri) nofun
  have hr := hn.respond config p.uri payload
  unfold Polling.answerMessage
  split
  · next h₁ heq => rwa [heq] at hr
  · next text h₁ heq =>
    rw [heq] at hr
    simp only
    split
    · exact hr
    · exact hr.note nofun

theorem answer (hc : K.Covers x h) (config : Config) (p : Peer P.Conn) (f : Frame) :
    K.Covers x (Polling.answer config p f h).2 := by
  cases f with
  | ping payload => exact hc
  | text payload => exact hc.answerMessage config p payload
  | binary payload => exact hc.answerMessage config p payload
  | close => exact hc

theorem send (hc : K.Covers x h) (p : Peer P.Conn) (reply : Option Bytes) :
    K.Covers x (Polling.send p reply h).2 := by
  unfold Polling.send
  split
  · exact hc
  · split
    · next h₁ heq => exact hc.write heq
    · next e h₁ heq => exact (hc.write heq).note nofun

theorem serveFrames (hc : K.Covers x h) (config : Config) (p : Peer P.Conn) (fuel : Nat)
    (any : Bool) (rest : Bytes) :
    K.Covers x (Polling.serveFrames config p fuel any rest h).2.2 := by
  induction fuel generalizing any rest h with
  | zero => exact hc
  | succ fuel ih =>
    unfold Polling.serveFrames
    split
    · exact hc
    · split
      · exact hc.note nofun
      · exact hc.note nofun
      · next f used rest' _ _ =>
        have hs := (hc.answer config p f).send p (Polling.answer config p f h).1
        simp only
        split
        · next h₁ heq => rwa [heq] at hs
        · next h₁ heq =>
          rw [heq] at hs
          exact ih hs true (rest'.drop used)

theorem pollPeer (hc : K.Covers x h) (config : Config) (p : Peer P.Conn) (buf : Bytes) :
    K.Covers x (Polling.pollPeer config p buf h).2.2 := by
  unfold Polling.pollPeer
  split
  · next e h₁ heq =>
    split
    · exact (hc.receive heq).note nofun
    · exact hc.receive heq
  · next bs h₁ heq => exact (hc.receive heq).serveFrames config p bs.length false _

theorem pollEach (hc : K.Covers x h) (config : Config) (ps : List (Peer P.Conn)) (buf : Bytes) :
    K.Covers x (Polling.pollEach config ps buf h).2 := by
  induction ps generalizing buf h with
  | nil => exact hc
  | cons p ps ih => exact ih (hc.pollPeer config p buf) _

end Custody.Covers

/-! ### The polled peers -/

theorem Polling.handle_pollPeer (config : Config) (p : Peer P.Conn) (buf : Bytes) (h : Host P) :
    (pollPeer config p buf h).1.1.handle = p.handle := by
  unfold pollPeer
  split
  · split <;> rfl
  · simp only
    split <;> rfl

theorem Polling.holdings_pollEach (config : Config) (ps : List (Peer P.Conn)) (buf : Bytes)
    (h : Host P) :
    Peer.holdings ((pollEach config ps buf h).1.map Prod.fst) = Peer.holdings ps := by
  induction ps generalizing buf h with
  | nil => rfl
  | cons p ps ih =>
    simp only [pollEach, List.map_cons, Peer.holdings_cons, handle_pollPeer, ih]

namespace Custody.Covers

/-- **A round of polls.** -/
theorem round {peers : Peers P.Conn} (hc : K.Covers (peers.holdings + x) h) (config : Config) :
    K.Covers ((Polling.round config peers h).1.holdings + x) (Polling.round config peers h).2 := by
  unfold Polling.round
  split
  · exact hc
  · have hp := hc.pollEach config peers.list (List.replicate (Polling.room config) 0)
    have hh := Polling.holdings_pollEach config peers.list
      (List.replicate (Polling.room config) 0) h
    generalize Polling.pollEach config peers.list
      (List.replicate (Polling.room config) 0) h = polled at hp hh
    have hs := Peer.holdings_perm
      (Peers.settle_perm { peers with list := polled.1.map Prod.fst } (polled.1.map Prod.snd))
    rw [Peer.holdings_append] at hs
    have e : peers.holdings + x = Peer.holdings (Peers.settle
        { peers with list := polled.1.map Prod.fst } (polled.1.map Prod.snd)).2 +
          ((Peers.settle { peers with list := polled.1.map Prod.fst }
            (polled.1.map Prod.snd)).1.holdings + x) := by
      rw [← add_assoc, add_comm (Peer.holdings _), Peers.holdings, Peers.holdings, hs, hh]
    rw [e] at hp
    exact closeEach (fun {_ _ p} hc => (hc.note (n := .closingPeer p.address) nofun).close) hp

end Custody.Covers

/-! ### The server -/

namespace Server

/-- What the slots hold. -/
def slotHoldings (s : Server P) : Holdings P := (s.slots.items.map Client.holdings).sum

/-- What the slots and the peers hold. -/
def holdings (s : Server P) : Holdings P := s.slotHoldings + s.peers.holdings

theorem holdings_of_items {s : Server P} {cs : List (Client P)} (h : s.slots.items = cs) :
    s.holdings = s.peers.holdings + (cs.map Client.holdings).sum := by
  rw [holdings, slotHoldings, h, add_comm]

/-- What one of the slots holds, and what the rest of the server holds. -/
theorem holdings_of_items_middle {s : Server P} {before after : List (Client P)} {c : Client P}
    (h : s.slots.items = before ++ c :: after) : s.holdings =
      c.holdings + (s.peers.holdings + ((before ++ after).map Client.holdings).sum) := by
  rw [holdings_of_items h, List.map_append, List.map_cons, List.sum_append, List.sum_cons,
    List.map_append, List.sum_append]
  abel

end Server

/-- What is out is what the server holds. -/
def Custody.Sound (K : Custody P) (s : Server P) : Prop := K.Covers s.holdings s.host

namespace Custody.Sound

variable {s s' : Server P}

theorem accept (hK : K.network.Accepts) (hs : K.Sound s) : K.Sound s.accept := by
  obtain ha | ⟨conn, h, i, slots, heq, hins, ha⟩ | ⟨e, h, h', heq, ha, hcases⟩ := s.accept_cases
  · rwa [ha]
  · obtain ⟨before, after, hold, hnew⟩ := Slots.exists_items_eq_of_insert? hins
    have hitems : s.accept.slots.items = before ++ .fresh conn :: after := by
      rw [ha]
      exact hnew
    have hfresh : (Client.fresh conn : Client P).holdings = .conn conn := add_zero _
    have hc := ((Covers.accept_ok hK hs heq).setTimeouts conn h.control.timeouts).note
      (n := .accepted (P.network.address conn)) nofun
    rw [Server.holdings_of_items hold] at hc
    unfold Sound
    rw [Server.holdings_of_items_middle hitems, hfresh, ha]
    exact hc
  · rw [ha]
    have hc := Covers.accept_error hK hs heq
    obtain rfl | rfl | rfl := hcases
    · exact hc
    · exact hc.note nofun
    · exact (hc.note (n := .listenerFailed e) nofun).control _

theorem stepSlot (hs : K.Sound s) (i : Nat) : K.Sound (s.stepSlot i) := by
  obtain ⟨-, ht⟩ | ⟨c, c', peers, h, hget, hstep, hcases⟩ := s.stepSlot_cases i
  · rwa [ht]
  · obtain ⟨before, after, hitems, hremoved, hset⟩ := Slots.exists_items_eq hget
    unfold Sound at hs ⊢
    rw [Server.holdings_of_items_middle hitems] at hs
    have hc := hs.step s.config
    rw [hstep] at hc
    obtain ⟨hclosed, ht⟩ | ⟨-, ht⟩ := hcases
    · have hitems' : (s.stepSlot i).slots.items = before ++ after := by
        rw [ht]
        exact hremoved
      have hstage : c'.holdings = c'.connHoldings := by
        unfold Client.phase at hclosed
        unfold Client.holdings
        cases hstage : c'.stage with
        | closed => exact add_zero _
        | _ => simp [hstage, Stage.phase] at hclosed
      rw [Server.holdings_of_items hitems', ht]
      rw [hstage] at hc
      exact Covers.clientRelease (hc.note (n := .slotFree i c'.kind) nofun)
    · have hitems' : (s.stepSlot i).slots.items = before ++ c' :: after := by
        rw [ht]
        exact hset c'
      rw [Server.holdings_of_items_middle hitems', ht]
      exact hc

theorem poll (hs : K.Sound s) : K.Sound s.poll := by
  have hc := hs
  unfold Sound Server.holdings at hc
  rw [add_comm] at hc
  have hr := hc.round s.config
  rw [add_comm] at hr
  exact hr

/-- After its accept, a tick takes no more connections. -/
theorem midTick_of_accept (hs : K.Sound s.accept) (k : Nat) : K.Sound (s.midTick k) :=
  Server.midTick_of_accept (fun _ i ht => ht.stepSlot i) hs k

theorem midTick (hK : K.network.Accepts) (hs : K.Sound s) (k : Nat) : K.Sound (s.midTick k) :=
  midTick_of_accept (hs.accept hK) k

/-- **A tick** hands on, takes and gives back, and loses nothing. -/
theorem tick (hK : K.network.Accepts) (hs : K.Sound s) : K.Sound s.tick := by
  rw [s.tick_eq]
  exact poll (midTick hK hs _)

theorem abortEach {cs : List (Client P)} (hc : K.Covers ((cs.map Client.holdings).sum + x) h) :
    K.Covers x (cs.foldl (fun h c => c.abort h) h) := by
  induction cs generalizing h with
  | nil => simpa using hc
  | cons c cs ih =>
    rw [List.map_cons, List.sum_cons, add_assoc] at hc
    exact ih hc.abort

/-- **A shutdown** gives everything back, and then closes the listener. -/
theorem shutdown (hs : K.Sound s) :
    ∃ h, K.Covers 0 h ∧ s.shutdown.host = h.closeListener.note .stopped := by
  refine ⟨_, ?_, rfl⟩
  refine Covers.closeEach Covers.close (abortEach ?_)
  rw [add_zero]
  exact hs.control _

end Custody.Sound

namespace Server

theorem holdings_shutdown (s : Server P) : s.shutdown.holdings = 0 := by
  have hi : s.shutdown.slots.items = [] := Slots.items_drain
  simp only [holdings, slotHoldings, hi, List.map_nil, List.sum_nil, zero_add]
  rfl

end Server

/-! ### Runs -/

/-- What custody says is not touched by what happens around the server. -/
structure Custody.Undisturbed (K : Custody P) (A : Surroundings P) : Prop where
  network : ∀ {cs s s'}, A.network s s' → K.network.holds cs s → K.network.holds cs s'
  volume : ∀ {fs s s'}, A.volume s s' → K.volume.holds fs s → K.volume.holds fs s'
  interpreter : ∀ {ss s s'}, A.interpreter s s' → K.interpreter.holds ss s →
    K.interpreter.holds ss s'

namespace Custody.Sound

variable {A : Surroundings P} {s s' : Server P}

/-- **What one thing that happens keeps.** -/
theorem step (hK : K.network.Accepts) (hA : K.Undisturbed A) (hs : K.Sound s)
    (hstep : Server.Step A s s') : K.Sound s' := by
  cases hstep with
  | tick => exact hs.tick hK
  | stop => exact Covers.control hs _
  | setTimeouts => exact Covers.control hs _
  | around board uptime hn hv hi =>
    exact ⟨hA.network hn hs.network, hA.volume hv hs.volume, hA.interpreter hi hs.interpreter,
      hs.log⟩

/-- **What a run without a shutdown keeps.** -/
theorem serves (hK : K.network.Accepts) (hA : K.Undisturbed A) (hs : K.Sound s)
    (hrun : Server.Serves A s s') : K.Sound s' := by
  induction hrun with
  | refl => exact hs
  | tail _ hstep ih => exact ih.step hK hA hstep

/-- **What every run keeps**, if closing the listener takes nothing of what is said of a network
that has all its connections back. -/
theorem runs (hK : K.network.Accepts) (hA : K.Undisturbed A)
    (hclose : ∀ {s}, K.network.holds 0 s → K.network.holds 0 (P.network.shutdown s))
    (hs : K.Sound s) (hrun : Server.Runs A s s') : K.Sound s' := by
  induction hrun with
  | refl => exact hs
  | tail _ hevent ih =>
    cases hevent with
    | step hstep => exact ih.step hK hA hstep
    | shutdown =>
      obtain ⟨h, hc, heq⟩ := ih.shutdown
      unfold Sound
      rw [Server.holdings_shutdown, heq]
      have hl : K.Covers 0 h.closeListener :=
        ⟨hclose hc.network, hc.volume, hc.interpreter, hc.log⟩
      exact hl.note nofun

end Custody.Sound

end Microweb

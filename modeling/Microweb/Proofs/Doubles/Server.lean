import Microweb.Proofs.Run
import Microweb.Proofs.Doubles.Client

/-!
Servers that differ in their logs, and in the bytes that the requests in their slots were read from,
alone. Whatever happens, in as many ticks, such servers stay what they are to each other
(`Server.Doubles.passes`): these differences never come out of a server.
-/

namespace Microweb

variable {P : Platform}

/-! ### Polls -/

namespace Host.Doubles

open Polling

variable {g h : Host P}

theorem serveFrames (ht : Doubles g h) (config : Config) (p : Peer P.Conn) (fuel : Nat) (any : Bool)
    (rest : Bytes) : Concur₂ (Polling.serveFrames config p fuel any rest g)
      (Polling.serveFrames config p fuel any rest h) := by
  induction fuel generalizing any rest g h with
  | zero => exact ⟨rfl, rfl, ht⟩
  | succ fuel ih =>
    unfold Polling.serveFrames
    split
    · exact ⟨rfl, rfl, ht⟩
    · split
      · exact ⟨rfl, rfl, ht.note _ _⟩
      · exact ⟨rfl, rfl, ht.note _ _⟩
      · simp only
        refine ((answersKeep p.handle).answer ht config p _).elim fun reply g₁ h₁ ht₁ => ?_
        refine ((answersKeep p.handle).send ht₁ reply).elim fun stay g₂ h₂ ht₂ => ?_
        cases stay with
        | false => exact ⟨rfl, rfl, ht₂⟩
        | true =>
          simp only
          refine (ih ht₂ true _).elim fun served tail g₃ h₃ ht₃ => ?_
          exact ⟨rfl, rfl, ht₃⟩

theorem pollPeer (ht : Doubles g h) (config : Config) (p : Peer P.Conn) (buf : Bytes) :
    Concur₂ (Polling.pollPeer config p buf g) (Polling.pollPeer config p buf h) := by
  unfold Polling.pollPeer
  refine (ht.receive p.handle buf.length).elim fun r g₁ h₁ ht₁ => ?_
  cases r with
  | error e =>
    simp only
    split
    · exact ⟨rfl, rfl, ht₁.note _ _⟩
    · exact ⟨rfl, rfl, ht₁⟩
  | ok bs =>
    simp only
    refine (ht₁.serveFrames config p _ _ _).elim fun served front g₂ h₂ ht₂ => ?_
    exact ⟨rfl, rfl, ht₂⟩

theorem pollEach (ht : Doubles g h) (config : Config) (ps : List (Peer P.Conn)) (buf : Bytes) :
    ConcurIn Doubles (Polling.pollEach config ps buf g) (Polling.pollEach config ps buf h) := by
  induction ps generalizing buf g h with
  | nil => exact ⟨rfl, ht⟩
  | cons p ps ih =>
    simp only [Polling.pollEach]
    refine (ht.pollPeer config p buf).elim fun outcome buf g₁ h₁ ht₁ => ?_
    refine (ih ht₁ buf).elim fun outcomes g₂ h₂ ht₂ => ?_
    exact ⟨rfl, ht₂⟩

theorem round (ht : Doubles g h) (config : Config) (peers : Peers P.Conn) :
    ConcurIn Doubles (Polling.round config peers g) (Polling.round config peers h) := by
  unfold Polling.round
  split
  · exact ⟨rfl, ht⟩
  · refine (ht.pollEach config peers.list _).elim fun outcomes g₁ h₁ ht₁ => ?_
    exact ⟨rfl, Handshake.doubles_closeEach _ ht₁⟩

theorem closeHandles (ht : Doubles g h) (ps : List (Peer P.Conn)) :
    Doubles (ps.foldl (fun h p => h.close p.handle) g)
      (ps.foldl (fun h p => h.close p.handle) h) := by
  induction ps generalizing g h with
  | nil => exact ht
  | cons p ps ih => exact ih (ht.close p.handle)

end Host.Doubles

/-! ### The server -/

namespace Server

/-- Servers whose hosts are doubles, and so are the connections in their slots. -/
structure Doubles (s t : Server P) : Prop where
  config : s.config = t.config
  slots : s.slots.map Client.bare = t.slots.map Client.bare
  peers : s.peers = t.peers
  host : s.host.Doubles t.host

namespace Doubles

variable {s t : Server P}

theorem symm (ht : Doubles s t) : Doubles t s :=
  ⟨ht.config.symm, ht.slots.symm, ht.peers.symm, ht.host.symm⟩

theorem acceptWait (ht : Doubles s t) : s.acceptWait = t.acceptWait := by
  have hempty := congrArg Slots.isEmpty ht.slots
  rw [Slots.isEmpty_map, Slots.isEmpty_map] at hempty
  unfold Server.acceptWait
  rw [hempty, ht.peers, ht.host.control]

theorem place (ht : Doubles s t) (conn : P.Conn) {g h : Host P} (hh : g.Doubles h) :
    Doubles (s.place conn g) (t.place conn h) := by
  have htimeouts := hh.setTimeouts conn g.control.timeouts
  have hinsert : (s.slots.insert? (.fresh conn)).map (fun p => (p.1, p.2.map Client.bare)) =
      (t.slots.insert? (.fresh conn)).map fun p => (p.1, p.2.map Client.bare) := by
    rw [← Slots.insert?_map Client.bare, ← Slots.insert?_map Client.bare, ht.slots]
  simp only [Server.place]
  rw [← hh.control]
  cases hs : s.slots.insert? (.fresh conn) with
  | none =>
    rw [hs] at hinsert
    have hnone : t.slots.insert? (.fresh conn) = none := by simpa using hinsert.symm
    rw [hnone]
    exact ⟨ht.config, ht.slots, ht.peers,
      (Client.Doubles.refl (.fresh conn)).release (htimeouts.note _ _)⟩
  | some r =>
    rw [hs, Option.map_some] at hinsert
    obtain ⟨r', hr', heq⟩ := Option.map_eq_some_iff.mp hinsert.symm
    obtain ⟨-, hslots⟩ := Prod.mk.inj heq
    rw [hr']
    exact ⟨ht.config, hslots.symm, ht.peers, htimeouts.note _ _⟩

theorem accept (ht : Doubles s t) : Doubles s.accept t.accept := by
  have hfull := congrArg Slots.isFull ht.slots
  rw [Slots.isFull_map, Slots.isFull_map] at hfull
  unfold Server.accept
  rw [hfull, ht.acceptWait]
  split
  · exact ht
  · refine (ht.host.accept t.acceptWait).elim fun r g h hh => ?_
    cases r with
    | ok conn => exact ht.place conn hh
    | error e =>
      simp only
      split
      · exact ⟨ht.config, ht.slots, ht.peers, hh⟩
      · split
        · have hstopped := (hh.note (.listenerFailed e) (.listenerFailed e)).map
            (fun h => { h with control := h.control.stop }) fun _ => rfl
          exact ⟨ht.config, ht.slots, ht.peers, hstopped⟩
        · exact ⟨ht.config, ht.slots, ht.peers, hh.note _ _⟩

/-- The same slots are taken, by connections that are doubles. -/
theorem get? (ht : Doubles s t) (i : Nat) :
    (s.slots.get? i = none ∧ t.slots.get? i = none) ∨
      ∃ c d, s.slots.get? i = some c ∧ t.slots.get? i = some d ∧ c.Doubles d := by
  have hget := congrArg (fun slots => slots.get? i) ht.slots
  simp only [Slots.get?_map] at hget
  cases hs : s.slots.get? i with
  | none =>
    rw [hs] at hget
    exact .inl ⟨rfl, by simpa using hget.symm⟩
  | some c =>
    rw [hs, Option.map_some] at hget
    obtain ⟨d, hd, heq⟩ := Option.map_eq_some_iff.mp hget.symm
    exact .inr ⟨c, d, rfl, hd, heq.symm⟩

/-- The work of a slot, on connections whose steps make doubles. -/
theorem stepSlot_of_concur {i : Nat} {c d : Client P} (hconfig : s.config = t.config)
    (hslots : s.slots.map Client.bare = t.slots.map Client.bare) (hs : s.slots.get? i = some c)
    (ht : t.slots.get? i = some d) (hstep : Client.Concur₂ (c.step s.config s.peers s.host)
      (d.step t.config t.peers t.host)) : Doubles (s.stepSlot i) (t.stepSlot i) := by
  unfold Server.stepSlot
  rw [hs, ht]
  simp only
  generalize c.step s.config s.peers s.host = x at hstep ⊢
  generalize d.step t.config t.peers t.host = y at hstep ⊢
  obtain ⟨c', ps, g⟩ := x
  obtain ⟨d', qs, h⟩ := y
  obtain ⟨hclient, hpeers, hh⟩ := hstep
  dsimp only at hclient hpeers hh
  subst hpeers
  have hphase : c'.phase = d'.phase := congrArg Stage.phase hclient.stage
  simp only [hphase]
  split
  · have hremoved : (s.slots.remove i).2.map Client.bare =
        (t.slots.remove i).2.map Client.bare := by
      rw [Slots.map_remove, Slots.map_remove, hslots]
    exact ⟨hconfig, hremoved, rfl, hclient.release (hh.note _ _)⟩
  · have hset : (s.slots.set i c').map Client.bare = (t.slots.set i d').map Client.bare := by
      rw [Slots.map_set, Slots.map_set, hslots, show c'.bare = d'.bare from hclient]
    exact ⟨hconfig, hset, rfl, hh⟩

theorem stepSlot (ht : Doubles s t) (i : Nat) : Doubles (s.stepSlot i) (t.stepSlot i) := by
  obtain ⟨hs, ht'⟩ | ⟨c, d, hs, ht', hc⟩ := ht.get? i
  · unfold Server.stepSlot
    rw [hs, ht']
    exact ht
  · refine stepSlot_of_concur ht.config ht.slots hs ht' ?_
    rw [← ht.config, ← ht.peers]
    exact hc.step ht.host s.config s.peers

theorem foldl_stepSlot (ht : Doubles s t) (l : List Nat) :
    Doubles (l.foldl Server.stepSlot s) (l.foldl Server.stepSlot t) := by
  induction l generalizing s t with
  | nil => exact ht
  | cons i l ih => exact ih (ht.stepSlot i)

theorem stepSlots (ht : Doubles s t) : Doubles s.stepSlots t.stepSlots := by
  have hoccupied := congrArg Slots.occupied ht.slots
  rw [Slots.occupied_map, Slots.occupied_map] at hoccupied
  unfold Server.stepSlots
  rw [hoccupied]
  exact ht.foldl_stepSlot _

theorem poll (ht : Doubles s t) : Doubles s.poll t.poll := by
  unfold Server.poll
  rw [← ht.config, ← ht.peers]
  refine (ht.host.round s.config s.peers).elim fun peers g h hh => ?_
  exact ⟨rfl, ht.slots, rfl, hh⟩

/-- **A tick** makes doubles of doubles. -/
theorem tick (ht : Doubles s t) : Doubles s.tick t.tick := ht.accept.stepSlots.poll

/-- What is left of connections that are doubles when a server shuts down. -/
theorem abortEach {cs ds : List (Client P)} (hc : cs.map Client.bare = ds.map Client.bare)
    {g h : Host P} (hh : g.Doubles h) :
    (cs.foldl (fun h c => c.abort h) g).Doubles (ds.foldl (fun h c => c.abort h) h) := by
  induction cs generalizing ds g h with
  | nil =>
    obtain rfl : ds = [] := by simpa using hc.symm
    exact hh
  | cons c cs ih =>
    obtain ⟨d, ds, rfl, hd, hds⟩ := List.map_eq_cons_iff.mp hc.symm
    have hone : c.Doubles d := hd.symm
    exact ih hds.symm (hone.abort hh)

theorem shutdown (ht : Doubles s t) : Doubles s.shutdown t.shutdown := by
  have hitems := congrArg Slots.items ht.slots
  rw [Slots.items_map, Slots.items_map] at hitems
  have hslots : s.slots.drain.2.map Client.bare = t.slots.drain.2.map Client.bare := by
    rw [Slots.map_drain, Slots.map_drain, ht.slots]
  have hstopped := ht.host.map (fun h => { h with control := h.control.stop }) fun _ => rfl
  have hclosed := (abortEach hitems hstopped).closeHandles s.peers.list
  have hdone := (hclosed.map Host.closeListener fun _ => rfl).note .stopped .stopped
  unfold Server.shutdown
  rw [← ht.peers]
  exact ⟨ht.config, hslots, rfl, hdone⟩

/-! ### Runs -/

variable {A : Surroundings P}

theorem aside {s' : Server P} (ht : Doubles s t) (ha : Aside A s s') :
    ∃ t', Aside A t t' ∧ Doubles s' t' := by
  cases ha with
  | stop =>
    exact ⟨t.stop, .stop, ht.config, ht.slots, ht.peers,
      ht.host.map (fun h => { h with control := h.control.stop }) fun _ => rfl⟩
  | setTimeouts receive send =>
    exact ⟨t.setTimeouts receive send, .setTimeouts receive send, ht.config, ht.slots, ht.peers,
      ht.host.map (fun h => { h with control := h.control.setTimeouts receive send }) fun _ => rfl⟩
  | @around network volume interpreter board uptime hn hv hi =>
    have hnetwork := ht.host.view Host.network fun _ => rfl
    have hvolume := ht.host.view Host.volume fun _ => rfl
    have hinterpreter := ht.host.view Host.interpreter fun _ => rfl
    rw [hnetwork] at hn
    rw [hvolume] at hv
    rw [hinterpreter] at hi
    exact ⟨_, .around board uptime hn hv hi, ht.config, ht.slots, ht.peers,
      ht.host.map (fun h => { h with network, volume, interpreter, board, uptime }) fun _ => rfl⟩

/-- **Whatever happens, in so many ticks,** to one of two servers that are doubles can happen to the
other, and they are doubles again. -/
theorem passes {n : Nat} {s' : Server P} (ht : Doubles s t) (hp : Passes A s n s') :
    ∃ t', Passes A t n t' ∧ Doubles s' t' := by
  induction hp with
  | refl => exact ⟨t, .refl, ht⟩
  | tick _ ih =>
    obtain ⟨t', hp', ht'⟩ := ih
    exact ⟨t'.tick, hp'.tick, ht'.tick⟩
  | aside _ ha ih =>
    obtain ⟨t', hp', ht'⟩ := ih
    obtain ⟨t'', ha', ht''⟩ := ht'.aside ha
    exact ⟨t'', hp'.aside ha', ht''⟩

end Doubles

/-- **Servers that nothing tells apart**, in the middle of a tick. The rest of it is the work of some
slots and a round of polls; whatever happens in so many ticks from there can happen to either, and
they are doubles then, and once they are shut down. -/
structure Inseparable (s t : Server P) : Prop where
  doubles : Doubles s t
  forth : ∀ (l : List Nat) (A : Surroundings P) (n : Nat) (s' : Server P),
    Passes A (l.foldl stepSlot s).poll n s' → ∃ t', Passes A (l.foldl stepSlot t).poll n t' ∧
      Doubles s' t' ∧ Doubles s'.shutdown t'.shutdown
  back : ∀ (l : List Nat) (A : Surroundings P) (n : Nat) (t' : Server P),
    Passes A (l.foldl stepSlot t).poll n t' → ∃ s', Passes A (l.foldl stepSlot s).poll n s' ∧
      Doubles s' t' ∧ Doubles s'.shutdown t'.shutdown

theorem Doubles.inseparable {s t : Server P} (ht : Doubles s t) : Inseparable s t := by
  refine ⟨ht, fun l A n s' hp => ?_, fun l A n t' hp => ?_⟩
  · obtain ⟨t', hp', ht'⟩ := (ht.foldl_stepSlot l).poll.passes hp
    exact ⟨t', hp', ht', ht'.shutdown⟩
  · obtain ⟨s', hp', ht'⟩ := (ht.symm.foldl_stepSlot l).poll.passes hp
    exact ⟨s', hp', ht'.symm, ht'.symm.shutdown⟩

end Server

end Microweb

import Microweb.Proofs.Scope.Server

/-!
The upgrades of the peers. Whoever is a peer was upgraded at some time, and the log says so, with
the remote end of its connection and the path.
-/

namespace Microweb

variable {P : Platform}

/-- **The upgrade of each peer is in the log.** -/
def Server.PeersNoted (s : Server P) : Prop :=
  ∀ p ∈ s.peers.list, .upgraded (P.network.address p.handle) p.uri ∈ s.host.log

namespace Server.PeersNoted

variable {s s₀ : Server P} {A : Surroundings P}

/-- The same peers, and a longer log. -/
theorem keep {t : Server P} (hs : s.PeersNoted) (hpeers : t.peers = s.peers)
    (hlog : s.host.log <:+ t.host.log) : t.PeersNoted := by
  intro p hp
  rw [hpeers] at hp
  exact hlog.subset (hs p hp)

theorem accept (hs : s.PeersNoted) : s.accept.PeersNoted :=
  hs.keep s.accept_frame.1 s.log_accept

/-- A peer was there before the step, or it was upgraded in it. -/
theorem stepSlot (hs : s.PeersNoted) (i : Nat) : (s.stepSlot i).PeersNoted := by
  have hlog := (s.reaches_stepSlot i).log
  obtain ⟨-, ht⟩ | ⟨c, c', peers, h, hget, hstep, hcases⟩ := s.stepSlot_cases i
  · rwa [ht]
  · have hpeers : (s.stepSlot i).peers = peers := by
      obtain ⟨-, ht⟩ | ⟨-, ht⟩ := hcases <;> rw [ht]
    have hrest : h.log <:+ (s.stepSlot i).host.log := by
      obtain ⟨-, ht⟩ | ⟨-, ht⟩ := hcases
      · rw [ht]
        exact (((Scope.Reaches.refl (.all _) h).note _).clientRelease fun _ _ => trivial).log
      · exact ht.symm ▸ List.suffix_refl _
    have hpool := c.pooled_step s.config s.peers s.host
    rw [hstep] at hpool
    cases hpool with
    | stays => exact hs.keep hpeers hlog
    | joins uri _ hconn hnoted =>
      intro p hp
      rw [hpeers] at hp
      obtain rfl | hp := Peers.eq_or_mem_of_enrol hp
      · exact hrest.subset hnoted
      · exact hlog.subset (hs p hp)

/-- A round of polls changes the ages of peers alone. -/
theorem poll (hs : s.PeersNoted) : s.poll.PeersNoted := by
  intro q hq
  obtain ⟨p, hp, heq⟩ := Polling.exists_mem_of_round hq
  rw [heq]
  exact s.reaches_poll.log.subset (hs p hp)

theorem tick (hs : s.PeersNoted) : s.tick.PeersNoted :=
  tick_induction (fun _ ht => ht.accept) (fun _ i ht => ht.stepSlot i) (fun _ ht => ht.poll) hs

theorem event {t : Server P} (hs : s.PeersNoted) (h : Event A s t) : t.PeersNoted := by
  cases h with
  | step hstep =>
    cases hstep with
    | tick => exact hs.tick
    | stop => exact hs
    | setTimeouts => exact hs
    | around => exact hs
  | shutdown => exact fun p hp => by cases hp

/-- **On every run** the upgrades of the peers are in the log. -/
theorem runs (hs : s₀.PeersNoted) (hrun : Runs A s₀ s) : s.PeersNoted := by
  induction hrun with
  | refl => exact hs
  | tail _ hevent ih => exact ih.event hevent

theorem of_new {config : Config} {network : P.network.State} {volume : P.volume.State}
    {interpreter : P.interpreter.State} {board : P.peripherals.State}
    (hnew : Server.new config network volume interpreter board = .ok s) : s.PeersNoted := by
  obtain ⟨-, rfl⟩ := new_eq_ok_iff.mp hnew
  exact fun p hp => by cases hp

end Server.PeersNoted

end Microweb

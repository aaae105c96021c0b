import Microweb.Proofs.Lifetime
import Microweb.Proofs.Polls

/-!
The pool of peers over a run. It never outgrows its capacity, holds one peer of a host at most, and
stands in the order of ages; and the age of a peer is what its name says, the polls since it joined
or was last served.
-/

namespace Microweb

/-! ### Visits -/

/-- What happens to an end point as a peer: it joins the pool, or it is polled with some result. -/
inductive Visit where
  | joined (address : SocketAddress)
  | polled (address : SocketAddress) (receipt : Except NetError Bytes)

namespace Visit

def address : Visit → SocketAddress
  | joined a => a
  | polled a _ => a

/-- The polls of an end point since it joined or was last served, whichever was later; none if it
never did nor was. The latest visit stands first. -/
def pollsSince? (a : SocketAddress) : List Visit → Option Nat
  | [] => none
  | joined b :: t => if b = a then some 0 else pollsSince? a t
  | polled b r :: t =>
    if b = a then if Polling.brings r then some 0 else (pollsSince? a t).map (· + 1)
    else pollsSince? a t

variable {a : SocketAddress} {t t' : List Visit}

/-- Visits to others do not count. -/
theorem pollsSince?_append (h : ∀ v ∈ t, v.address ≠ a) :
    pollsSince? a (t ++ t') = pollsSince? a t' := by
  induction t with
  | nil => rfl
  | cons v t ih =>
    have hv := h v List.mem_cons_self
    have ht := ih fun w hw => h w (List.mem_cons_of_mem _ hw)
    cases v with
    | joined b => exact (if_neg hv).trans ht
    | polled b r => exact (if_neg hv).trans ht

/-- Of visits to different end points, only the one to this end point counts. -/
theorem pollsSince?_reverse_append {vs : List Visit} {v : Visit} (hv : v ∈ vs)
    (hnodup : (vs.map address).Nodup) :
    pollsSince? v.address (vs.reverse ++ t) = pollsSince? v.address (v :: t) := by
  obtain ⟨before, after, rfl⟩ := List.append_of_mem hv
  rw [List.map_append, List.map_cons, List.nodup_append, List.nodup_cons] at hnodup
  obtain ⟨-, ⟨hafter, -⟩, hbefore⟩ := hnodup
  have hlater : ∀ w ∈ after.reverse, w.address ≠ v.address := by
    intro w hw heq
    refine hafter ?_
    rw [← heq]
    exact List.mem_map_of_mem (List.mem_reverse.mp hw)
  have hearlier : ∀ w ∈ before.reverse, w.address ≠ v.address := by
    intro w hw
    exact hbefore _ (List.mem_map_of_mem (List.mem_reverse.mp hw)) _ List.mem_cons_self
  rw [List.reverse_append, List.reverse_cons, List.append_assoc, List.append_assoc,
    pollsSince?_append hlater]
  cases v with
  | joined b => simp only [List.singleton_append, pollsSince?, address, ↓reduceIte]
  | polled b r =>
    have hrest : pollsSince? b (before.reverse ++ t) = pollsSince? b t :=
      pollsSince?_append hearlier
    simp only [List.singleton_append, pollsSince?, address, ↓reduceIte, hrest]

end Visit

open Visit (pollsSince?)

/-! ### Pools -/

/-- The count of polls that an age stands for, up to the greatest there is. -/
def Peer.CountsPolls {H : Type} (t : List Visit) (p : Peer H) : Prop :=
  ∃ n, pollsSince? p.address t = some n ∧ p.age.toNat = min (2 ^ 32 - 1) n

/-- **What is true of a pool** after visits, with a limit to the ages. -/
structure Peers.Kept {H : Type} (limit : UInt32) (t : List Visit) (ps : Peers H) : Prop where
  length_le : ps.list.length ≤ ps.capacity
  nodup : (ps.list.map fun p => p.address.host).Nodup
  sorted : ps.list.Pairwise fun p q => p.age ≤ q.age
  countsPolls : ∀ p ∈ ps.list, p.CountsPolls t
  age_le : ∀ p ∈ ps.list, p.age ≤ limit

namespace Peers.Kept

variable {H : Type} {limit : UInt32} {t : List Visit} {ps : Peers H}

theorem empty (limit : UInt32) (t : List Visit) (capacity : Nat) :
    (Peers.empty capacity : Peers H).Kept limit t :=
  ⟨Nat.zero_le _, .nil, .nil, nofun, nofun⟩

/-- **A new peer** stands in front of some of the others, none of them of its host. -/
theorem enrol (hk : ps.Kept limit t) (hcap : 0 < ps.capacity) (handle : H)
    (a : SocketAddress) (uri : String) :
    (ps.enrol (.fresh handle a uri)).1.Kept limit (.joined a :: t) := by
  let others := (ps.list.filter fun q => q.address.host != a.host).take (ps.capacity - 1)
  have hlist : (ps.enrol (.fresh handle a uri)).1.list = .fresh handle a uri :: others := rfl
  have hsub : others.Sublist ps.list := (List.take_sublist _ _).trans List.filter_sublist
  have hother : ∀ q ∈ others, q.address.host ≠ a.host := by
    intro q hq
    have hq := (List.mem_filter.mp (List.mem_of_mem_take hq)).2
    simpa using hq
  refine ⟨Peers.length_enrol_le hcap _, Peers.nodup_enrol hk.nodup _, ?_, ?_, ?_⟩
  · rw [hlist, List.pairwise_cons]
    exact ⟨fun q _ => UInt32.zero_le, hk.sorted.sublist hsub⟩
  · rw [hlist]
    intro p hp
    obtain rfl | hp := List.mem_cons.mp hp
    · exact ⟨0, if_pos rfl, rfl⟩
    · obtain ⟨n, hn, hage⟩ := hk.countsPolls p (hsub.subset hp)
      have hne : a ≠ p.address := by
        rintro rfl
        exact hother p hp rfl
      exact ⟨n, by rw [pollsSince?, if_neg hne, hn], hage⟩
  · rw [hlist]
    intro p hp
    obtain rfl | hp := List.mem_cons.mp hp
    · exact UInt32.zero_le
    · exact hk.age_le p (hsub.subset hp)

end Peers.Kept

variable {P : Platform} {config : Config} {A : Surroundings P}

/-! ### A round of polls -/

/-- A peer that rests ages by one, up to the greatest age there is. -/
theorem Peer.age_rest {H : Type} (p : Peer H) (limit : UInt32) :
    (p.rest limit).1.age.toNat = min (2 ^ 32 - 1) (p.age.toNat + 1) := by
  have hlt := p.age.toNat_lt
  unfold rest
  simp only [UInt32.size]
  split
  · next hroom =>
    rw [UInt32.toNat_add, UInt32.toNat_one, Nat.mod_eq_of_lt hroom]
    omega
  · omega

theorem Peer.snd_rest {H : Type} (p : Peer H) (limit : UInt32) :
    (p.rest limit).2 = if limit < (p.rest limit).1.age then .evict else .idle := rfl

namespace Polling

theorem Polled.active {p : Peer P.Conn} {r : Except NetError Bytes} {o : Peer P.Conn × Activity}
    (ho : Polled config p r o) (h : o.2 = .active) : brings r = true ∧ o.1.age = 0 := by
  cases ho with
  | served hr => exact ⟨hr, rfl⟩
  | rested hr =>
    rw [Peer.snd_rest] at h
    split at h <;> cases h
  | left => cases h

theorem Polled.idle {p : Peer P.Conn} {r : Except NetError Bytes} {o : Peer P.Conn × Activity}
    (ho : Polled config p r o) (h : o.2 = .idle) : brings r = false ∧
      o.1.age.toNat = min (2 ^ 32 - 1) (p.age.toNat + 1) ∧ o.1.age ≤ config.peerIdleLimit := by
  cases ho with
  | served hr => cases h
  | rested hr =>
    rw [Peer.snd_rest] at h
    split at h
    · cases h
    · next hle => exact ⟨hr, p.age_rest _, by simpa using hle⟩
  | left => cases h

/-- The visits of a round, the last first. -/
def roundVisits (config : Config) (peers : Peers P.Conn) (h : Host P) : List Visit :=
  ((roundPolls config peers h).map fun x => .polled x.peer.address x.receipt).reverse

variable {peers : Peers P.Conn} {h : Host P} {t : List Visit}

theorem map_peer_roundPolls (config : Config) (peers : Peers P.Conn) (h : Host P) :
    (roundPolls config peers h).map Poll.peer = peers.list := map_peer_polls _ _ _ _

theorem polled_of_mem_roundPolls {x : Poll P} (hx : x ∈ roundPolls config peers h) :
    Polled config x.peer x.receipt x.outcome := polled_of_mem hx

/-- The peers with a fate, as polls. -/
theorem exists_of_mem_withFate {a : Activity} {q : Peer P.Conn}
    (hq : q ∈ withFate config peers h a) :
    ∃ x ∈ roundPolls config peers h, x.outcome.2 = a ∧ x.outcome.1 = q := by
  obtain ⟨x, hx, rfl⟩ := List.mem_map.mp hq
  obtain ⟨hx, ha⟩ := List.mem_filter.mp hx
  exact ⟨x, hx, by simpa using ha, rfl⟩

/-- What a peer is in a pool, it is by one poll: the peers with a fate are all that were polled. -/
theorem withFate_perm (config : Config) (peers : Peers P.Conn) (h : Host P) :
    ((withFate config peers h .active).reverse ++ withFate config peers h .idle ++
      withFate config peers h .evict).Perm
        ((roundPolls config peers h).map fun x => x.outcome.1) := by
  have hperm := (Peers.filter_outcomes_perm (fun x : Poll P => x.outcome.2)
    (roundPolls config peers h)).map fun x => x.outcome.1
  rw [List.map_append, List.map_append] at hperm
  exact (((List.reverse_perm _).append_right _).append_right _).trans hperm

/-- A poll does not change the address of a peer. -/
theorem address_outcome {x : Poll P} (hx : x ∈ roundPolls config peers h) :
    x.outcome.1.address = x.peer.address := by
  rw [(polled_of_mem_roundPolls hx).peer_eq]

theorem map_address_roundPolls (config : Config) (peers : Peers P.Conn) (h : Host P) :
    (roundPolls config peers h).map (fun x => x.outcome.1.address) =
      peers.list.map Peer.address := by
  rw [← map_peer_roundPolls config peers h, List.map_map]
  exact List.map_congr_left fun x hx => address_outcome hx

end Polling

namespace Peers.Kept

open Polling

variable {peers : Peers P.Conn} {t : List Visit}

/-- A peer that stays counts its polls on. -/
theorem countsPolls_outcome {h : Host P} {x : Poll P}
    (hk : peers.Kept config.peerIdleLimit t) (hx : x ∈ roundPolls config peers h)
    (hfate : x.outcome.2 = .active ∨ x.outcome.2 = .idle) :
    x.outcome.1.CountsPolls (roundVisits config peers h ++ t) := by
  have hpeer : x.peer ∈ peers.list := by
    rw [← map_peer_roundPolls config peers h]
    exact List.mem_map_of_mem hx
  have hpoll := polled_of_mem_roundPolls hx
  have hsince : pollsSince? x.peer.address (roundVisits config peers h ++ t) =
      if brings x.receipt then some 0 else (pollsSince? x.peer.address t).map (· + 1) := by
    have hmem : Visit.polled x.peer.address x.receipt ∈
        (roundPolls config peers h).map fun x => Visit.polled x.peer.address x.receipt :=
      List.mem_map_of_mem hx
    have hnodup : (((roundPolls config peers h).map fun x =>
        Visit.polled x.peer.address x.receipt).map Visit.address).Nodup := by
      have hpeers : (peers.list.map fun p => p.address).Nodup := by
        refine List.Nodup.of_map SocketAddress.host ?_
        rw [List.map_map]
        exact hk.nodup
      rw [← map_peer_roundPolls config peers h, List.map_map] at hpeers
      rw [List.map_map]
      exact hpeers
    have hone := Visit.pollsSince?_reverse_append (t := t) hmem hnodup
    simpa only [roundVisits, Visit.address, pollsSince?, ↓reduceIte] using hone
  unfold Peer.CountsPolls
  rw [address_outcome hx, hsince]
  obtain hactive | hidle := hfate
  · obtain ⟨hbrings, hage⟩ := hpoll.active hactive
    exact ⟨0, if_pos hbrings, by rw [hage]; rfl⟩
  · obtain ⟨hbrings, hage, -⟩ := hpoll.idle hidle
    obtain ⟨n, hn, hcount⟩ := hk.countsPolls x.peer hpeer
    refine ⟨n + 1, by rw [hbrings, hn]; rfl, ?_⟩
    rw [hage, hcount]
    omega

/-- **A round of polls** keeps what is true of a pool. -/
theorem round (hk : peers.Kept config.peerIdleLimit t) (h : Host P) :
    (Polling.round config peers h).1.Kept config.peerIdleLimit
      (roundVisits config peers h ++ t) := by
  have hperm := withFate_perm config peers h
  rw [round_eq]
  refine ⟨?_, ?_, ?_, fun q hq => ?_, fun q hq => ?_⟩
  · have hlen := hperm.length_eq
    rw [List.length_append, List.length_map, ← List.length_map Poll.peer,
      map_peer_roundPolls] at hlen
    have hle := hk.length_le
    show (_ ++ _ : List (Peer P.Conn)).length ≤ peers.capacity
    omega
  · have hall : (((roundPolls config peers h).map fun x => x.outcome.1).map
        fun p => p.address.host).Nodup := by
      have hhosts := congrArg (List.map SocketAddress.host) (map_address_roundPolls config peers h)
      rw [List.map_map, List.map_map] at hhosts
      rw [List.map_map]
      exact hhosts ▸ hk.nodup
    have hparts := (hperm.map fun p => p.address.host).nodup_iff.mpr hall
    rw [List.map_append] at hparts
    exact hparts.of_append_left
  · have hactive : ∀ q ∈ (withFate config peers h .active).reverse, q.age = 0 := by
      intro q hq
      obtain ⟨x, hx, hfate, rfl⟩ := exists_of_mem_withFate (List.mem_reverse.mp hq)
      exact ((polled_of_mem_roundPolls hx).active hfate).2
    refine List.pairwise_append.mpr ⟨?_, ?_, fun p hp q _ => ?_⟩
    · refine List.pairwise_of_forall_mem_list fun p hp q _ => ?_
      rw [hactive p hp]
      exact UInt32.zero_le
    · have hsorted := hk.sorted
      rw [← map_peer_roundPolls config peers h, List.pairwise_map] at hsorted
      refine List.pairwise_map.mpr ((hsorted.sublist List.filter_sublist).imp_of_mem ?_)
      intro x y hx hy hle
      obtain ⟨hx, hxf⟩ := List.mem_filter.mp hx
      obtain ⟨hy, hyf⟩ := List.mem_filter.mp hy
      obtain ⟨-, hxage, -⟩ := (polled_of_mem_roundPolls hx).idle (by simpa using hxf)
      obtain ⟨-, hyage, -⟩ := (polled_of_mem_roundPolls hy).idle (by simpa using hyf)
      rw [UInt32.le_iff_toNat_le] at hle ⊢
      omega
    · rw [hactive p hp]
      exact UInt32.zero_le
  · obtain hq | hq := List.mem_append.mp hq
    · obtain ⟨x, hx, hfate, rfl⟩ := exists_of_mem_withFate (List.mem_reverse.mp hq)
      exact hk.countsPolls_outcome hx (.inl hfate)
    · obtain ⟨x, hx, hfate, rfl⟩ := exists_of_mem_withFate hq
      exact hk.countsPolls_outcome hx (.inr hfate)
  · obtain hq | hq := List.mem_append.mp hq
    · obtain ⟨x, hx, hfate, rfl⟩ := exists_of_mem_withFate (List.mem_reverse.mp hq)
      rw [((polled_of_mem_roundPolls hx).active hfate).2]
      exact UInt32.zero_le
    · obtain ⟨x, hx, hfate, rfl⟩ := exists_of_mem_withFate hq
      exact ((polled_of_mem_roundPolls hx).idle hfate).2.2

end Peers.Kept

namespace Server

/-! ### The visits of a tick -/

/-- The visit in the unit of work of a slot: the connection in it may join the pool. -/
def slotVisits (s : Server P) (i : Nat) : List Visit :=
  match s.slots.get? i with
  | none => []
  | some c =>
    if (c.step s.config s.peers s.host).1.kind = .socket then
      (c.conn.map fun conn => .joined (P.network.address conn)).toList
    else []

/-- The visits in the units of work of slots, the last first. -/
def slotsVisits : List Nat → Server P → List Visit
  | [], _ => []
  | i :: l, s => slotsVisits l (s.stepSlot i) ++ s.slotVisits i

/-- The visits of a tick, the last first: connections join, and then each peer is polled. -/
def visits (s : Server P) : List Visit :=
  let mid := s.accept.stepSlots
  Polling.roundVisits mid.config mid.peers mid.host ++
    slotsVisits s.accept.slots.occupied s.accept

/-- A run, and all visits in it, the last first. -/
inductive Chronicled (A : Surroundings P) (s₀ : Server P) : List Visit → Server P → Prop
  | start : Chronicled A s₀ [] s₀
  | tick {t : List Visit} {s : Server P} (h : Chronicled A s₀ t s) :
    Chronicled A s₀ (s.visits ++ t) s.tick
  | aside {t : List Visit} {s s' : Server P} (h : Chronicled A s₀ t s) (haside : Aside A s s') :
    Chronicled A s₀ t s'
  | shutdown {t : List Visit} {s : Server P} (h : Chronicled A s₀ t s) :
    Chronicled A s₀ t s.shutdown

variable {s s₀ : Server P} {t : List Visit}

/-- Every run has its visits. -/
theorem exists_chronicled (hrun : Runs A s₀ s) : ∃ t, Chronicled A s₀ t s := by
  induction hrun with
  | refl => exact ⟨[], .start⟩
  | tail _ hevent ih =>
    obtain ⟨t, ht⟩ := ih
    cases hevent with
    | step hstep =>
      obtain rfl | haside := hstep.tick_or_aside
      · exact ⟨_, ht.tick⟩
      · exact ⟨t, ht.aside haside⟩
    | shutdown => exact ⟨t, ht.shutdown⟩

/-! ### The pool over a run -/

/-- The pool of the server is kept, and the connections in slots are no peers yet. -/
structure PoolKept (t : List Visit) (s : Server P) : Prop where
  pos : 0 < s.config.maxPeers
  capacity : s.peers.capacity = s.config.maxPeers
  kept : s.peers.Kept s.config.peerIdleLimit t
  slots : ∀ c ∈ s.slots.items, c.InSlot s.config

theorem PoolKept.accept (hs : s.PoolKept t) : s.accept.PoolKept t := by
  obtain ⟨hpeers, -⟩ := s.accept_frame
  have hslots := inSlot_accept hs.slots
  refine ⟨?_, ?_, ?_, hslots⟩
  · rw [config_accept]
    exact hs.pos
  · rw [hpeers, config_accept]
    exact hs.capacity
  · rw [hpeers, config_accept]
    exact hs.kept

theorem PoolKept.stepSlot (hs : s.PoolKept t) (i : Nat) :
    (s.stepSlot i).PoolKept (s.slotVisits i ++ t) := by
  have hpool : (s.stepSlot i).peers.capacity = s.config.maxPeers ∧
      (s.stepSlot i).peers.Kept s.config.peerIdleLimit (s.slotVisits i ++ t) := by
    unfold slotVisits
    obtain ⟨hnone, ht⟩ | ⟨c, c', peers, h, hget, hstep, hcases⟩ := s.stepSlot_cases i
    · rw [ht, hnone]
      exact ⟨hs.capacity, hs.kept⟩
    · have hkind := (hs.slots c (Slots.mem_items_of_get? hget)).kind
      have hpooled := c.pooled_step s.config s.peers s.host
      have hpeers : (s.stepSlot i).peers = peers := by
        obtain ⟨-, ht⟩ | ⟨-, ht⟩ := hcases <;> rw [ht]
      rw [hget, hpeers]
      simp only [hstep] at hpooled ⊢
      cases hpooled with
      | stays h hsame =>
        have hnot : ¬ c'.kind = .socket := by
          rw [hsame, hkind]
          nofun
        rw [if_neg hnot]
        exact ⟨hs.capacity, hs.kept⟩
      | @joins conn uri h hconn =>
        rw [if_pos rfl, hconn]
        exact ⟨hs.capacity, hs.kept.enrol (hs.capacity ▸ hs.pos) conn _ uri⟩
  have hslots := inSlot_stepSlot i hs.slots
  refine ⟨?_, ?_, ?_, hslots⟩
  · rw [config_stepSlot]
    exact hs.pos
  · rw [config_stepSlot]
    exact hpool.1
  · rw [config_stepSlot]
    exact hpool.2

theorem PoolKept.stepSlots (hs : s.PoolKept t) (l : List Nat) :
    (l.foldl Server.stepSlot s).PoolKept (slotsVisits l s ++ t) := by
  induction l generalizing s t with
  | nil => exact hs
  | cons i l ih =>
    have hl := ih (hs.stepSlot i)
    rwa [← List.append_assoc] at hl

/-- **A tick** keeps what is true of the pool. -/
theorem PoolKept.tick (hs : s.PoolKept t) : s.tick.PoolKept (s.visits ++ t) := by
  have hmid : s.accept.stepSlots.PoolKept _ := hs.accept.stepSlots s.accept.slots.occupied
  refine ⟨hmid.pos, ?_, ?_, hmid.slots⟩
  · have hcap := hmid.capacity
    show (Polling.round _ s.accept.stepSlots.peers _).1.capacity = _
    rwa [Polling.round_eq]
  · have hround := hmid.kept.round s.accept.stepSlots.host
    rwa [← List.append_assoc] at hround

/-- **Every run** keeps what is true of the pool. -/
theorem PoolKept.chronicled (hs : s₀.PoolKept []) (hrun : Chronicled A s₀ t s) :
    s.PoolKept t := by
  induction hrun with
  | start => exact hs
  | tick _ ih => exact ih.tick
  | aside _ haside ih =>
    obtain ⟨hconfig, hslots, hpeers⟩ := haside.frame
    obtain ⟨hpos, hcap, hkept, hin⟩ := ih
    exact ⟨hconfig ▸ hpos, by rw [hpeers, hconfig, hcap], by rwa [hpeers, hconfig],
      by rwa [hslots, hconfig]⟩
  | shutdown _ ih =>
    refine ⟨ih.pos, ih.capacity, ⟨Nat.zero_le _, .nil, .nil, nofun, nofun⟩, fun c hc => ?_⟩
    rw [show (shutdown _).slots.items = [] from Slots.items_drain] at hc
    cases hc

/-- **The pool of peers over a run.** Whatever the platform does, between ticks there are no more
peers than may be, no two of one host, and their ages do not decrease from front to back; each age
is the number of polls since the peer joined or was last served, up to the greatest count there
is, and none is beyond the limit. -/
theorem peers_kept {config : Config} {network : P.network.State} {volume : P.volume.State}
    {interpreter : P.interpreter.State} {board : P.peripherals.State}
    (hnew : Server.new config network volume interpreter board = .ok s₀) (hrun : Runs A s₀ s) :
    s.peers.list.length ≤ config.maxPeers ∧
      (s.peers.list.map fun p => p.address.host).Nodup ∧
      (s.peers.list.Pairwise fun p q => p.age ≤ q.age) ∧
      (∀ p ∈ s.peers.list, p.age ≤ config.peerIdleLimit) ∧
      (∃ t, Chronicled A s₀ t s) ∧
      ∀ t, Chronicled A s₀ t s → ∀ p ∈ s.peers.list, ∃ n,
        pollsSince? p.address t = some n ∧ p.age.toNat = min (2 ^ 32 - 1) n := by
  obtain ⟨hvalid, rfl⟩ := new_eq_ok_iff.mp hnew
  have hstart : (⟨config, .free config.maxConnections, .empty config.maxPeers,
      ⟨network, volume, interpreter, board, .start config.timeouts, 0, []⟩⟩ :
      Server P).PoolKept [] := by
    refine ⟨(config.valid_iff.mp hvalid).2.1, rfl, .empty _ _ _, fun c hc => ?_⟩
    rw [Slots.items_free] at hc
    cases hc
  have hconfig : s.config = config := Runs.config_eq hrun
  obtain ⟨t, ht⟩ := exists_chronicled hrun
  have hs := hstart.chronicled ht
  refine ⟨?_, hs.kept.nodup, hs.kept.sorted, ?_, ⟨t, ht⟩, fun t' ht' => ?_⟩
  · rw [← hconfig, ← hs.capacity]
    exact hs.kept.length_le
  · rw [← hconfig]
    exact hs.kept.age_le
  · exact (hstart.chronicled ht').kept.countsPolls

end Server

/-! ### Two peers -/

namespace Recency

open Bench

def idle : Server kit := onRecord Config.default .empty .empty

/-- Two clients, which ask for upgrades. -/
def queue : Server kit :=
  idle.onNetwork fun ws => (((ws.connect (clientAddress 1)).connect (clientAddress 2)).update 0
    fun w => w.send (upgradeRequest "/" "dGhlIHNhbXBsZSBub25jZQ==")).update 1
    fun w => w.send (upgradeRequest "/" "dGhlIHNhbXBsZSBub25jZQ==")

/-- Both have become peers, and the first has sent a frame since. -/
def pair : Server kit :=
  (queue.tick.tick.onNetwork fun ws => ws.update 0 fun w =>
    w.send (Frame.encodeMasked Opcode.ping [] ⟨1, 2, 3, 4⟩)).tick

theorem runs_pair : Server.Runs (.recorded _) idle pair :=
  ((((Relation.ReflTransGen.refl.tail (.step (.ofNetwork _ _))).tail (.step (.tick _))).tail
    (.step (.tick _))).tail (.step (.ofNetwork _ _))).tail (.step (.tick _))

theorem peers_kept_pair :
    pair.peers.list.map (fun p => (p.address, p.age)) =
        [(clientAddress 1, 0), (clientAddress 2, 2)] ∧
      ∃ t, Server.Chronicled (.recorded _) idle t pair ∧
        pollsSince? (clientAddress 2) t = some 2 := by
  have hages : pair.peers.list.map (fun p => (p.address, p.age)) =
      [(clientAddress 1, 0), (clientAddress 2, 2)] := by decide +kernel
  have hrun := runs_pair
  -- From here on the server need not be computed.
  generalize pair = s at hages hrun ⊢
  have hnew := new_onRecord (show Config.default.Valid by decide) .empty .empty
  obtain ⟨-, -, -, -, ⟨t, ht⟩, hcounts⟩ := Server.peers_kept hnew hrun
  have hmem : (clientAddress 2, 2) ∈ s.peers.list.map fun p => (p.address, p.age) := by
    rw [hages]
    simp
  obtain ⟨p, hp, heq⟩ := List.mem_map.mp hmem
  obtain ⟨haddress, hage⟩ := Prod.mk.inj heq
  obtain ⟨n, hn, hcount⟩ := hcounts t ht p hp
  refine ⟨hages, t, ht, ?_⟩
  rw [← haddress, hn]
  rw [hage] at hcount
  have htwo : (2 : UInt32).toNat = 2 := rfl
  rw [htwo] at hcount
  congr
  omega

end Recency

end Microweb

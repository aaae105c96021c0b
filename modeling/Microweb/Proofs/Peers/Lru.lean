import Microweb.Proofs.Peers

/-!
The pool of peers as a list that is kept in the order of last activity. The specification takes one
peer at a time (`Lru.round`, `Lru.enter`); the pool puts those with one outcome together at once,
and filters and cuts. Whatever is admitted and polled, both are one list (`Peers.lru`).
-/

namespace Microweb

variable {H : Type}

namespace Lru

/-! ### One peer at a time -/

/-- The list without the peer at an end point. -/
def without (a : SocketAddress) (l : List (Peer H)) : List (Peer H) :=
  l.eraseP fun p => p.address == a

/-- What one outcome makes of the list: an active peer moves to the front, an idle one stays where
it is, and one that has to go is deleted. -/
def settleOne (l : List (Peer H)) : Peer H × Activity → List (Peer H)
  | (p, .active) => p :: without p.address l
  | (_, .idle) => l
  | (p, .evict) => without p.address l

/-- A round of polls with one outcome for each peer: one peer after the other, in their order before
the round. -/
def round (l : List (Peer H)) (outcomes : List Activity) : List (Peer H) :=
  (l.zip outcomes).foldl settleOne l

/-- A new peer: the one of its host is deleted, then the last one if the list is still full, and the
new one comes to the front. -/
def enter (capacity : Nat) (l : List (Peer H)) (p : Peer H) : List (Peer H) :=
  let others := l.eraseP fun q => q.address.host == p.address.host
  p :: if others.length < capacity then others else others.dropLast

theorem without_append_cons {front rest : List (Peer H)} {p : Peer H}
    (h : p.address ∉ front.map Peer.address) :
    without p.address (front ++ p :: rest) = front ++ rest := by
  unfold without
  rw [List.eraseP_append_right, List.eraseP_cons_of_pos (by simp)]
  intro q hq heq
  exact h (List.mem_map.mpr ⟨q, hq, eq_of_beq heq⟩)

/-! ### All peers at once -/

/-- The peers with an outcome. -/
def withFate (l : List (Peer H × Activity)) (a : Activity) : List (Peer H) :=
  (l.filter fun x => x.2 == a).map Prod.fst

/-- **A round that is under way.** In front are the peers that were active, the last first, behind
them those that were idle, and then those whose turn is to come. -/
theorem foldl_settleOne (active idle : List (Peer H)) (todo : List (Peer H × Activity))
    (h : ((active ++ (idle ++ todo.map Prod.fst)).map Peer.address).Nodup) :
    todo.foldl settleOne (active ++ (idle ++ todo.map Prod.fst)) =
      (withFate todo .active).reverse ++ (active ++ (idle ++ withFate todo .idle)) := by
  induction todo generalizing active idle with
  | nil => simp [withFate]
  | cons x todo ih =>
    obtain ⟨p, a⟩ := x
    rw [List.foldl_cons, List.map_cons, ← List.append_assoc]
    rw [List.map_cons, ← List.append_assoc, List.map_append, List.map_cons] at h
    have hfront : p.address ∉ (active ++ idle).map Peer.address := by
      intro hmem
      exact (List.nodup_append.mp h).2.2 _ hmem _ List.mem_cons_self rfl
    have hwithout : without p.address (active ++ idle ++ p :: todo.map Prod.fst) =
        active ++ idle ++ todo.map Prod.fst := without_append_cons hfront
    have hpeers := List.perm_middle.nodup_iff.mp h
    cases a with
    | active =>
      have hnext := ih (p :: active) idle (by simpa using hpeers)
      simp only [settleOne, hwithout]
      rw [List.append_assoc]
      refine hnext.trans ?_
      simp [withFate]
    | idle =>
      have hnext := ih active (idle ++ [p]) (by simpa using h)
      simp only [settleOne]
      rw [List.append_assoc, List.append_cons]
      refine hnext.trans ?_
      simp [withFate]
    | evict =>
      have hnext := ih active idle (by simpa using (List.nodup_cons.mp hpeers).2)
      simp only [settleOne, hwithout]
      rw [List.append_assoc]
      refine hnext.trans ?_
      simp [withFate]

end Lru

namespace Peers

theorem withOutcome_eq {l : List (Peer H)} {outcomes : List Activity}
    (hlen : outcomes.length = l.length) (a : Activity) :
    withOutcome l outcomes a = Lru.withFate (l.zip outcomes) a := by
  have hzip : l.zip outcomes = l.zipIdx.map fun x => (x.1, outcomes.getD x.2 .idle) := by
    refine List.ext_getElem (by simp [hlen]) fun i hi _ => ?_
    have hi' : i < outcomes.length := by simp at hi; omega
    simp [List.getD_eq_getElem?_getD, List.getElem?_eq_getElem hi']
  rw [Lru.withFate, hzip, List.filter_map, List.map_map, withOutcome]
  rfl

/-- **A round of polls** may be settled one peer after the other. -/
theorem settle_eq_round {ps : Peers H} {outcomes : List Activity}
    (hnodup : (ps.list.map Peer.address).Nodup) (hlen : outcomes.length = ps.list.length) :
    (ps.settle outcomes).1.list = Lru.round ps.list outcomes := by
  have hfst : (ps.list.zip outcomes).map Prod.fst = ps.list := List.map_fst_zip (by omega)
  have hround := Lru.foldl_settleOne [] [] (ps.list.zip outcomes) (by simpa [hfst] using hnodup)
  simp only [List.nil_append, hfst] at hround
  rw [Lru.round, hround, ← withOutcome_eq hlen, ← withOutcome_eq hlen]
  rfl

/-- If no two peers are of one host, the others are left when the one of a host is deleted. -/
theorem filter_host_ne {l : List (Peer H)} (h : (l.map fun p => p.address.host).Nodup)
    (host : HostAddress) : l.filter (fun p => p.address.host != host) =
      l.eraseP fun p => p.address.host == host := by
  induction l with
  | nil => rfl
  | cons p l ih =>
    rw [List.map_cons, List.nodup_cons] at h
    by_cases hp : p.address.host = host
    · rw [List.filter_cons_of_neg (by simp [hp]), List.eraseP_cons_of_pos (by simp [hp]),
        List.filter_eq_self]
      intro q hq
      refine bne_iff_ne.mpr fun heq => h.1 ?_
      rw [hp, ← heq]
      exact List.mem_map_of_mem hq
    · rw [List.filter_cons_of_pos (by simp [hp]), List.eraseP_cons_of_neg (by simp [hp]), ih h.2]

/-- **A new peer** makes of the pool what it makes of the list. -/
theorem enrol_eq_enter {ps : Peers H} (hpos : 1 ≤ ps.capacity)
    (hlen : ps.list.length ≤ ps.capacity)
    (hnodup : (ps.list.map fun p => p.address.host).Nodup) (p : Peer H) :
    (ps.enrol p).1.list = Lru.enter ps.capacity ps.list p := by
  unfold enrol Lru.enter
  simp only [filter_host_ne hnodup]
  have hle := (List.eraseP_sublist (p := fun q : Peer H => q.address.host == p.address.host)
    (l := ps.list)).length_le
  split_ifs with hroom
  · rw [List.take_of_length_le (by omega)]
  · rw [List.dropLast_eq_take]
    congr 2
    omega

/-- **One peer makes room** for a new one if there is one of its host or the pool is full, and else
none. -/
theorem length_displaced {ps : Peers H} (hpos : 1 ≤ ps.capacity)
    (hlen : ps.list.length ≤ ps.capacity)
    (hnodup : (ps.list.map fun p => p.address.host).Nodup) (p : Peer H) :
    (ps.enrol p).2.length =
      if (∃ q ∈ ps.list, q.address.host = p.address.host) ∨ ps.list.length = ps.capacity then 1
      else 0 := by
  have htotal := (ps.enrol_perm p).length_eq
  have herase := List.length_eraseP (l := ps.list)
    (p := fun q : Peer H => q.address.host == p.address.host)
  have hany : (ps.list.any fun q => q.address.host == p.address.host) = true ↔
      ∃ q ∈ ps.list, q.address.host = p.address.host := by simp
  rw [List.length_append, enrol_eq_enter hpos hlen hnodup, Lru.enter, List.length_cons,
    List.length_cons, apply_ite List.length, List.length_dropLast] at htotal
  by_cases hsame : ∃ q ∈ ps.list, q.address.host = p.address.host
  · have hne : 1 ≤ ps.list.length := by
      obtain ⟨q, hq, -⟩ := hsame
      exact List.length_pos_of_mem hq
    rw [if_pos (hany.mpr hsame)] at herase
    rw [if_pos (.inl hsame)]
    split_ifs at htotal <;> omega
  · rw [if_neg (mt hany.mp hsame)] at herase
    simp only [hsame, false_or]
    split_ifs at htotal ⊢ <;> omega

/-! ### Any admissions and polls -/

/-- The peers, with these ages. -/
def aged (l : List (Peer H)) (ages : List UInt32) : List (Peer H) :=
  l.zipWith (fun p age => { p with age }) ages

/-- **A pool that was reached** from an empty one, and the list that the same admissions and polls
make. The polls of a round age the peers before it is settled. -/
inductive Reached (capacity : Nat) : Peers H → List (Peer H) → Prop
  | empty : Reached capacity (.empty capacity) []
  | admission {ps : Peers H} {l : List (Peer H)} (h : Reached capacity ps l) (p : Peer H) :
    Reached capacity (ps.enrol p).1 (Lru.enter capacity l p)
  | polls {ps : Peers H} {l : List (Peer H)} {ages : List UInt32} (h : Reached capacity ps l)
    (hages : ages.length = ps.list.length) :
    Reached capacity { ps with list := aged ps.list ages } (aged l ages)
  | outcomes {ps : Peers H} {l : List (Peer H)} {outcomes : List Activity}
    (h : Reached capacity ps l) (hone : outcomes.length = ps.list.length) :
    Reached capacity (ps.settle outcomes).1 (Lru.round l outcomes)

theorem map_address_aged {l : List (Peer H)} {ages : List UInt32} (h : ages.length = l.length) :
    (aged l ages).map Peer.address = l.map Peer.address := by
  refine List.ext_getElem (by simp [aged, h]) fun i _ _ => ?_
  simp [aged]

theorem nodup_address {l : List (Peer H)} (h : (l.map fun p => p.address.host).Nodup) :
    (l.map Peer.address).Nodup := by
  refine List.Nodup.of_map SocketAddress.host ?_
  rwa [List.map_map]

/-- **What is true of a pool that was reached.** -/
theorem Reached.kept {capacity : Nat} (hpos : 1 ≤ capacity) {ps : Peers H} {l : List (Peer H)}
    (h : Reached capacity ps l) : ps.list = l ∧ ps.capacity = capacity ∧
      ps.list.length ≤ capacity ∧ (ps.list.map fun p => p.address.host).Nodup := by
  induction h with
  | empty => exact ⟨rfl, rfl, Nat.zero_le _, .nil⟩
  | admission _ p ih =>
    obtain ⟨rfl, rfl, hlen, hnodup⟩ := ih
    exact ⟨enrol_eq_enter hpos hlen hnodup p, rfl, length_enrol_le hpos p, nodup_enrol hnodup p⟩
  | @polls ps l ages _ hages ih =>
    obtain ⟨rfl, rfl, hlen, hnodup⟩ := ih
    have haddress := map_address_aged hages
    have hhost := congrArg (List.map SocketAddress.host) haddress
    rw [List.map_map, List.map_map] at hhost
    have hlength := congrArg List.length haddress
    rw [List.length_map, List.length_map] at hlength
    exact ⟨rfl, rfl, hlength ▸ hlen, hhost ▸ hnodup⟩
  | @outcomes ps l outcomes _ hone ih =>
    obtain ⟨rfl, rfl, hlen, hnodup⟩ := ih
    have hperm := ps.settle_perm outcomes
    have hlength := hperm.length_eq
    rw [List.length_append] at hlength
    have hhosts := (hperm.map fun p => p.address.host).nodup_iff.mpr hnodup
    rw [List.map_append] at hhosts
    exact ⟨settle_eq_round (nodup_address hnodup) hone, rfl, by omega, hhosts.of_append_left⟩

/-- **The pool is a list in the order of last activity.** After any admissions and polls it is the
list that is made of them one peer at a time; it is within its capacity and has no two peers of one
host. From there on, a round settles its peers as if one by one, a new peer makes room and comes to
the front, and what is returned is what has left: one peer if the new one is of the host of another
or the pool is full, and else none. -/
theorem lru {capacity : Nat} (hpos : 1 ≤ capacity) {ps : Peers H} {l : List (Peer H)}
    (h : Reached capacity ps l) :
    ps.list = l ∧ ps.list.length ≤ capacity ∧ (ps.list.map fun p => p.address.host).Nodup ∧
      (∀ outcomes, outcomes.length = ps.list.length →
        (ps.settle outcomes).1.list = Lru.round ps.list outcomes ∧
        ((ps.settle outcomes).1.list ++ (ps.settle outcomes).2).Perm ps.list) ∧
      ∀ p, (ps.enrol p).1.list = Lru.enter capacity ps.list p ∧
        ((ps.enrol p).1.list ++ (ps.enrol p).2).Perm (p :: ps.list) ∧
        (ps.enrol p).2.length =
          if (∃ q ∈ ps.list, q.address.host = p.address.host) ∨ ps.list.length = capacity then 1
          else 0 := by
  obtain ⟨hlist, rfl, hlen, hnodup⟩ := h.kept hpos
  refine ⟨hlist, hlen, hnodup, fun outcomes hone => ?_, fun p => ?_⟩
  · exact ⟨settle_eq_round (nodup_address hnodup) hone, ps.settle_perm outcomes⟩
  · exact ⟨enrol_eq_enter hpos hlen hnodup p, ps.enrol_perm p,
      length_displaced hpos hlen hnodup p⟩

/-- A round with all outcomes for a full pool of four, and a second peer of one of its hosts. -/
theorem lru_four :
    let peer := fun (n : UInt8) (port : UInt16) =>
      Peer.fresh n.toNat (.ofV4 10 0 0 n port) "/ws.lua"
    let ps := [4, 3, 2, 1].foldl (fun ps n => (ps.enrol (peer n 1)).1) (Peers.empty 4)
    (ps.settle [.idle, .evict, .active, .idle]).1.list = [peer 3 1, peer 1 1, peer 4 1] ∧
      (ps.enrol (peer 2 5)).1.list = [peer 2 5, peer 1 1, peer 3 1, peer 4 1] ∧
      (ps.enrol (peer 2 5)).2.length = 1 ∧ (ps.enrol (peer 5 1)).2.length = 1 := by
  intro peer ps
  have hreached : Reached 4 ps _ :=
    (((Reached.empty.admission (peer 4 1)).admission (peer 3 1)).admission
      (peer 2 1)).admission (peer 1 1)
  obtain ⟨-, -, -, hsettle, henrol⟩ := lru (by decide) hreached
  refine ⟨?_, ?_, ?_, ?_⟩
  · rw [(hsettle _ (by decide)).1]
    decide +kernel
  · rw [(henrol _).1]
    decide +kernel
  · rw [(henrol _).2.2]
    decide +kernel
  · rw [(henrol _).2.2]
    decide +kernel

end Peers

end Microweb

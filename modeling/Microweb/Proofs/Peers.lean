import Mathlib.Data.List.Nodup
import Microweb.Socket.Peers

/-!
No peer is lost and none appears twice: what an operation of the pool leaves in it and what it
returns are, in some order, the peers that there were and the one that came.
-/

namespace Microweb.Peers

variable {H : Type}

/-! ### A new peer -/

/-- **A new peer.** The pool with it and the peers that made room for it are those that there were
and the new one. -/
theorem enrol_perm (ps : Peers H) (p : Peer H) :
    ((ps.enrol p).1.list ++ (ps.enrol p).2).Perm (p :: ps.list) := by
  let others := ps.list.filter fun q => q.address.host != p.address.host
  let same := ps.list.filter fun q => q.address.host == p.address.host
  let kept := others.take (ps.capacity - 1)
  let dropped := (others.drop (ps.capacity - 1)).reverse
  have hsplit : (same ++ others).Perm ps.list := by
    have h := List.filter_append_perm (fun q : Peer H => q.address.host == p.address.host) ps.list
    simpa [same, others, bne] using h
  have hcut : (kept ++ dropped).Perm others := by
    have h := (List.reverse_perm (others.drop (ps.capacity - 1))).append_left kept
    rwa [List.take_append_drop] at h
  have hswap : (kept ++ (same ++ dropped)).Perm (same ++ (kept ++ dropped)) := by
    rw [← List.append_assoc, ← List.append_assoc]
    exact List.perm_append_comm.append_right _
  show (p :: kept ++ (same ++ dropped)).Perm (p :: ps.list)
  exact (hswap.trans ((hcut.append_left same).trans hsplit)).cons p

/-- A peer in the pool with a new one is that one, or was there. -/
theorem eq_or_mem_of_enrol {ps : Peers H} {p q : Peer H} (hq : q ∈ (ps.enrol p).1.list) :
    q = p ∨ q ∈ ps.list :=
  List.mem_cons.mp ((ps.enrol_perm p).subset (List.mem_append_left _ hq))

theorem length_enrol_le {ps : Peers H} (hpos : 0 < ps.capacity) (p : Peer H) :
    (ps.enrol p).1.list.length ≤ ps.capacity := by
  have hlen : ((ps.list.filter fun q => q.address.host != p.address.host).take
      (ps.capacity - 1)).length ≤ ps.capacity - 1 := List.length_take_le _ _
  show List.length _ + 1 ≤ ps.capacity
  omega

/-- The others that are left are of other hosts. -/
theorem nodup_enrol {ps : Peers H} (h : (ps.list.map fun q => q.address.host).Nodup) (p : Peer H) :
    ((ps.enrol p).1.list.map fun q => q.address.host).Nodup := by
  let others := ps.list.filter fun q => q.address.host != p.address.host
  have hsub : (others.take (ps.capacity - 1)).Sublist ps.list :=
    (List.take_sublist _ _).trans List.filter_sublist
  show ((p :: others.take (ps.capacity - 1)).map fun q => q.address.host).Nodup
  rw [List.map_cons, List.nodup_cons]
  refine ⟨fun hmem => ?_, h.sublist (hsub.map _)⟩
  obtain ⟨q, hq, heq⟩ := List.mem_map.mp hmem
  have hother := (List.mem_filter.mp (List.mem_of_mem_take hq)).2
  simp [heq] at hother

/-! ### A round of polls -/

theorem filter_outcomes_perm {α : Type} (f : α → Activity) (l : List α) :
    ((l.filter (f · == .active) ++ l.filter (f · == .idle)) ++
      l.filter (f · == .evict)).Perm l := by
  induction l with
  | nil => exact List.Perm.refl _
  | cons x l ih =>
    cases hx : f x
    · simpa [List.filter_cons, hx] using ih
    · have hmid : (l.filter (f · == .active) ++
          x :: (l.filter (f · == .idle) ++ l.filter (f · == .evict))).Perm
          (x :: (l.filter (f · == .active) ++
            (l.filter (f · == .idle) ++ l.filter (f · == .evict)))) := List.perm_middle
      rw [List.append_assoc] at ih
      simpa [List.filter_cons, hx] using hmid.trans (ih.cons x)
    · have hmid : ((l.filter (f · == .active) ++ l.filter (f · == .idle)) ++
          x :: l.filter (f · == .evict)).Perm
          (x :: ((l.filter (f · == .active) ++ l.filter (f · == .idle)) ++
            l.filter (f · == .evict))) := List.perm_middle
      simpa [List.filter_cons, hx] using hmid.trans (ih.cons x)

theorem withOutcome_perm (ps : List (Peer H)) (outcomes : List Activity) :
    ((withOutcome ps outcomes .active ++ withOutcome ps outcomes .idle) ++
      withOutcome ps outcomes .evict).Perm ps := by
  have h := (filter_outcomes_perm (fun q : Peer H × Nat => outcomes.getD q.2 .idle)
    ps.zipIdx).map Prod.fst
  rw [List.zipIdx_map_fst] at h
  simpa [withOutcome, List.map_append] using h

/-- **A round of polls.** Those that stay and those that leave are those that were polled. -/
theorem settle_perm (ps : Peers H) (outcomes : List Activity) :
    ((ps.settle outcomes).1.list ++ (ps.settle outcomes).2).Perm ps.list := by
  refine List.Perm.trans ?_ (withOutcome_perm ps.list outcomes)
  exact ((List.reverse_perm _).append_right _).append_right _

end Microweb.Peers

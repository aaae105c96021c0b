import Mathlib.Logic.Relation
import Microweb.Proofs.Slots
import Microweb.Server

/-!
The runs of a server: what each part of a tick can do to it, what can happen around it, and the
states that a server comes to by both.
-/

namespace Microweb

variable {P : Platform}

namespace Server

/-! ### The parts of a tick -/

/-- **What an accept can do**: nothing, as all slots are taken; put a new connection into a slot;
or bring nothing but an error. There always is a slot for a connection that was accepted. -/
theorem accept_cases (s : Server P) :
    s.accept = s ∨
    (∃ conn h i slots, s.host.accept s.acceptWait = (.ok conn, h) ∧
      s.slots.insert? (.fresh conn) = some (i, slots) ∧
      s.accept = { s with
        slots
        host := (h.setTimeouts conn h.control.timeouts).note
          (.accepted (P.network.address conn)) }) ∨
    ∃ e h h', s.host.accept s.acceptWait = (.error e, h) ∧ s.accept = { s with host := h' } ∧
      (h' = h ∨ h' = h.note (.acceptFailed e) ∨
        h' = { h.note (.listenerFailed e) with control := h.control.stop }) := by
  unfold accept
  split
  · exact .inl rfl
  · next hfull =>
    split
    · next conn h heq =>
      right; left
      have hsome := (Slots.isSome_insert?_iff s.slots (.fresh conn)).mpr (by simpa using hfull)
      obtain ⟨⟨i, slots⟩, hins⟩ := Option.isSome_iff_exists.mp hsome
      refine ⟨conn, h, i, slots, heq, hins, ?_⟩
      simp only [place, hins]
    · next e h heq =>
      right; right
      refine ⟨e, h, ?_⟩
      split
      · exact ⟨h, heq, rfl, .inl rfl⟩
      · split
        · exact ⟨_, heq, rfl, .inr (.inr rfl)⟩
        · exact ⟨_, heq, rfl, .inr (.inl rfl)⟩

/-- **What the unit of work of a slot can do**: nothing, as the slot is free; take the connection
on to a step that is not its last; or take it to its end, free the slot and close the connection,
if the slot still owns it. -/
theorem stepSlot_cases (s : Server P) (i : Nat) :
    s.slots.get? i = none ∧ s.stepSlot i = s ∨
    ∃ c c' peers h, s.slots.get? i = some c ∧ c.step s.config s.peers s.host = (c', peers, h) ∧
      (c'.phase = .closed ∧ s.stepSlot i = { s with
          slots := (s.slots.remove i).2
          peers
          host := c'.release (h.note (.slotFree i c'.kind)) } ∨
        c'.phase ≠ .closed ∧
          s.stepSlot i = { s with slots := s.slots.set i c', peers, host := h }) := by
  unfold stepSlot
  split
  · next hnone => exact .inl ⟨hnone, rfl⟩
  · next c hsome =>
    refine .inr ⟨c, _, _, _, hsome, rfl, ?_⟩
    by_cases hclosed : (c.step s.config s.peers s.host).1.phase = .closed
    · exact .inl ⟨hclosed, if_pos hclosed⟩
    · exact .inr ⟨hclosed, if_neg hclosed⟩

theorem config_accept (s : Server P) : s.accept.config = s.config := by
  obtain ha | ⟨conn, h, i, slots, -, -, ha⟩ | ⟨e, h, h', -, ha, -⟩ := s.accept_cases <;> rw [ha]

/-- **What an accept does to the host**: it asks the network, and may note something; it may clear
the flag, and never sets it. -/
theorem host_accept (s : Server P) :
    (s.accept.host.network = s.host.network ∨
      ∃ r n, P.network.accept s.acceptWait s.host.network = (r, n) ∧
        (s.accept.host.network = n ∨
          ∃ c t, s.accept.host.network = P.network.setTimeouts c t n)) ∧
      (s.accept.host.control = s.host.control ∨ s.accept.host.control = s.host.control.stop) ∧
      s.host.log <:+ s.accept.host.log ∧
      s.accept.host = { s.host with
        network := s.accept.host.network
        control := s.accept.host.control
        log := s.accept.host.log } := by
  obtain ha | ⟨conn, h, i, slots, heq, -, ha⟩ | ⟨e, h, h', heq, ha, hcases⟩ := s.accept_cases
  · rw [ha]
    exact ⟨.inl rfl, .inl rfl, List.suffix_refl _, rfl⟩
  · obtain ⟨-, rfl⟩ := Prod.ext_iff.mp heq
    rw [ha]
    exact ⟨.inr ⟨_, _, rfl, .inr ⟨_, _, rfl⟩⟩, .inl rfl, List.suffix_cons _ _, rfl⟩
  · obtain ⟨-, rfl⟩ := Prod.ext_iff.mp heq
    rw [ha]
    obtain rfl | rfl | rfl := hcases
    · exact ⟨.inr ⟨_, _, rfl, .inl rfl⟩, .inl rfl, List.suffix_refl _, rfl⟩
    · exact ⟨.inr ⟨_, _, rfl, .inl rfl⟩, .inl rfl, List.suffix_cons _ _, rfl⟩
    · exact ⟨.inr ⟨_, _, rfl, .inl rfl⟩, .inr rfl, List.suffix_cons _ _, rfl⟩

theorem peers_accept (s : Server P) : s.accept.peers = s.peers := by
  obtain ha | ⟨conn, h, i, slots, -, -, ha⟩ | ⟨e, h, h', -, ha, -⟩ := s.accept_cases <;> rw [ha]

/-- An accept asks the network alone. -/
theorem accept_frame (s : Server P) : s.accept.peers = s.peers ∧
    s.accept.host.volume = s.host.volume ∧ s.accept.host.interpreter = s.host.interpreter := by
  obtain ⟨-, -, -, heq⟩ := s.host_accept
  rw [heq]
  exact ⟨s.peers_accept, rfl, rfl⟩

/-- What was noted stays in the log. -/
theorem log_accept (s : Server P) : s.host.log <:+ s.accept.host.log :=
  s.host_accept.2.2.1

/-- Once the server is to stop, an accept does not let it run again. -/
theorem isRunning_accept {s : Server P} (h : s.isRunning = false) : s.accept.isRunning = false := by
  obtain ⟨-, hcontrol, -⟩ := s.host_accept
  unfold isRunning
  obtain heq | heq := hcontrol <;> rw [heq]
  · exact h
  · rfl

theorem config_stepSlot (s : Server P) (i : Nat) : (s.stepSlot i).config = s.config := by
  obtain ⟨-, ht⟩ | ⟨c, c', peers, h, -, -, ⟨-, ht⟩ | ⟨-, ht⟩⟩ := s.stepSlot_cases i <;> rw [ht]

/-- The unit of work of a slot whose connection goes on. -/
theorem stepSlot_of_open {s : Server P} {i : Nat} {c : Client P} (hget : s.slots.get? i = some c)
    (hopen : (c.step s.config s.peers s.host).1.phase ≠ .closed) :
    s.stepSlot i = { s with
      slots := s.slots.set i (c.step s.config s.peers s.host).1
      peers := (c.step s.config s.peers s.host).2.1
      host := (c.step s.config s.peers s.host).2.2 } := by
  unfold stepSlot
  rw [hget]
  exact if_neg hopen

/-! ### Nothing to do -/

theorem stepSlots_of_free {s : Server P} (h : s.slots.items = []) : s.stepSlots = s := by
  have hnone : s.slots.occupied = [] := by
    refine List.eq_nil_iff_forall_not_mem.mpr fun i hi => ?_
    obtain ⟨c, hget⟩ := Slots.mem_occupied_iff.mp hi
    have hmem := Slots.mem_items_of_get? hget
    rw [h] at hmem
    cases hmem
  rw [stepSlots, hnone]
  rfl

theorem poll_of_no_peers {s : Server P} (h : s.peers.list = []) : s.poll = s := by
  have hempty : s.peers.isEmpty = true := by rw [Peers.isEmpty, h]; rfl
  unfold poll Polling.round
  rw [if_pos hempty]

/-! ### The connections in slots -/

/-- What is true of a new connection and of all connections in slots is true of them after an
accept. -/
theorem forall_items_accept {I : Client P → Prop} (s : Server P) (fresh : ∀ conn, I (.fresh conn))
    (hs : ∀ c ∈ s.slots.items, I c) : ∀ c ∈ s.accept.slots.items, I c := by
  obtain ha | ⟨conn, h, i, slots, -, hins, ha⟩ | ⟨e, h, h', -, ha, -⟩ := s.accept_cases
  · rwa [ha]
  · obtain ⟨before, after, hold, hnew⟩ := Slots.exists_items_eq_of_insert? hins
    rw [ha]
    intro c hc
    have hc : c ∈ before ++ .fresh conn :: after := by rwa [← hnew]
    obtain hc | rfl | hc : c ∈ before ∨ c = .fresh conn ∨ c ∈ after := by simpa using hc
    · exact hs c (by rw [hold]; exact List.mem_append_left _ hc)
    · exact fresh conn
    · exact hs c (by rw [hold]; exact List.mem_append_right _ hc)
  · rwa [ha]

/-- What is true of all connections in slots is true of them after one of them took a step, if it
is true of what that one has become. -/
theorem forall_items_stepSlot {I : Client P → Prop} (s : Server P) (i : Nat)
    (step : ∀ c, s.slots.get? i = some c → (c.step s.config s.peers s.host).1.phase ≠ .closed →
      I (c.step s.config s.peers s.host).1)
    (hs : ∀ c ∈ s.slots.items, I c) : ∀ c ∈ (s.stepSlot i).slots.items, I c := by
  obtain ⟨-, ht⟩ | ⟨c, c', peers, h, hget, hstep, hcases⟩ := s.stepSlot_cases i
  · rwa [ht]
  · obtain ⟨before, after, hitems, hremoved, hset⟩ := Slots.exists_items_eq hget
    have hothers : ∀ d ∈ before ++ after, I d := by
      intro d hd
      refine hs d ?_
      rw [hitems]
      obtain hd | hd := List.mem_append.mp hd
      · exact List.mem_append_left _ hd
      · exact List.mem_append_right _ (List.mem_cons_of_mem _ hd)
    obtain ⟨-, ht⟩ | ⟨hopen, ht⟩ := hcases
    · rw [ht]
      intro d hd
      rw [hremoved] at hd
      exact hothers d hd
    · have hown := step c hget
      rw [hstep] at hown
      rw [ht]
      intro d hd
      rw [hset] at hd
      obtain hd | rfl | hd : d ∈ before ∨ d = c' ∨ d ∈ after := by simpa using hd
      · exact hothers d (List.mem_append_left _ hd)
      · exact hown hopen
      · exact hothers d (List.mem_append_right _ hd)

/-! ### One slot in a tick -/

/-- An accept leaves the connections in slots where they are. -/
theorem get?_accept {s : Server P} {i : Nat} {c : Client P} (hget : s.slots.get? i = some c) :
    s.accept.slots.get? i = some c := by
  obtain ha | ⟨conn, h, j, slots, -, hins, ha⟩ | ⟨e, h, h', -, ha, -⟩ := s.accept_cases
  · rwa [ha]
  · rw [ha]
    exact Slots.get?_of_insert? hins hget
  · rwa [ha]

/-- The unit of work of one slot leaves the others alone. -/
theorem get?_stepSlot_of_ne (s : Server P) {i j : Nat} (hne : j ≠ i) :
    (s.stepSlot j).slots.get? i = s.slots.get? i := by
  obtain ⟨-, ht⟩ | ⟨c, c', peers, h, -, -, ⟨-, ht⟩ | ⟨-, ht⟩⟩ := s.stepSlot_cases j
  · rw [ht]
  · rw [ht]
    exact Slots.get?_remove_of_ne hne
  · rw [ht]
    exact Slots.get?_set_of_ne hne

/-- What the units of work of other slots keep, many of them keep. -/
theorem foldl_stepSlot_induction {I : Server P → Prop} {i : Nat} {l : List Nat} (hnot : i ∉ l)
    (step : ∀ s j, j ≠ i → I s → I (s.stepSlot j)) {s : Server P} (hs : I s) :
    I (l.foldl stepSlot s) := by
  induction l generalizing s with
  | nil => exact hs
  | cons j l ih =>
    obtain ⟨hne, hnot⟩ := not_or.mp (mt List.mem_cons.mpr hnot)
    exact ih hnot (step s j (Ne.symm hne) hs)

theorem get?_foldl_stepSlot {s : Server P} {i : Nat} {l : List Nat} (hnot : i ∉ l) :
    (l.foldl stepSlot s).slots.get? i = s.slots.get? i ∧
      (l.foldl stepSlot s).config = s.config := by
  refine foldl_stepSlot_induction
    (I := fun t => t.slots.get? i = s.slots.get? i ∧ t.config = s.config) hnot
    (fun t j hne ⟨hget, hconfig⟩ => ?_) ⟨rfl, rfl⟩
  exact ⟨(t.get?_stepSlot_of_ne hne).trans hget, (t.config_stepSlot j).trans hconfig⟩

/-- **One slot in a tick.** The unit of work of a slot that is taken stands between those of other
slots. -/
theorem exists_tick_eq {s : Server P} {i : Nat} {c : Client P}
    (hget : s.accept.slots.get? i = some c) : ∃ before after : List Nat, i ∉ before ∧ i ∉ after ∧
      s.tick = (after.foldl stepSlot ((before.foldl stepSlot s.accept).stepSlot i)).poll := by
  obtain ⟨before, after, hl, hbefore, hafter⟩ := Slots.exists_occupied_eq hget
  refine ⟨before, after, hbefore, hafter, ?_⟩
  show (s.accept.slots.occupied.foldl stepSlot s.accept).poll = _
  rw [hl, List.foldl_append, List.foldl_cons]

/-- **A tick does one step** for each connection that is in a slot after its accept, and frees the
slot if the step was the last. -/
theorem get?_tick {s : Server P} {i : Nat} {c : Client P}
    (hget : s.accept.slots.get? i = some c) : ∃ peers h,
      (c.step s.config peers h).1.phase = .closed ∧ s.tick.slots.get? i = none ∨
        (c.step s.config peers h).1.phase ≠ .closed ∧
          s.tick.slots.get? i = some (c.step s.config peers h).1 := by
  obtain ⟨before, after, hbefore, hafter, htick⟩ := exists_tick_eq hget
  obtain ⟨hgetb, hconfigb⟩ := get?_foldl_stepSlot (s := s.accept) hbefore
  obtain ⟨hgeta, -⟩ := get?_foldl_stepSlot (s := (before.foldl stepSlot s.accept).stepSlot i) hafter
  have hslot : s.tick.slots.get? i =
      ((before.foldl stepSlot s.accept).stepSlot i).slots.get? i := by
    rw [htick]
    exact hgeta
  rw [hget] at hgetb
  rw [config_accept] at hconfigb
  rw [hslot]
  generalize before.foldl stepSlot s.accept = t at hgetb hconfigb
  refine ⟨t.peers, t.host, ?_⟩
  obtain ⟨hnone, -⟩ | ⟨d, d', peers, h, hd, hstep, hcases⟩ := t.stepSlot_cases i
  · rw [hgetb] at hnone
    cases hnone
  · rw [hgetb] at hd
    cases hd
    rw [hconfigb] at hstep
    rw [hstep]
    obtain ⟨hclosed, ht⟩ | ⟨hopen, ht⟩ := hcases
    · rw [ht]
      exact .inl ⟨hclosed, Slots.get?_remove_self⟩
    · rw [ht]
      exact .inr ⟨hopen, Slots.get?_set_self (Slots.lt_of_get? hgetb)⟩

/-! ### Moments of a tick -/

/-- The server within a tick, after the units of work of so many slots. -/
def midTick (s : Server P) (k : Nat) : Server P :=
  (s.accept.slots.occupied.take k).foldl stepSlot s.accept

theorem midTick_succ (s : Server P) (k : Nat) :
    s.midTick (k + 1) = s.midTick k ∨ ∃ i, s.midTick (k + 1) = (s.midTick k).stepSlot i := by
  unfold midTick
  by_cases h : k < s.accept.slots.occupied.length
  · right
    refine ⟨s.accept.slots.occupied[k], ?_⟩
    rw [List.take_succ_eq_append_getElem h, List.foldl_append]
    rfl
  · left
    rw [List.take_of_length_le (by omega), List.take_of_length_le (by omega)]

/-- **A slot that becomes free** within a tick takes its item out of the items, and no other. -/
theorem exists_items_eq_of_freed {s : Server P} {k i : Nat} {c : Client P}
    (hget : (s.midTick k).slots.get? i = some c)
    (hfree : (s.midTick (k + 1)).slots.get? i = none) :
    ∃ before after, (s.midTick k).slots.items = before ++ c :: after ∧
      (s.midTick (k + 1)).slots.items = before ++ after := by
  obtain heq | ⟨j, heq⟩ := s.midTick_succ k
  · rw [heq, hget] at hfree
    cases hfree
  · rw [heq] at hfree ⊢
    obtain ⟨-, ht⟩ | ⟨c', d, peers, h, hget', -, hcases⟩ := (s.midTick k).stepSlot_cases j
    · rw [ht, hget] at hfree
      cases hfree
    · have hj : j = i := by
        by_contra hne
        obtain ⟨-, ht⟩ | ⟨-, ht⟩ := hcases
        · rw [ht] at hfree
          simp only [Slots.get?_remove_of_ne hne, hget] at hfree
          cases hfree
        · rw [ht] at hfree
          simp only [Slots.get?_set_of_ne hne, hget] at hfree
          cases hfree
      subst hj
      rw [hget] at hget'
      cases hget'
      obtain ⟨before, after, hitems, hremoved, -⟩ := Slots.exists_items_eq hget
      obtain ⟨-, ht⟩ | ⟨-, ht⟩ := hcases
      · rw [ht]
        exact ⟨before, after, hitems, hremoved⟩
      · rw [ht] at hfree
        simp only [Slots.get?_set_self (Slots.lt_of_get? hget)] at hfree
        cases hfree

/-- **The moment of one slot in a tick.** The unit of work of a slot that is taken is done at one of
the moments, and the slot stays as it was until then and as it is from then on. -/
theorem exists_midTick_eq {s : Server P} {i : Nat} {c : Client P}
    (hget : s.accept.slots.get? i = some c) : ∃ k < s.accept.slots.occupied.length,
      (s.midTick k).slots.get? i = some c ∧ s.midTick (k + 1) = (s.midTick k).stepSlot i ∧
        s.tick.slots.get? i = (s.midTick (k + 1)).slots.get? i := by
  obtain ⟨before, after, hl, hbefore, hafter⟩ := Slots.exists_occupied_eq hget
  have hk : s.midTick before.length = before.foldl stepSlot s.accept := by
    rw [midTick, hl, List.take_left]
  have hk' : s.midTick (before.length + 1) = (s.midTick before.length).stepSlot i := by
    rw [hk, midTick, hl, show before ++ i :: after = (before ++ [i]) ++ after by simp,
      List.take_left' (by simp), List.foldl_append]
    rfl
  refine ⟨before.length, by simp [hl], ?_, hk', ?_⟩
  · rw [hk, (get?_foldl_stepSlot hbefore).1, hget]
  · have htick : s.tick = (after.foldl stepSlot (s.midTick (before.length + 1))).poll := by
      show (s.accept.slots.occupied.foldl stepSlot s.accept).poll = _
      rw [hl, hk', hk, List.foldl_append, List.foldl_cons]
    rw [htick]
    exact (get?_foldl_stepSlot hafter).1

theorem tick_eq (s : Server P) : s.tick = (s.midTick s.accept.slots.occupied.length).poll := by
  unfold midTick
  rw [List.take_length]
  rfl

/-- What holds after the accept and each unit of work keeps holds at every moment of a tick. -/
theorem midTick_of_accept {I : Server P → Prop} (stepSlot : ∀ s i, I s → I (s.stepSlot i))
    {s : Server P} (h : I s.accept) (k : Nat) : I (s.midTick k) := by
  induction k with
  | zero => exact h
  | succ k ih =>
    obtain heq | ⟨i, heq⟩ := s.midTick_succ k
    · rwa [heq]
    · rw [heq]
      exact stepSlot _ i ih

/-- What an accept and each unit of work keep holds at every moment of a tick. -/
theorem midTick_induction {I : Server P → Prop} (accept : ∀ s, I s → I s.accept)
    (stepSlot : ∀ s i, I s → I (s.stepSlot i)) {s : Server P} (h : I s) (k : Nat) :
    I (s.midTick k) :=
  midTick_of_accept stepSlot (accept s h) k

/-- What holds after the accept and each unit of work and a round of polls keep holds after a
tick. -/
theorem tick_of_accept {I : Server P → Prop} (stepSlot : ∀ s i, I s → I (s.stepSlot i))
    (poll : ∀ s, I s → I s.poll) {s : Server P} (h : I s.accept) : I s.tick := by
  rw [tick_eq]
  exact poll _ (midTick_of_accept stepSlot h _)

/-- What an accept, each unit of work and a round of polls keep, a tick keeps. -/
theorem tick_induction {I : Server P → Prop} (accept : ∀ s, I s → I s.accept)
    (stepSlot : ∀ s i, I s → I (s.stepSlot i)) (poll : ∀ s, I s → I s.poll) {s : Server P}
    (h : I s) : I s.tick :=
  tick_of_accept stepSlot poll (accept s h)

theorem config_tick (s : Server P) : s.tick.config = s.config :=
  tick_induction (I := fun t => t.config = s.config) (fun t h => (config_accept t).trans h)
    (fun t i h => (config_stepSlot t i).trans h) (fun _ h => h) rfl

end Server

/-! ### What happens around a server -/

/-- How the parts of a platform may change while the server itself does nothing. -/
structure Surroundings (P : Platform) where
  network : P.network.State → P.network.State → Prop
  volume : P.volume.State → P.volume.State → Prop
  interpreter : P.interpreter.State → P.interpreter.State → Prop

namespace Server

variable {A : Surroundings P}

/-- One thing that happens to a server which is not shut down. The board and the time change as
they like. -/
inductive Step (A : Surroundings P) : Server P → Server P → Prop
  | tick (s : Server P) : Step A s s.tick
  | stop (s : Server P) : Step A s s.stop
  | setTimeouts (s : Server P) (receive send : Duration) : Step A s (s.setTimeouts receive send)
  | around (s : Server P) {network : P.network.State} {volume : P.volume.State}
      {interpreter : P.interpreter.State} (board : P.peripherals.State) (uptime : Nat)
      (hn : A.network s.host.network network) (hv : A.volume s.host.volume volume)
      (hi : A.interpreter s.host.interpreter interpreter) :
      Step A s { s with host := { s.host with network, volume, interpreter, board, uptime } }

/-- One thing that happens to a server besides its ticks. -/
inductive Aside (A : Surroundings P) (s : Server P) : Server P → Prop
  | stop : Aside A s s.stop
  | setTimeouts (receive send : Duration) : Aside A s (s.setTimeouts receive send)
  | around {network : P.network.State} {volume : P.volume.State}
      {interpreter : P.interpreter.State} (board : P.peripherals.State) (uptime : Nat)
      (hn : A.network s.host.network network) (hv : A.volume s.host.volume volume)
      (hi : A.interpreter s.host.interpreter interpreter) :
      Aside A s { s with host := { s.host with network, volume, interpreter, board, uptime } }

theorem Step.tick_or_aside {s s' : Server P} (h : Step A s s') : s' = s.tick ∨ Aside A s s' := by
  cases h with
  | tick => exact .inl rfl
  | stop => exact .inr .stop
  | setTimeouts receive send => exact .inr (.setTimeouts receive send)
  | around board uptime hn hv hi => exact .inr (.around board uptime hn hv hi)

theorem Aside.step {s s' : Server P} (h : Aside A s s') : Step A s s' := by
  cases h with
  | stop => exact .stop s
  | setTimeouts receive send => exact .setTimeouts s receive send
  | around board uptime hn hv hi => exact .around s board uptime hn hv hi

/-- Between ticks a server stays as it is, but for its host. -/
theorem Aside.frame {s s' : Server P} (h : Aside A s s') :
    s'.config = s.config ∧ s'.slots = s.slots ∧ s'.peers = s.peers := by
  cases h <;> exact ⟨rfl, rfl, rfl⟩

/-- The server, with its network changed. -/
def onNetwork (s : Server P) (f : P.network.State → P.network.State) : Server P :=
  { s with host := { s.host with network := f s.host.network } }

/-- The network may change alone, if the others may stay. -/
theorem Aside.onNetwork (hv : ∀ v, A.volume v v) (hi : ∀ i, A.interpreter i i) (s : Server P)
    (f : P.network.State → P.network.State)
    (hn : A.network s.host.network (f s.host.network)) : Aside A s (s.onNetwork f) :=
  .around s.host.board s.host.uptime hn (hv _) (hi _)

theorem Step.onNetwork (hv : ∀ v, A.volume v v) (hi : ∀ i, A.interpreter i i) (s : Server P)
    (f : P.network.State → P.network.State)
    (hn : A.network s.host.network (f s.host.network)) : Step A s (s.onNetwork f) :=
  (Aside.onNetwork hv hi s f hn).step

/-- One thing that happens to a server, shutting down included. -/
inductive Event (A : Surroundings P) : Server P → Server P → Prop
  | step {s s' : Server P} (h : Step A s s') : Event A s s'
  | shutdown (s : Server P) : Event A s s.shutdown

/-- The runs of a server that is not shut down. -/
abbrev Serves (A : Surroundings P) : Server P → Server P → Prop := Relation.ReflTransGen (Step A)

/-- All runs of a server. -/
abbrev Runs (A : Surroundings P) : Server P → Server P → Prop := Relation.ReflTransGen (Event A)

/-- So many ticks of a server that is not shut down, and whatever else happens between them. -/
inductive Passes (A : Surroundings P) (s : Server P) : Nat → Server P → Prop
  | refl : Passes A s 0 s
  | tick {n : Nat} {s' : Server P} (h : Passes A s n s') : Passes A s (n + 1) s'.tick
  | aside {n : Nat} {s' s'' : Server P} (h : Passes A s n s') (ha : Aside A s' s'') :
    Passes A s n s''

theorem Serves.runs {s s' : Server P} (h : Serves A s s') : Runs A s s' :=
  h.lift id fun _ _ hstep => .step hstep

theorem Step.config_eq {s s' : Server P} (h : Step A s s') : s'.config = s.config := by
  cases h with
  | tick => exact config_tick s
  | stop => rfl
  | setTimeouts => rfl
  | around => rfl

theorem Runs.config_eq {s s' : Server P} (h : Runs A s s') : s'.config = s.config := by
  induction h with
  | refl => rfl
  | tail _ hlast ih =>
    cases hlast with
    | step hstep => exact hstep.config_eq.trans ih
    | shutdown => exact ih

/-- **What is true of new connections and kept by their steps** is true of all connections in slots,
on every run. -/
theorem forall_items_runs {I : Config → Client P → Prop} {s s' : Server P}
    (fresh : ∀ config conn, I config (.fresh conn))
    (step : ∀ config c peers h, I config c → (c.step config peers h).1.phase ≠ .closed →
      I config (c.step config peers h).1)
    (hs : ∀ c ∈ s.slots.items, I s.config c) (hrun : Runs A s s') :
    ∀ c ∈ s'.slots.items, I s'.config c := by
  induction hrun with
  | refl => exact hs
  | tail _ hevent ih =>
    cases hevent with
    | step hstep =>
      cases hstep with
      | tick =>
        refine tick_induction (I := fun t => ∀ c ∈ t.slots.items, I t.config c) (fun t ht => ?_)
          (fun t i ht => ?_) (fun _ ht => ht) ih
        · rw [config_accept]
          exact t.forall_items_accept (fresh t.config) ht
        · rw [config_stepSlot]
          refine t.forall_items_stepSlot i (fun c hget hopen => ?_) ht
          exact step t.config c t.peers t.host (ht c (Slots.mem_items_of_get? hget)) hopen
      | stop => exact ih
      | setTimeouts => exact ih
      | around => exact ih
    | shutdown =>
      intro c hc
      rw [show (shutdown _).slots.items = [] from Slots.items_drain] at hc
      cases hc

/-! ### A new server -/

theorem new_eq_ok_iff {config : Config} {network : P.network.State} {volume : P.volume.State}
    {interpreter : P.interpreter.State} {board : P.peripherals.State} {s : Server P} :
    new config network volume interpreter board = .ok s ↔
      config.Valid ∧ s = ⟨config, .free config.maxConnections, .empty config.maxPeers,
        ⟨network, volume, interpreter, board, .start config.timeouts, 0, []⟩⟩ := by
  unfold new Config.Valid
  cases config.fault? with
  | some e => simp
  | none => simp [eq_comm]

end Server

end Microweb

import Microweb.Proofs.Ownership
import Microweb.Proofs.Scope.Server

/-!
What can become of a wire. The server's operations change one wire at most: what was sent on it
stays and at most one write more is sent, an error that writes meet stays, and nothing happens any
more on a wire that is closed. Clients send nothing for the server, and close nothing of its.
-/

namespace Microweb

namespace Bench.Wires

variable {ws ws' : Wires} {hears closes : Handle → Prop} {writes : Handle → Bytes → Prop} {k : Nat}

/-! ### Moves on wires -/

/-- What the server wrote to a wire, the first first. -/
def sent (ws : Wires) (k : Nat) : List Bytes :=
  ((ws.list[k]?).map fun w => w.written.reverse).getD []

/-- A change that depends on the wire is a change to that wire. -/
theorem update_of_getElem? {w : Wire} (f : Wire → Wire) (hw : ws.list[k]? = some w) :
    (ws.update k fun _ => f w) = ws.update k f := by
  have hlist : (ws.update k fun _ => f w).list = (ws.update k f).list := by
    refine List.ext_getElem? fun n => ?_
    rw [getElem?_update, getElem?_update]
    by_cases hn : k = n
    · subst hn
      rw [hw, Option.map_some, Option.map_some, if_pos rfl]
    · simp only [if_neg hn]
  exact congrArg (fun list => { ws with list }) hlist

theorem update_of_none (f : Wire → Wire) (hnone : ws.list[k]? = none) : ws.update k f = ws := by
  rw [update, List.modify_eq_self (List.getElem?_eq_none_iff.mp hnone)]

theorem receive_snd (c : Handle) (room : Nat) (ws : Wires) :
    (receive c room ws).2 = ws.update c.number fun w => (w.receive room).2 := by
  unfold receive
  split
  · next hnone => exact (update_of_none _ hnone).symm
  · next w hw => exact update_of_getElem? (fun w => (w.receive room).2) hw

theorem write_snd (c : Handle) (bs : Bytes) (ws : Wires) :
    (write c bs ws).2 = ws.update c.number fun w => (w.write bs).2 := by
  unfold write
  split
  · next hnone => exact (update_of_none _ hnone).symm
  · next w hw => exact update_of_getElem? (fun w => (w.write bs).2) hw

/-- A write to one end of a wire is sent as a whole, or not at all. -/
theorem wire_write_cases (w : Wire) (bs : Bytes) :
    w.write bs = (.ok (), { w with written := bs :: w.written }) ∨
      ∃ e, w.write bs = (.error e, w) := by
  unfold Wire.write
  split
  · exact .inr ⟨_, rfl⟩
  · split
    · exact .inr ⟨_, rfl⟩
    · exact .inl rfl

/-- **A move** changes one wire at most. -/
inductive Changes (hears : Handle → Prop) (writes : Handle → Bytes → Prop)
    (closes : Handle → Prop) (c : Handle) : (Wire → Wire) → Prop
  | hear {f : Wire → Wire} (hc : hears c) (hwritten : ∀ w, (f w).written = w.written)
    (hclosed : ∀ w, (f w).closed = w.closed) (hfailing : ∀ w, (f w).writeError = w.writeError) :
    Changes hears writes closes c f
  | write {bs : Bytes} (hc : writes c bs) : Changes hears writes closes c fun w => (w.write bs).2
  | close (hc : closes c) : Changes hears writes closes c Wire.close

theorem written_receive (w : Wire) (room : Nat) : (w.receive room).2.written = w.written := by
  unfold Wire.receive
  split
  · rfl
  · split
    · rfl
    · split <;> rfl

theorem writeError_receive (w : Wire) (room : Nat) :
    (w.receive room).2.writeError = w.writeError := by
  unfold Wire.receive
  split
  · rfl
  · split
    · rfl
    · split <;> rfl

theorem exists_update_of_moves (hm : network.Moves hears writes closes ws ws') :
    ∃ c f, Changes hears writes closes c f ∧ ws' = ws.update c.number f := by
  rcases hm with @⟨c, t, hc⟩ | @⟨c, room, hc⟩ | @⟨c, bs, hc⟩ | @⟨c, hc⟩
  · exact ⟨c, fun w => { w with timeouts := some t },
      .hear hc (fun _ => rfl) (fun _ => rfl) fun _ => rfl, rfl⟩
  · exact ⟨c, _, .hear hc (written_receive · room) (closed_receive · room)
      (writeError_receive · room), receive_snd c room ws⟩
  · exact ⟨c, _, .write hc, write_snd c bs ws⟩
  · exact ⟨c, _, .close hc, rfl⟩

/-- Moves that leave a wire alone leave it as it is. -/
theorem getElem?_of_moves (hm : network.Moves hears writes closes ws ws')
    (hh : ∀ c, hears c → c.number ≠ k) (hw : ∀ c bs, writes c bs → c.number ≠ k)
    (hc : ∀ c, closes c → c.number ≠ k) : ws'.list[k]? = ws.list[k]? := by
  obtain ⟨c, f, hf, rfl⟩ := exists_update_of_moves hm
  have hne : c.number ≠ k := by
    cases hf with
    | hear hc' => exact hh c hc'
    | write hc' => exact hw c _ hc'
    | close hc' => exact hc c hc'
  rw [getElem?_update]
  simp only [if_neg hne, Option.map_id']

theorem sent_update (f : Wire → Wire) (c k : Nat) :
    (ws.update c f).sent k =
      ((ws.list[k]?).map fun w => (if c = k then f w else w).written.reverse).getD [] := by
  rw [sent, getElem?_update, Option.map_map]
  rfl

/-- What was sent on a wire stays, and at most one thing more is sent. -/
theorem sent_of_moves (hm : network.Moves hears writes closes ws ws') (k : Nat) :
    ws'.sent k = ws.sent k ∨
      ∃ c bs, writes c bs ∧ c.number = k ∧ ws'.sent k = ws.sent k ++ [bs] := by
  obtain ⟨c, f, hf, rfl⟩ := exists_update_of_moves hm
  rw [sent_update]
  unfold sent
  cases hw : ws.list[k]? with
  | none => exact .inl rfl
  | some w =>
    by_cases hk : c.number = k
    · simp only [if_pos hk, Option.map_some, Option.getD_some]
      cases hf with
      | hear hc hwritten =>
        left
        rw [hwritten]
      | @write bs hc =>
        obtain heq | ⟨e, heq⟩ := wire_write_cases w bs
        · simp only [heq]
          exact .inr ⟨c, bs, hc, hk, List.reverse_cons⟩
        · simp only [heq, true_or]
      | close => exact .inl rfl
    · simp only [if_neg hk, Option.map_some, true_or]

theorem pending_of_moves (hm : network.Moves hears writes closes ws ws') :
    ws'.pending = ws.pending := by
  obtain ⟨c, f, -, rfl⟩ := exists_update_of_moves hm
  rfl

theorem length_of_moves (hm : network.Moves hears writes closes ws ws') :
    ws'.list.length = ws.list.length := by
  obtain ⟨c, f, -, rfl⟩ := exists_update_of_moves hm
  exact length_update ws c.number f

/-- The error that every write to a wire meets. -/
def failure? (ws : Wires) (k : Nat) : Option NetError := (ws.list[k]?).bind Wire.writeError

/-- Changes that leave the error of a wire as it is. -/
theorem failure?_update {f : Wire → Wire} (hf : ∀ w, (f w).writeError = w.writeError)
    (c k : Nat) : (ws.update c f).failure? k = ws.failure? k := by
  unfold failure?
  rw [getElem?_update]
  cases ws.list[k]? with
  | none => rfl
  | some w =>
    rw [Option.map_some, Option.bind_some, Option.bind_some]
    split
    · exact hf w
    · rfl

theorem failure?_of_moves (hm : network.Moves hears writes closes ws ws') (k : Nat) :
    ws'.failure? k = ws.failure? k := by
  obtain ⟨c, f, hf, rfl⟩ := exists_update_of_moves hm
  refine failure?_update (fun w => ?_) c.number k
  cases hf with
  | hear hc hwritten hclosed hfailing => exact hfailing w
  | @write bs hc =>
    obtain heq | ⟨e, heq⟩ := wire_write_cases w bs <;> simp only [heq]
  | close hc => rfl

/-- The server closed its end of that wire after it had sent that. -/
def Ended (ws : Wires) (k : Nat) (bss : List Bytes) : Prop :=
  ws.isClosed k = true ∧ ws.sent k = bss

/-- On a wire that is closed nothing happens any more. -/
theorem Ended.moves {bss : List Bytes} (h : ws.Ended k bss)
    (hm : network.Moves hears writes closes ws ws') : ws'.Ended k bss := by
  obtain ⟨c, f, hf, rfl⟩ := exists_update_of_moves hm
  obtain ⟨hclosed, hsent⟩ := h
  unfold isClosed at hclosed
  unfold sent at hsent
  obtain ⟨w, hw, hwclosed⟩ := (Option.any_eq_true _ _).mp hclosed
  rw [hw] at hsent
  unfold Ended
  rw [isClosed, sent_update, getElem?_update, hw]
  by_cases hk : c.number = k
  · simp only [if_pos hk, Option.map_some, Option.any_some, Option.getD_some]
    cases hf with
    | hear hc hwritten hsame => exact ⟨by rw [hsame, hwclosed], by rw [hwritten]; exact hsent⟩
    | @write bs =>
      have hwrite : (w.write bs).2 = w := by rw [Wire.write, if_pos hwclosed]
      simp only [hwrite]
      exact ⟨hwclosed, hsent⟩
    | close => exact ⟨rfl, hsent⟩
  · simp only [if_neg hk, Option.map_some, Option.any_some, Option.getD_some]
    exact ⟨hwclosed, hsent⟩

/-! ### What clients do -/

/-- Clients send nothing for the server, and close nothing of its. -/
theorem acts_frame (ha : ws.Acts ws') (k : Nat) :
    ws'.sent k = ws.sent k ∧ (ws.isClosed k = true → ws'.isClosed k = true) := by
  have hupdate : ∀ n (f : Wire → Wire), (∀ w, (f w).written = w.written) →
      (∀ w, (f w).closed = w.closed) → (ws.update n f).sent k = ws.sent k ∧
        (ws.isClosed k = true → (ws.update n f).isClosed k = true) := by
    intro n f hwritten hclosed
    refine ⟨?_, fun h => ?_⟩
    · rw [sent_update, sent]
      refine congrArg (Option.getD · []) (congrArg (Option.map · ws.list[k]?) (funext fun w => ?_))
      split
      · rw [hwritten]
      · rfl
    · rwa [isClosed_update fun w _ => hclosed w]
  cases ha with
  | connect address =>
    have hold : ∀ w, ws.list[k]? = some w → (ws.connect address).list[k]? = some w := by
      intro w hw
      exact (List.getElem?_append_left (List.getElem?_eq_some_iff.mp hw).1).trans hw
    cases hw : ws.list[k]? with
    | some w =>
      rw [sent, sent, isClosed, isClosed, hold w hw, hw]
      exact ⟨rfl, id⟩
    | none =>
      rw [sent, sent, isClosed, isClosed, hw]
      refine ⟨?_, fun h => by cases h⟩
      rw [Wires.connect, List.getElem?_append_right (List.getElem?_eq_none_iff.mp hw)]
      cases k - ws.list.length <;> rfl
  | send number segment => exact hupdate _ _ (fun _ => rfl) fun _ => rfl
  | hangUp number => exact hupdate _ _ (fun _ => rfl) fun _ => rfl
  | failReceive number e => exact hupdate _ _ (fun _ => rfl) fun _ => rfl
  | failWrites number e => exact hupdate _ _ (fun _ => rfl) fun _ => rfl
  | failAccept e => exact ⟨rfl, id⟩

/-- A connection that waits waited before, or it is new and nothing was sent to it. -/
theorem pending_of_acts (ha : ws.Acts ws') {c : Handle} (hc : c ∈ ws'.pending) :
    c ∈ ws.pending ∨ ws.sent c.number = [] := by
  cases ha with
  | connect address =>
    obtain hc | hc := List.mem_append.mp hc
    · exact .inl hc
    · right
      cases List.mem_singleton.mp hc
      rw [sent, nextHandle, List.getElem?_eq_none (Nat.le_refl _)]
      rfl
  | send number segment => exact .inl hc
  | hangUp number => exact .inl hc
  | failReceive number e => exact .inl hc
  | failWrites number e => exact .inl hc
  | failAccept e => exact .inl hc

/-- What clients do takes no error away. -/
theorem failure?_of_acts (ha : ws.Acts ws') (hnone : ws'.failure? k = none) :
    ws.failure? k = none := by
  cases ha with
  | connect address =>
    unfold failure? at hnone ⊢
    cases hw : ws.list[k]? with
    | none => rfl
    | some w =>
      have hold : (ws.connect address).list[k]? = some w :=
        (List.getElem?_append_left (List.getElem?_eq_some_iff.mp hw).1).trans hw
      rwa [hold] at hnone
  | send number segment => rwa [failure?_update fun w => by rfl] at hnone
  | hangUp number => rwa [failure?_update fun w => by rfl] at hnone
  | failReceive number e => rwa [failure?_update fun w => by rfl] at hnone
  | failWrites number e =>
    unfold failure? at hnone ⊢
    rw [getElem?_update] at hnone
    cases hw : ws.list[k]? with
    | none => rfl
    | some w =>
      rw [hw, Option.map_some, Option.bind_some] at hnone
      split at hnone
      · cases hnone
      · exact hnone
  | failAccept e => exact hnone

/-! ### Writes -/

/-- **A write** is sent as a whole, or not at all. -/
theorem write_cases (c : Handle) (bs : Bytes) (ws : Wires) :
    (write c bs ws).1 = .ok () ∧
        (write c bs ws).2.sent c.number = ws.sent c.number ++ [bs] ∨
      ∃ e, write c bs ws = (.error e, ws) := by
  unfold write
  split
  · exact .inr ⟨_, rfl⟩
  · next w hw =>
    obtain heq | ⟨e, heq⟩ := wire_write_cases w bs
    · refine .inl ⟨by rw [heq], ?_⟩
      rw [heq, sent_update, sent, hw]
      simp
    · have hsame : (ws.update c.number fun _ => w) = ws := by
        rw [← id_eq w, update_of_getElem? id hw, update, List.modify_id]
      exact .inr ⟨e, by simp only [heq, hsame]⟩

/-- The wire is there, the server has not closed its end, and writes do not fail. -/
structure Writable (ws : Wires) (k : Nat) : Prop where
  lt : k < ws.list.length
  isOpen : ws.isClosed k = false
  fine : ws.failure? k = none

theorem Writable.write {c : Handle} (h : ws.Writable c.number) (bs : Bytes) :
    (write c bs ws).1 = .ok () := by
  have hw := List.getElem?_eq_getElem h.lt
  have hopen := h.isOpen
  have hfine := h.fine
  rw [isClosed, hw, Option.any_some] at hopen
  rw [failure?, hw, Option.bind_some] at hfine
  unfold Wires.write Wire.write
  rw [hw]
  simp only [hopen, hfine, Bool.false_eq_true, if_false]

theorem Writable.after_write (h : ws.Writable k) {c : Handle} (bs : Bytes) :
    (Wires.write c bs ws).2.Writable k := by
  rw [write_snd]
  refine ⟨?_, ?_, ?_⟩
  · rw [length_update]
    exact h.lt
  · rw [isClosed_update fun w _ => closed_write w bs]
    exact h.isOpen
  · rw [failure?_update fun w => ?_]
    · exact h.fine
    · obtain heq | ⟨e, heq⟩ := wire_write_cases w bs <;> rw [heq]

/-- What a receive brings depends on the wire alone. -/
theorem receive_congr {c : Handle} (h : ws'.list[c.number]? = ws.list[c.number]?) (room : Nat) :
    (receive c room ws').1 = (receive c room ws).1 := by
  unfold receive
  rw [h]
  split <;> rfl

end Bench.Wires

variable {V : Volume} {I : Interpreter} {B : Peripherals}

/-! ### Scopes on wires -/

namespace Scope.Reaches

variable {a : Scope (.wired V I B)} {g h : Host (.wired V I B)} {k : Nat}

/-- A wire that is left alone stays as it is. -/
theorem wire_eq (hr : a.Reaches g h) (hh : ∀ c, a.hears c → c.number ≠ k)
    (hw : ∀ c bs, a.writes c bs → c.number ≠ k) (hc : ∀ c, a.closes c → c.number ≠ k) :
    h.network.list[k]? = g.network.list[k]? :=
  hr.network_induction (I := fun ws : Bench.Wires => ws.list[k]? = g.network.list[k]?)
    (fun _ _ hm ih => (Bench.Wires.getElem?_of_moves hm hh hw hc).trans ih) rfl

/-- Where nothing is written, nothing was sent. -/
theorem sent_eq (hr : a.Reaches g h) (hw : ∀ c bs, a.writes c bs → c.number ≠ k) :
    h.network.sent k = g.network.sent k := by
  refine hr.network_induction (I := fun ws : Bench.Wires => ws.sent k = g.network.sent k)
    (fun s s' hm ih => ?_) rfl
  obtain heq | ⟨c, bs, hc, hk, -⟩ := Bench.Wires.sent_of_moves hm k
  · exact heq.trans ih
  · exact absurd hk (hw c bs hc)

/-- What is sent besides was written within the scope. -/
theorem exists_sent_eq (hr : a.Reaches g h) (k : Nat) :
    ∃ more, h.network.sent k = g.network.sent k ++ more ∧
      ∀ bs ∈ more, ∃ c, c.number = k ∧ a.writes c bs := by
  refine hr.network_induction (I := fun ws : Bench.Wires => ∃ more,
    ws.sent k = g.network.sent k ++ more ∧ ∀ bs ∈ more, ∃ c, c.number = k ∧ a.writes c bs)
    (fun s s' hm ih => ?_)
    ⟨[], (List.append_nil _).symm, by nofun⟩
  obtain ⟨more, hsent, hmore⟩ := ih
  obtain heq | ⟨c, bs, hc, hk, heq⟩ := Bench.Wires.sent_of_moves hm k
  · exact ⟨more, heq.trans hsent, hmore⟩
  · refine ⟨more ++ [bs], by rw [heq, hsent, List.append_assoc], fun bs' hbs' => ?_⟩
    obtain hbs' | hbs' := List.mem_append.mp hbs'
    · exact hmore bs' hbs'
    · cases List.mem_singleton.mp hbs'
      exact ⟨c, hk, hc⟩

theorem length_eq (hr : a.Reaches g h) : h.network.list.length = g.network.list.length :=
  hr.network_induction (I := fun ws : Bench.Wires => ws.list.length = g.network.list.length)
    (fun _ _ hm ih => (Bench.Wires.length_of_moves hm).trans ih) rfl

theorem pending_eq (hr : a.Reaches g h) : h.network.pending = g.network.pending :=
  hr.network_induction (I := fun ws : Bench.Wires => ws.pending = g.network.pending)
    (fun _ _ hm ih => (Bench.Wires.pending_of_moves hm).trans ih) rfl

theorem failure?_eq (hr : a.Reaches g h) (k : Nat) : h.network.failure? k = g.network.failure? k :=
  hr.network_induction (I := fun ws : Bench.Wires => ws.failure? k = g.network.failure? k)
    (fun _ _ hm ih => (Bench.Wires.failure?_of_moves hm k).trans ih) rfl

theorem ended (hr : a.Reaches g h) {bss : List Bytes} (hg : g.network.Ended k bss) :
    h.network.Ended k bss :=
  hr.network_induction (I := fun ws : Bench.Wires => ws.Ended k bss)
    (fun _ _ hm ih => ih.moves hm) hg

theorem isClosed (hr : a.Reaches g h) (hg : g.network.isClosed k = true) :
    h.network.isClosed k = true := by
  have hended : g.network.Ended k (g.network.sent k) := ⟨hg, rfl⟩
  exact (hr.ended hended).1

end Scope.Reaches

end Microweb

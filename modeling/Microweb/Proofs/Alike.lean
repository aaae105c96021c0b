import Microweb.Proofs.Concur
import Microweb.Proofs.Segments
import Microweb.Proofs.Wiring

/-!
What an answer depends on. A frame is answered from the board, the interpreter and as much of the
network as writes to its peer depend on and change, and the answer changes nothing else but the log.
So hosts that are *alike* in these three stay alike when the same frames are served on both, and the
peer is answered the same. On wires the writes to a peer depend on its own wire.
-/

namespace Microweb

variable {P : Platform} {O : Type}

/-- The view of a network tells all that writes to a connection depend on and change. -/
def Network.IsOutlet (N : Network) (c : N.Conn) (view : N.State → O) : Prop :=
  ∀ ⦃s t : N.State⦄, view s = view t → ∀ bs,
    (N.write c bs s).1 = (N.write c bs t).1 ∧ view (N.write c bs s).2 = view (N.write c bs t).2

namespace Host

/-- Hosts that a peer cannot tell apart whose writes depend on that view of the network. -/
structure AlikeBy (view : P.network.State → O) (g h : Host P) : Prop where
  board : g.board = h.board
  interpreter : g.interpreter = h.interpreter
  outlet : view g.network = view h.network

/-- The same result, and hosts that are alike. -/
structure ConcurBy (view : P.network.State → O) {α : Type} (x y : α × Host P) : Prop where
  result : x.1 = y.1
  host : x.2.AlikeBy view y.2

/-- What follows such results may assume that they are one. -/
@[elab_as_elim]
theorem ConcurBy.elim {view : P.network.State → O} {α : Type}
    {motive : α × Host P → α × Host P → Prop} {x y : α × Host P} (hxy : ConcurBy view x y)
    (same : ∀ r g h, AlikeBy view g h → motive (r, g) (r, h)) : motive x y := by
  obtain ⟨r, g⟩ := x
  obtain ⟨r', h⟩ := y
  obtain ⟨heq, ha⟩ := hxy
  obtain rfl : r = r' := heq
  exact same r g h ha

namespace AlikeBy

variable {view : P.network.State → O} {f g h : Host P}

theorem refl (view : P.network.State → O) (h : Host P) : AlikeBy view h h := ⟨rfl, rfl, rfl⟩

theorem symm (ha : AlikeBy view g h) : AlikeBy view h g :=
  ⟨ha.board.symm, ha.interpreter.symm, ha.outlet.symm⟩

theorem trans (hfg : AlikeBy view f g) (hgh : AlikeBy view g h) : AlikeBy view f h :=
  ⟨hfg.board.trans hgh.board, hfg.interpreter.trans hgh.interpreter, hfg.outlet.trans hgh.outlet⟩

theorem note (ha : AlikeBy view g h) (n : Notice) : AlikeBy view (g.note n) (h.note n) :=
  ⟨ha.board, ha.interpreter, ha.outlet⟩

/-! ### The operations of a host -/

theorem setQuery (ha : AlikeBy view g h) (q : Query) :
    AlikeBy view (g.setQuery q) (h.setQuery q) :=
  ⟨ha.board, congrArg (P.interpreter.setQuery q) ha.interpreter, ha.outlet⟩

theorem setGlobal (ha : AlikeBy view g h) (name value : String) :
    AlikeBy view (g.setGlobal name value) (h.setGlobal name value) :=
  ⟨ha.board, congrArg (P.interpreter.setGlobal name value) ha.interpreter, ha.outlet⟩

theorem release (ha : AlikeBy view g h) (x : P.Script) :
    AlikeBy view (g.release x) (h.release x) :=
  ⟨ha.board, congrArg (P.interpreter.release x) ha.interpreter, ha.outlet⟩

theorem collect (ha : AlikeBy view g h) : AlikeBy view g.collect h.collect :=
  ⟨ha.board, congrArg P.interpreter.collect ha.interpreter, ha.outlet⟩

theorem load (ha : AlikeBy view g h) (path : String) :
    ConcurBy view (g.load path) (h.load path) := by
  unfold Host.load
  split
  · exact ⟨congrArg (fun s => (P.interpreter.load path s).1) ha.interpreter, ha.board,
      congrArg (fun s => (P.interpreter.load path s).2) ha.interpreter, ha.outlet⟩
  · exact ⟨congrArg (fun s => (P.interpreter.load path s).1) ha.interpreter, ha.board,
      congrArg (fun s => (P.interpreter.load path s).2) ha.interpreter, ha.outlet⟩

theorem call (ha : AlikeBy view g h) (x : P.Script) : ConcurBy view (g.call x) (h.call x) :=
  ⟨congrArg (fun s => (P.interpreter.call x s).1) ha.interpreter, ha.board,
    congrArg (fun s => (P.interpreter.call x s).2) ha.interpreter, ha.outlet⟩

theorem command (ha : AlikeBy view g h) (payload : Bytes) :
    ConcurBy view (g.command payload) (h.command payload) :=
  ⟨congrArg (fun s => (Command.handle (B := P.peripherals) payload s).1) ha.board,
    congrArg (fun s => (Command.handle (B := P.peripherals) payload s).2) ha.board,
    ha.interpreter, ha.outlet⟩

theorem write {c : P.Conn} (ha : AlikeBy view g h) (hview : P.network.IsOutlet c view)
    (bs : Bytes) : ConcurBy view (g.write c bs) (h.write c bs) := by
  obtain ⟨hfst, hsnd⟩ := hview ha.outlet bs
  exact ⟨hfst, ha.board, ha.interpreter, hsnd⟩

/-! ### Answers -/

variable {p : Peer P.Conn} (hview : P.network.IsOutlet p.handle view)
include hview

/-- What an answer is made of keeps hosts alike. -/
theorem answersKeep : AnswersKeep (AlikeBy view) p.handle where
  note ha := ha.note
  setQuery ha := ha.setQuery
  setGlobal ha := ha.setGlobal
  load ha path := ⟨(ha.load path).result, (ha.load path).host⟩
  call ha x := ⟨(ha.call x).result, (ha.call x).host⟩
  release ha := ha.release
  collect ha := ha.collect
  command ha payload := ⟨(ha.command payload).result, (ha.command payload).host⟩
  write ha bs := ⟨(ha.write hview bs).result, (ha.write hview bs).host⟩

theorem serveOne (ha : AlikeBy view g h) (config : Config) (f : Frame) :
    ConcurBy view (Polling.serveOne config p f g) (Polling.serveOne config p f h) := by
  unfold Polling.serveOne
  refine ((answersKeep hview).answer ha config p f).elim fun reply g₁ h₁ ha₁ => ?_
  have hsend := (answersKeep hview).send ha₁ reply
  exact ⟨hsend.result, hsend.host⟩

/-- **Frames are served alike.** -/
theorem serveAll (ha : AlikeBy view g h) (config : Config) (fs : List Frame) :
    ConcurBy view (Polling.serveAll config p fs g) (Polling.serveAll config p fs h) := by
  induction fs generalizing g h with
  | nil => exact ⟨rfl, ha⟩
  | cons f fs ih =>
    unfold Polling.serveAll
    refine (ha.serveOne hview config f).elim fun stay g₁ h₁ ha₁ => ?_
    cases stay with
    | false => exact ⟨rfl, ha₁⟩
    | true => exact ih ha₁

end AlikeBy

end Host

/-! ### On wires -/

namespace Bench

/-- What writes to a wire depend on and change. -/
def Wire.outlet (w : Wire) : List Bytes × Bool × Option NetError :=
  (w.written, w.closed, w.writeError)

theorem Wire.write_congr {w v : Wire} (h : w.outlet = v.outlet) (bs : Bytes) :
    (w.write bs).1 = (v.write bs).1 ∧ (w.write bs).2.outlet = (v.write bs).2.outlet := by
  have ⟨hwritten, hclosed, hfailing⟩ : w.written = v.written ∧ w.closed = v.closed ∧
      w.writeError = v.writeError := by simpa [outlet] using h
  unfold write
  rw [hclosed, hfailing]
  split
  · exact ⟨rfl, h⟩
  · split
    · exact ⟨rfl, h⟩
    · refine ⟨rfl, ?_⟩
      simp only [outlet, hwritten]

namespace Wires

def outlet? (ws : Wires) (k : Nat) : Option (List Bytes × Bool × Option NetError) :=
  (ws.list[k]?).map Wire.outlet

theorem sent_eq_of_outlet? {ws vs : Wires} {k : Nat} (h : ws.outlet? k = vs.outlet? k) :
    ws.sent k = vs.sent k := by
  have hsent : ∀ us : Wires, us.sent k = ((us.outlet? k).map fun o => o.1.reverse).getD [] := by
    intro us
    rw [sent, outlet?, Option.map_map]
    rfl
  rw [hsent, hsent, h]

theorem isClosed_eq_of_outlet? {ws vs : Wires} {k : Nat} (h : ws.outlet? k = vs.outlet? k) :
    ws.isClosed k = vs.isClosed k := by
  have hclosed : ∀ us : Wires, us.isClosed k = (us.outlet? k).any fun o => o.2.1 := by
    intro us
    rw [isClosed, outlet?, Option.any_map]
    rfl
  rw [hclosed, hclosed, h]

theorem outlet?_update {ws : Wires} {f : Wire → Wire} (hf : ∀ w, (f w).outlet = w.outlet)
    (n k : Nat) : (ws.update n f).outlet? k = ws.outlet? k := by
  unfold outlet?
  rw [getElem?_update, Option.map_map]
  refine congrArg (Option.map · ws.list[k]?) (funext fun w => ?_)
  simp only [Function.comp]
  split
  · exact hf w
  · rfl

/-- A write depends on its wire alone, and changes no other. -/
theorem write_congr {ws vs : Wires} {c : Handle} (h : ws.outlet? c.number = vs.outlet? c.number)
    (bs : Bytes) : (write c bs ws).1 = (write c bs vs).1 ∧
      (write c bs ws).2.outlet? c.number = (write c bs vs).2.outlet? c.number := by
  rw [write_snd, write_snd]
  unfold write
  unfold outlet? at h ⊢
  rw [getElem?_update, getElem?_update]
  cases hw : ws.list[c.number]? with
  | none =>
    rw [hw] at h
    cases hv : vs.list[c.number]? with
    | none => exact ⟨rfl, rfl⟩
    | some v =>
      rw [hv] at h
      cases h
  | some w =>
    rw [hw] at h
    cases hv : vs.list[c.number]? with
    | none =>
      rw [hv] at h
      cases h
    | some v =>
      rw [hv] at h
      obtain ⟨hfst, hsnd⟩ := Wire.write_congr (Option.some.inj h) bs
      simp only [Option.map_some, if_true]
      exact ⟨hfst, congrArg some hsnd⟩

theorem isOutlet (c : Handle) : network.IsOutlet c fun ws => ws.outlet? c.number :=
  fun _ _ h bs => write_congr h bs

end Wires

end Bench

variable {V : Volume} {I : Interpreter} {B : Peripherals}

namespace Host

/-- Hosts that a peer on that wire cannot tell apart. -/
structure Alike (k : Nat) (g h : Host (.wired V I B)) : Prop where
  board : g.board = h.board
  interpreter : g.interpreter = h.interpreter
  outlet : g.network.outlet? k = h.network.outlet? k

/-- The same result, and hosts that are alike. -/
structure Concur (k : Nat) {α : Type} (x y : α × Host (.wired V I B)) : Prop where
  result : x.1 = y.1
  host : x.2.Alike k y.2

theorem alike_iff {k : Nat} {g h : Host (.wired V I B)} :
    Alike k g h ↔ AlikeBy (P := .wired V I B) (fun ws => ws.outlet? k) g h :=
  ⟨fun ha => ⟨ha.board, ha.interpreter, ha.outlet⟩, fun ha => ⟨ha.board, ha.interpreter, ha.outlet⟩⟩

namespace Alike

variable {k : Nat} {f g h : Host (.wired V I B)}

theorem symm (ha : Alike k g h) : Alike k h g :=
  ⟨ha.board.symm, ha.interpreter.symm, ha.outlet.symm⟩

theorem serveAll {p : Peer Bench.Handle} (ha : Alike p.handle.number g h) (config : Config)
    (fs : List Frame) :
    Concur p.handle.number (Polling.serveAll config p fs g) (Polling.serveAll config p fs h) := by
  have hconcur := (alike_iff.mp ha).serveAll (Bench.Wires.isOutlet p.handle) config fs
  exact ⟨hconcur.result, alike_iff.mpr hconcur.host⟩

end Alike

end Host

end Microweb

import Microweb.Proofs.Lifetime
import Microweb.Proofs.Scope

/-!
Platforms that are audited: every write is on record with what became of it, and the interpreter is
on record as well. So all that a connection writes in its life, and all that it asks the interpreter
for, can be read off the hosts that it meets and leaves.
-/

namespace Microweb

/-! ### Writes on record -/

/-- A write to a connection, and what became of it. -/
structure Write (C : Type) where
  conn : C
  bytes : Bytes
  result : Except NetError Unit

/-- A network with all writes on record. -/
abbrev Network.audited (N : Network) : Network where
  State := Recorded N.State (Write N.Conn)
  Conn := N.Conn
  address := N.address
  accept wait s :=
    let (r, inner) := N.accept wait s.inner
    (r, { s with inner })
  setTimeouts c t s := { s with inner := N.setTimeouts c t s.inner }
  receive c room s :=
    let (r, inner) := N.receive c room s.inner
    (r, { s with inner })
  write c bs s :=
    let (r, inner) := N.write c bs s.inner
    (r, ⟨inner, ⟨c, bs, r⟩ :: s.trace⟩)
  close c s := { s with inner := N.close c s.inner }
  shutdown s := { s with inner := N.shutdown s.inner }

/-- A platform with all writes and the interpreter on record. -/
abbrev Platform.audited (P : Platform) : Platform :=
  { P with network := P.network.audited, interpreter := P.interpreter.recorded }

/-- What was put on record since, the first first. -/
def Recorded.since {S E : Type} (r r' : Recorded S E) : List E :=
  (r'.trace.take (r'.trace.length - r.trace.length)).reverse

theorem Recorded.since_eq {S E : Type} {r r' : Recorded S E} {new : List E}
    (h : r'.trace = new.reverse ++ r.trace) : r.since r' = new := by
  have hlen : r'.trace.length - r.trace.length = new.reverse.length := by
    rw [h, List.length_append, Nat.add_sub_cancel]
  rw [since, hlen, h, List.take_left' rfl, List.reverse_reverse]

variable {P : Platform}

namespace Host

variable {h h' h'' : Host P.audited} {ws ws' : List (Write P.Conn)} {es es' : List ScriptEvent}

/-- **What lies between two hosts**: these writes, and these requests to the interpreter. -/
structure Adds (h h' : Host P.audited) (ws : List (Write P.Conn)) (es : List ScriptEvent) :
    Prop where
  network : h'.network.trace = ws.reverse ++ h.network.trace
  interpreter : h'.interpreter.trace = es.reverse ++ h.interpreter.trace

namespace Adds

theorem refl (h : Host P.audited) : h.Adds h [] [] := ⟨rfl, rfl⟩

theorem trans (ha : h.Adds h' ws es) (ha' : h'.Adds h'' ws' es') :
    h.Adds h'' (ws ++ ws') (es ++ es') := by
  refine ⟨?_, ?_⟩
  · rw [ha'.network, ha.network, List.reverse_append, List.append_assoc]
  · rw [ha'.interpreter, ha.interpreter, List.reverse_append, List.append_assoc]

theorem of_eq (hnetwork : h'.network = h.network) (hinterpreter : h'.interpreter = h.interpreter) :
    h.Adds h' [] [] :=
  ⟨congrArg Recorded.trace hnetwork, congrArg Recorded.trace hinterpreter⟩

theorem note (ha : h.Adds h' ws es) (n : Notice) : h.Adds (h'.note n) ws es :=
  ⟨ha.network, ha.interpreter⟩

theorem write (h : Host P.audited) (conn : P.Conn) (bs : Bytes) :
    h.Adds (h.write conn bs).2 [⟨conn, bs, (h.write conn bs).1⟩] [] := ⟨rfl, rfl⟩

theorem setQuery (h : Host P.audited) (query : Query) :
    h.Adds (h.setQuery query) [] [.published query] := ⟨rfl, rfl⟩

theorem call (h : Host P.audited) (x : P.audited.Script) :
    h.Adds (h.call x).2 [] [.called x.number] := ⟨rfl, rfl⟩

theorem release (h : Host P.audited) (x : P.audited.Script) :
    h.Adds (h.release x) [] [.released x.number] := ⟨rfl, rfl⟩

theorem collect (h : Host P.audited) : h.Adds h.collect [] [.collected] := ⟨rfl, rfl⟩

theorem load_ok {path : String} {x : P.audited.Script} (hload : h.load path = (.ok x, h')) :
    h.Adds h' [] [.loaded path] := by
  obtain ⟨-, hnetwork, -⟩ := h.load_frame path
  rw [hload] at hnetwork
  exact ⟨congrArg Recorded.trace hnetwork,
    (Interpreter.recorded_load_ok (I := P.interpreter) (Host.load_interpreter hload)).2⟩

theorem load_error {path : String} {e : ScriptError} (hload : h.load path = (.error e, h')) :
    h.Adds h' [] [.refused path] := by
  obtain ⟨-, hnetwork, -⟩ := h.load_frame path
  rw [hload] at hnetwork
  exact ⟨congrArg Recorded.trace hnetwork,
    Interpreter.recorded_load_error (I := P.interpreter) (Host.load_interpreter hload)⟩

end Adds

end Host

theorem ScriptJob.adds_finish (job : ScriptJob P.audited) (h : Host P.audited) :
    h.Adds (job.finish h) [] [.released job.script.number, .collected] :=
  (Host.Adds.release h job.script).trans (.collect _)

/-! ### Before a response -/

section Route

variable (config : Config) (h : Host P)

theorem Host.opensNonempty_frame (path : String) :
    (h.opensNonempty path).2.network = h.network ∧
      (h.opensNonempty path).2.interpreter = h.interpreter := by
  unfold Host.opensNonempty
  split
  · next e h₁ heq =>
    obtain ⟨-, rfl⟩ := Prod.ext_iff.mp heq
    exact ⟨rfl, rfl⟩
  · next f h₁ heq =>
    obtain ⟨-, rfl⟩ := Prod.ext_iff.mp heq
    exact ⟨rfl, rfl⟩

theorem Host.firstNonempty_frame (dir : String) (names : List String) :
    (Host.firstNonempty dir names h).2.network = h.network ∧
      (Host.firstNonempty dir names h).2.interpreter = h.interpreter := by
  induction names generalizing h with
  | nil => exact ⟨rfl, rfl⟩
  | cons name names ih =>
    have hopens := h.opensNonempty_frame (dir ++ "/" ++ name)
    simp only [Host.firstNonempty]
    split
    · next h₁ heq => rwa [heq] at hopens
    · next h₁ heq =>
      rw [heq] at hopens
      exact ⟨(ih h₁).1.trans hopens.1, (ih h₁).2.trans hopens.2⟩

/-- To find the route of a request, the volume alone is asked. -/
theorem Route.find_frame (uri : String) :
    (find config uri h).2.network = h.network ∧
      (find config uri h).2.interpreter = h.interpreter := by
  have hdir : ∀ path, (isDirectory path h).2.network = h.network ∧
      (isDirectory path h).2.interpreter = h.interpreter := by
    intro path
    unfold isDirectory
    split <;> exact ⟨rfl, rfl⟩
  unfold find
  split
  · exact ⟨rfl, rfl⟩
  · next path _ =>
    have hd := hdir path
    split
    · next h₁ heq => rwa [heq] at hd
    · next h₁ heq =>
      rw [heq] at hd
      have hi := h₁.firstNonempty_frame (Content.trimSlashes path) config.indexFiles
      rw [← Host.indexOf] at hi
      split
      · next index h₂ heq₂ =>
        rw [heq₂] at hi
        exact ⟨hi.1.trans hd.1, hi.2.trans hd.2⟩
      · next h₂ heq₂ =>
        rw [heq₂] at hi
        exact ⟨hi.1.trans hd.1, hi.2.trans hd.2⟩

end Route

/-- No response was started yet. -/
def Stage.Unstarted : Stage P → Prop
  | .request => True
  | .begin _ => True
  | _ => False

theorem Stage.Within.not_unstarted {config : Config} {n : Nat} {stage : Stage P}
    (hn : stage.Within config n) : ¬ stage.Unstarted := by
  rcases stage with _ | target | job | job | _
  · exact hn.elim
  · exact hn.elim
  · exact id
  · exact id
  · exact id

/-- There is nothing more to stream. -/
def Stage.Over : Stage P → Prop
  | .ending _ => True
  | .closed => True
  | _ => False

theorem Stage.over_of_closed {stage : Stage P} (h : stage.phase = .closed) : stage.Over := by
  cases stage with
  | closed => trivial
  | _ => cases h

/-- A handshake that does not make the connection a peer writes nothing, or fails to. -/
theorem Handshake.adds_run (conn : P.Conn) (r : Request) (peers : Peers P.Conn)
    (h : Host P.audited) (hfails : (run (P := P.audited) conn r peers h).1 ≠ .upgraded) :
    ∃ ws, h.Adds (run (P := P.audited) conn r peers h).2.2 ws [] ∧
      ∀ w ∈ ws, w.result ≠ .ok () := by
  unfold run at hfails ⊢
  split at hfails
  · next hpeer =>
    rw [if_pos hpeer]
    exact ⟨[], .refl h, List.forall_mem_nil _⟩
  · next hpeer =>
    rw [if_neg hpeer]
    split at hfails
    · exact ⟨[], .refl h, List.forall_mem_nil _⟩
    · next key _ =>
      have hw := Host.Adds.write h conn (Reply.switchingProtocols (Socket.acceptKey key))
      split at hfails
      · next e h₁ heq =>
        rw [heq] at hw
        refine ⟨_, hw, fun w hmem => ?_⟩
        rw [List.mem_singleton.mp hmem]
        rintro ⟨⟩
      · exact absurd rfl hfails

namespace Client

variable {c : Client P.audited} {config : Config} {h : Host P.audited}

/-- **What precedes a response**: the connection keeps its handle, asks the interpreter for nothing
and writes nothing, except for the answer to a handshake that fails as it cannot be written. -/
structure Precedes (c : Client P.audited) (h : Host P.audited)
    (r : Client P.audited × Host P.audited) : Prop where
  conn : r.1.conn = c.conn
  adds : ∃ ws, h.Adds r.2 ws [] ∧ ∀ w ∈ ws, w.result ≠ .ok ()

theorem precedes_serve {g : Host P.audited} {ws : List (Write P.Conn)} (ha : g.Adds h ws [])
    (hws : ∀ w ∈ ws, w.result ≠ .ok ()) (r : Request)
    (hstage : (c.serve config r h).1.stage.Unstarted) : c.Precedes g (c.serve config r h) := by
  obtain ⟨hnetwork, hinterpreter⟩ := Route.find_frame config h r.uri
  simp only [serve] at hstage ⊢
  split at hstage
  · next path h₁ heq =>
    rw [heq] at hnetwork hinterpreter
    refine ⟨rfl, ws, ?_, hws⟩
    simpa using ha.trans (.of_eq hnetwork hinterpreter)
  · next path h₁ heq =>
    rw [heq] at hnetwork hinterpreter
    refine ⟨rfl, ws, ?_, hws⟩
    simpa using ha.trans (.of_eq hnetwork hinterpreter)
  · rw [replyNotFound_eq] at hstage
    exact hstage.elim

theorem precedes_dispatch {g : Host P.audited} (ha : g.Adds h [] []) {conn : P.Conn}
    (r : Request) (peers : Peers P.Conn)
    (hstage : (c.dispatch (P := P.audited) conn config r peers h).1.stage.Unstarted) :
    c.Precedes g ((c.dispatch (P := P.audited) conn config r peers h).1,
      (c.dispatch (P := P.audited) conn config r peers h).2.2) := by
  have hn := ha.note (.request c.address r.uri)
  cases hup : r.wantsUpgrade with
  | false =>
    simp only [dispatch, hup, Bool.false_eq_true, if_false] at hstage ⊢
    exact precedes_serve hn (List.forall_mem_nil _) r hstage
  | true =>
    have hrun := Handshake.adds_run conn r peers (h.note (.request c.address r.uri))
    simp only [dispatch, hup, if_true] at hstage ⊢
    generalize Handshake.run (P := P.audited) conn r peers
      (h.note (.request c.address r.uri)) = run at hrun hstage ⊢
    obtain ⟨_ | _ | e, ps, h₁⟩ := run
    · exact hstage.elim
    · obtain ⟨ws, hadds, hws⟩ := hrun (by rintro ⟨⟩)
      exact precedes_serve ((hn.trans hadds).note _) hws r hstage
    · obtain ⟨ws, hadds, hws⟩ := hrun (by rintro ⟨⟩)
      exact precedes_serve ((hn.trans hadds).note _) hws r hstage

theorem precedes_receive (c : Client P.audited) (config : Config) (peers : Peers P.Conn)
    (h : Host P.audited) (hstage : (c.receive config peers h).1.stage.Unstarted) :
    c.Precedes h ((c.receive config peers h).1, (c.receive config peers h).2.2) := by
  unfold receive at hstage ⊢
  cases hconn : c.conn with
  | none =>
    rw [hconn] at hstage
    exact hstage.elim
  | some conn =>
    rw [hconn] at hstage
    have ha : h.Adds (h.receive conn config.requestRoom).2 [] [] := ⟨rfl, rfl⟩
    simp only at hstage ⊢
    generalize h.receive conn config.requestRoom = received at ha hstage ⊢
    obtain ⟨e | head, h₁⟩ := received
    · by_cases hfatal : e.isFatal = true
      · simp only [hfatal, if_true] at hstage
        exact hstage.elim
      · simp only [if_neg hfatal, wait] at hstage ⊢
        by_cases hlimit : config.requestIdleLimit < c.idle + 1
        · rw [if_pos hlimit] at hstage
          exact hstage.elim
        · rw [if_neg hlimit]
          exact ⟨rfl, [], ha, List.forall_mem_nil _⟩
    · simp only at hstage ⊢
      cases hparse : Request.parse head config.maxUriLength with
      | error e =>
        simp only [hparse] at hstage
        rw [replyNotFound_eq] at hstage
        exact hstage.elim
      | ok r =>
        rw [hparse] at hstage
        exact precedes_dispatch ha r peers hstage

/-! ### After a response -/

/-- A connection that has nothing more to stream ends what it started, and writes nothing. -/
theorem over_step (hover : c.stage.Over) (config : Config) (peers : Peers P.Conn)
    (h : Host P.audited) :
    (c.step config peers h).1.stage.Over ∧ ∃ es, h.Adds (c.step config peers h).2.2 [] es := by
  unfold step
  cases hstage : c.stage with
  | request => exact (hstage ▸ hover).elim
  | «begin» => exact (hstage ▸ hover).elim
  | streaming => exact (hstage ▸ hover).elim
  | ending job =>
    cases job with
    | none => exact ⟨trivial, _, .refl h⟩
    | some job =>
      cases job with
      | file job => exact ⟨trivial, [], rfl, rfl⟩
      | script job => exact ⟨trivial, _, job.adds_finish h⟩
  | closed => exact ⟨hover, _, .refl h⟩

/-! ### What a connection does -/

/-- All that a connection writes in so many steps. -/
def writes (config : Config) (meet : Nat → Peers P.Conn × Host P.audited)
    (c : Client P.audited) : Nat → List (Write P.Conn)
  | 0 => []
  | n + 1 => writes config meet c n ++ (meet n).2.network.since
    ((life config meet c n).step config (meet n).1 (meet n).2).2.2.network

/-- All that a connection asks the interpreter for in so many steps. -/
def asks (config : Config) (meet : Nat → Peers P.Conn × Host P.audited)
    (c : Client P.audited) : Nat → List ScriptEvent
  | 0 => []
  | n + 1 => asks config meet c n ++ (meet n).2.interpreter.since
    ((life config meet c n).step config (meet n).1 (meet n).2).2.2.interpreter

variable {meet : Nat → Peers P.Conn × Host P.audited} {n : Nat}

theorem adds_life {ws : List (Write P.Conn)} {es : List ScriptEvent}
    (ha : (meet n).2.Adds ((life config meet c n).step config (meet n).1 (meet n).2).2.2 ws es) :
    writes config meet c (n + 1) = writes config meet c n ++ ws ∧
      asks config meet c (n + 1) = asks config meet c n ++ es := by
  rw [writes, asks, Recorded.since_eq ha.network, Recorded.since_eq ha.interpreter]
  exact ⟨rfl, rfl⟩

/-- **Until a response starts** nothing was written, and nothing was asked of the interpreter. -/
theorem unstarted_life (conn : P.Conn) (n : Nat)
    (hstage : (life config meet (fresh (P := P.audited) conn) n).stage.Unstarted) :
    (life config meet (fresh (P := P.audited) conn) n).conn = some conn ∧
      (∀ w ∈ writes config meet (fresh (P := P.audited) conn) n, w.result ≠ .ok ()) ∧
      asks config meet (fresh (P := P.audited) conn) n = [] := by
  induction n with
  | zero => exact ⟨rfl, List.forall_mem_nil _, rfl⟩
  | succ n ih =>
    have hprev : (life config meet (fresh (P := P.audited) conn) n).stage = .request := by
      by_contra hr
      obtain ⟨m, hm⟩ := exists_within_step (P := P.audited) config (meet n).1 (meet n).2 hr
      exact hm.not_unstarted hstage
    obtain ⟨hconn, hwrites, hasks⟩ := ih (by rw [hprev]; trivial)
    have hstep : (life config meet (fresh (P := P.audited) conn) n).step config (meet n).1
        (meet n).2 = (life config meet (fresh (P := P.audited) conn) n).receive config (meet n).1
          (meet n).2 := by
      rw [step, hprev]
    rw [life, hstep] at hstage
    obtain ⟨hconn', ws, ha, hws⟩ := precedes_receive _ config (meet n).1 (meet n).2 hstage
    rw [← hstep] at ha hconn'
    obtain ⟨hw, he⟩ := adds_life ha
    refine ⟨hconn'.trans hconn, fun w hmem => ?_, by rw [he, hasks]; rfl⟩
    rw [hw] at hmem
    obtain hmem | hmem := List.mem_append.mp hmem
    · exact hwrites w hmem
    · exact hws w hmem

/-- Once there is nothing more to stream, nothing more is written. -/
theorem writes_of_over (hover : (life config meet c n).stage.Over) {m : Nat} (hle : n ≤ m) :
    (life config meet c m).stage.Over ∧ writes config meet c m = writes config meet c n := by
  induction hle with
  | refl => exact ⟨hover, rfl⟩
  | @step m _ ih =>
    obtain ⟨hover', es, ha⟩ := over_step ih.1 config (meet m).1 (meet m).2
    refine ⟨hover', ?_⟩
    rw [(adds_life ha).1, ih.2, List.append_nil]

theorem writes_mono {m : Nat} (hle : n ≤ m) :
    writes config meet c n <+: writes config meet c m := by
  induction hle with
  | refl => exact List.prefix_refl _
  | step _ ih => exact ih.trans (List.prefix_append _ _)

/-- What is true of all writes up to the last is true of all writes. -/
theorem forall_writes {such : Write P.Conn → Prop}
    (hlast : ∀ m, n ≤ m → writes config meet c m = writes config meet c n)
    (hsuch : ∀ w ∈ writes config meet c n, such w) (m : Nat) :
    ∀ w ∈ writes config meet c m, such w := by
  intro w hw
  obtain hle | hle := Nat.le_total n m
  · exact hsuch w (hlast m hle ▸ hw)
  · exact hsuch w ((writes_mono hle).subset hw)

/-- After a step that writes nothing and leaves nothing to stream, nothing more is written. -/
theorem writes_of_quiet {k m : Nat}
    (hquiet : ((life config meet c k).step config (meet k).1 (meet k).2).1.stage.Over ∧
      ∃ es, (meet k).2.Adds ((life config meet c k).step config (meet k).1 (meet k).2).2.2 [] es)
    (hle : k ≤ m) : writes config meet c m = writes config meet c k := by
  obtain ⟨hover, es, ha⟩ := hquiet
  obtain rfl | hlt := Nat.eq_or_lt_of_le hle
  · rfl
  · rw [(writes_of_over (n := k + 1) hover hlt).2, (adds_life ha).1, List.append_nil]

/-- Once a connection is closed, nothing more is asked of the interpreter. -/
theorem asks_of_closed (hclosed : (life config meet c n).stage = .closed) {m : Nat} (hle : n ≤ m) :
    (life config meet c m).stage = .closed ∧ asks config meet c m = asks config meet c n := by
  induction hle with
  | refl => exact ⟨hclosed, rfl⟩
  | @step m _ ih =>
    have hstep : (life config meet c m).step config (meet m).1 (meet m).2 =
        (life config meet c m, meet m) := by
      rw [step, ih.1]
    have ha : (meet m).2.Adds
        ((life config meet c m).step config (meet m).1 (meet m).2).2.2 [] [] := by
      rw [hstep]
      exact .refl _
    refine ⟨by rw [life, hstep]; exact ih.1, ?_⟩
    rw [(adds_life ha).2, ih.2, List.append_nil]

end Client

end Microweb

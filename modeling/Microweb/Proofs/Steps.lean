import Microweb.Server.Client

/-!
What one step can make of a connection. Each of the ways that a receive or the start of a response
can end is told once; what is said of all steps follows by cases.
-/

namespace Microweb

variable {P : Platform}

theorem Handshake.log_closeDisplaced (ps : List (Peer P.Conn)) (h : Host P) :
    h.log <:+ (closeDisplaced ps h).log := by
  induction ps generalizing h with
  | nil => exact List.suffix_refl _
  | cons p ps ih =>
    have hone : h.log <:+ ((h.note (.displacing p.address)).close p.handle).log :=
      List.suffix_cons _ _
    exact hone.trans (ih _)

/-- A connection that is upgraded joins the pool, and that is noted; otherwise a handshake leaves
the pool as it is. -/
theorem Handshake.pool_run (conn : P.Conn) (r : Request) (peers : Peers P.Conn) (h : Host P) :
    ((run conn r peers h).1 = .upgraded ∧
        (run conn r peers h).2.1 =
          (peers.enrol (.fresh conn (P.network.address conn) r.uri)).1 ∧
        .upgraded (P.network.address conn) r.uri ∈ (run conn r peers h).2.2.log) ∨
      (run conn r peers h).1 ≠ .upgraded ∧ (run conn r peers h).2.1 = peers := by
  unfold run
  split
  · exact .inr ⟨nofun, rfl⟩
  · split
    · exact .inr ⟨nofun, rfl⟩
    · split
      · exact .inr ⟨nofun, rfl⟩
      · exact .inl ⟨rfl, rfl, (log_closeDisplaced _ _).subset List.mem_cons_self⟩

namespace Client

variable {c : Client P} {config : Config} {target : Target} {h : Host P}

/-! ### Receives -/

/-- **What a receive can make of a connection.** -/
inductive Received (config : Config) (c : Client P) : Client P → Prop
  /-- It goes on waiting. -/
  | waits (hle : c.idle + 1 ≤ config.requestIdleLimit) :
    Received config c ({ c with idle := c.idle + 1 }.goTo .request)
  | routed (r : Request) (target : Target) :
    Received config c ({ c with request := some r }.goTo (.begin target))
  /-- It was sent the page for what is not there. -/
  | refused (request : Option Request) : Received config c ({ c with request }.goTo (.ending none))
  | upgraded : Received config c { c with kind := .socket, conn := none, stage := .closed }
  | givenUp (idle : UInt32) : Received config c ({ c with idle }.goTo .closed)

theorem replyNotFound_eq (c : Client P) (url : String) (h : Host P) :
    c.replyNotFound url h = (c.goTo (.ending none), (c.replyNotFound url h).2) := by
  refine Prod.ext ?_ rfl
  unfold replyNotFound
  split
  · rfl
  · split <;> rfl

theorem received_serve (c : Client P) (config : Config) (r : Request) (h : Host P) :
    c.Received config (c.serve config r h).1 := by
  simp only [serve]
  split
  · exact .routed r _
  · exact .routed r _
  · rw [replyNotFound_eq]
    exact .refused (some r)

theorem received_dispatch (c : Client P) (conn : P.Conn) (config : Config) (r : Request)
    (peers : Peers P.Conn) (h : Host P) :
    c.Received config (c.dispatch conn config r peers h).1 := by
  simp only [dispatch]
  split
  · split
    · exact .upgraded
    · exact received_serve _ _ _ _
    · exact received_serve _ _ _ _
  · exact received_serve _ _ _ _

theorem received_wait (c : Client P) (config : Config) (h : Host P) :
    c.Received config (c.wait config h).1 := by
  simp only [wait]
  split
  · exact .givenUp _
  · next hle => exact .waits (by simpa using hle)

theorem received_receive (c : Client P) (config : Config) (peers : Peers P.Conn) (h : Host P) :
    c.Received config (c.receive config peers h).1 := by
  unfold receive
  split
  · exact .givenUp c.idle
  · split
    · split
      · exact .givenUp c.idle
      · exact received_wait _ _ _
    · split
      · rw [replyNotFound_eq]
        exact .refused c.request
      · exact received_dispatch _ _ _ _ _ _

/-! ### The start of a response -/

/-- **What the start of a response can make of a connection** and the host. -/
inductive Started (config : Config) (h : Host P) (c : Client P) :
    Target → Client P × Host P → Prop
  | file {path : String} {conn : P.Conn} {job : FileJob P} {h' : Host P}
    (hconn : c.conn = some conn)
    (heq : FileJob.begin conn path config.chunkSize h = (.streaming job, h')) :
    Started config h c (.file path) (c.goTo (.streaming (.file job)), h')
  | fileEnds {path : String} {conn : P.Conn} {job : FileJob P} {h' : Host P}
    (hconn : c.conn = some conn)
    (heq : FileJob.begin conn path config.chunkSize h = (.done (some job), h')) :
    Started config h c (.file path) (c.goTo (.ending (some (.file job))), h')
  | script {path : String} {conn : P.Conn} {job : ScriptJob P} {h' : Host P}
    (hconn : c.conn = some conn)
    (heq : ScriptJob.begin conn path ((c.request.map Request.query).getD []) h =
      (.streaming job, h')) :
    Started config h c (.script path) (c.goTo (.streaming (.script job)), h')
  | scriptEnds {path : String} {conn : P.Conn} {job : ScriptJob P} {h' : Host P}
    (hconn : c.conn = some conn)
    (heq : ScriptJob.begin conn path ((c.request.map Request.query).getD []) h =
      (.done (some job), h')) :
    Started config h c (.script path) (c.goTo (.ending (some (.script job))), h')
  /-- Nothing was started, and whatever was to be sent was sent. -/
  | nothing (target : Target) (h' : Host P) : Started config h c target (c.goTo (.ending none), h')
  | givenUp (target : Target) (h' : Host P) : Started config h c target (c.goTo .closed, h')

theorem started_beginFile {c : Client P} {conn : P.Conn} (hconn : c.conn = some conn)
    (config : Config) (path : String) (h : Host P) :
    Started config h c (.file path) (c.beginFile conn config path h) := by
  unfold beginFile
  split
  · next job h' heq => exact .file hconn heq
  · next job h' heq =>
    cases job with
    | none => exact .nothing _ h'
    | some job => exact .fileEnds hconn heq
  · next h' _ =>
    rw [replyNotFound_eq]
    exact .nothing _ _
  · next h' _ => exact .givenUp _ h'

theorem started_beginScript {c : Client P} {conn : P.Conn} (hconn : c.conn = some conn)
    (config : Config) (path : String) (h : Host P) :
    Started config h c (.script path) (c.beginScript conn path h) := by
  unfold beginScript
  split
  · next job h' heq => exact .script hconn heq
  · next job h' heq =>
    cases job with
    | none => exact .nothing _ h'
    | some job => exact .scriptEnds hconn heq
  · next h' _ => exact .nothing _ h'
  · next h' _ => exact .givenUp _ _

theorem started_start (c : Client P) (config : Config) (target : Target) (h : Host P) :
    Started config h c target (c.start config target h) := by
  unfold start
  split
  · exact .givenUp _ _
  · next conn hconn =>
    cases target with
    | file path => exact started_beginFile hconn _ _ _
    | script path => exact started_beginScript hconn _ _ _

/-! ### A piece of a response -/

/-- **What a piece of a response can make of a connection** and the host: its job goes on, or it is
to be ended. -/
inductive Streamed (config : Config) (h : Host P) (c : Client P) :
    Job P → Client P × Host P → Prop
  /-- The slot does not own the connection any more. -/
  | left (job : Job P) : Streamed config h c job (c.goTo (.ending (some job)), h)
  | file {conn : P.Conn} (hconn : c.conn = some conn) (job : FileJob P)
    (hmore : (job.step conn h).1 = .more) :
    Streamed config h c (.file job)
      (c.goTo (.streaming (.file (job.step conn h).2.1)), (job.step conn h).2.2)
  | fileEnds {conn : P.Conn} (hconn : c.conn = some conn) (job : FileJob P) :
    Streamed config h c (.file job)
      (c.goTo (.ending (some (.file (job.step conn h).2.1))), (job.step conn h).2.2)
  | script {conn : P.Conn} (hconn : c.conn = some conn) (job : ScriptJob P)
    (hmore : (job.step conn config.outputSize config.scriptStepLimit h).1 = .more) :
    Streamed config h c (.script job)
      (c.goTo (.streaming
        (.script (job.step conn config.outputSize config.scriptStepLimit h).2.1)),
        (job.step conn config.outputSize config.scriptStepLimit h).2.2)
  | scriptEnds {conn : P.Conn} (hconn : c.conn = some conn) (job : ScriptJob P) :
    Streamed config h c (.script job)
      (c.goTo (.ending (some
        (.script (job.step conn config.outputSize config.scriptStepLimit h).2.1))),
        (job.step conn config.outputSize config.scriptStepLimit h).2.2)

theorem streamed_stream (c : Client P) (config : Config) (job : Job P) (h : Host P) :
    Streamed config h c job (c.stream config job h) := by
  unfold stream
  split
  · exact .left job
  · next conn hconn =>
    cases job with
    | file job =>
      simp only
      split
      · next hmore => exact .file hconn job hmore
      · exact .fileEnds hconn job
    | script job =>
      simp only
      split
      · next hmore => exact .script hconn job hmore
      · exact .scriptEnds hconn job

/-! ### The pool -/

/-- **What a step can make of the pool**, and of the handle of the connection. A connection that is
upgraded is noted, joins the pool and leaves its handle there; all other steps leave the pool as it
is and the handle where it is. -/
inductive Pooled (peers : Peers P.Conn) (c : Client P) : Client P × Peers P.Conn × Host P → Prop
  | stays {c' : Client P} (h' : Host P) (hkind : c'.kind = c.kind) (hconn : c'.conn = c.conn) :
    Pooled peers c (c', peers, h')
  | joins {conn : P.Conn} (uri : String) (h' : Host P) (hconn : c.conn = some conn)
    (hnoted : .upgraded (P.network.address conn) uri ∈ h'.log) :
    Pooled peers c ({ c with kind := .socket, conn := none, stage := .closed },
      (peers.enrol (.fresh conn (P.network.address conn) uri)).1, h')

variable {peers : Peers P.Conn}

theorem pooled_serve (c : Client P) (config : Config) (r : Request) (h : Host P) :
    Pooled peers c ((c.serve config r h).1, peers, (c.serve config r h).2) := by
  simp only [serve]
  split
  · exact .stays _ rfl rfl
  · exact .stays _ rfl rfl
  · rw [replyNotFound_eq]
    exact .stays _ rfl rfl

theorem pooled_dispatch {conn : P.Conn} (heq : c.conn = some conn) (r : Request) :
    Pooled peers c (c.dispatch conn config r peers h) := by
  simp only [dispatch]
  split
  · have hpool := Handshake.pool_run conn r peers (h.note (.request c.address r.uri))
    split
    · next ps h₁ hrun =>
      rw [hrun] at hpool
      obtain ⟨-, rfl, hnoted⟩ | ⟨hne, -⟩ := hpool
      · exact .joins r.uri _ heq hnoted
      · exact absurd rfl hne
    · next ps h₁ hrun =>
      rw [hrun] at hpool
      obtain ⟨hup, -⟩ | ⟨-, rfl⟩ := hpool
      · cases hup
      · exact pooled_serve c config r _
    · next e ps h₁ hrun =>
      rw [hrun] at hpool
      obtain ⟨hup, -⟩ | ⟨-, rfl⟩ := hpool
      · cases hup
      · exact pooled_serve c config r _
  · exact pooled_serve c config r _

theorem pooled_receive (c : Client P) (config : Config) (peers : Peers P.Conn) (h : Host P) :
    Pooled peers c (c.receive config peers h) := by
  unfold receive
  split
  · exact .stays _ rfl rfl
  · next conn heq =>
    split
    · split
      · exact .stays _ rfl rfl
      · simp only [wait]
        split
        · exact .stays _ rfl rfl
        · exact .stays _ rfl rfl
    · split
      · rw [replyNotFound_eq]
        exact .stays _ rfl rfl
      · exact pooled_dispatch heq _

/-- **One step and the pool.** -/
theorem pooled_step (c : Client P) (config : Config) (peers : Peers P.Conn) (h : Host P) :
    Pooled peers c (c.step config peers h) := by
  unfold step
  split
  · exact pooled_receive c config peers h
  · next target _ =>
    have hs := started_start c config target h
    generalize c.start config target h = p at hs ⊢
    cases hs <;> exact .stays _ rfl rfl
  · next job _ =>
    split
    · have hs := streamed_stream c config job h
      generalize c.stream config job h = p at hs ⊢
      cases hs <;> exact .stays _ rfl rfl
    · exact .stays _ rfl rfl
  · exact .stays _ rfl rfl
  · exact .stays _ rfl rfl
  · exact .stays _ rfl rfl

end Client

end Microweb

import Microweb.Proofs.Forget

/-!
A connection on record, with the records forgotten: each of its steps is that of a connection on
the platform below.
-/

namespace Microweb

variable {P : Platform}

/-! ### Requests -/

theorem Route.forget_isDirectory (path : String) (h : Host P.recorded) :
    isDirectory path h.forget = ((isDirectory path h).1, (isDirectory path h).2.forget) := by
  unfold isDirectory
  split
  · rfl
  · rfl

theorem Route.forget_find (config : Config) (uri : String) (h : Host P.recorded) :
    find config uri h.forget = ((find config uri h).1, (find config uri h).2.forget) := by
  unfold find
  cases Content.pathUnder? config.contentRoot uri with
  | none => rfl
  | some path =>
    simp only [forget_isDirectory]
    rcases isDirectory path h with ⟨_ | _, h₁⟩
    · rfl
    · simp only [Host.indexOf, Host.forget_firstNonempty]
      rcases Host.firstNonempty (Content.trimSlashes path) config.indexFiles h₁ with ⟨_ | index, h₂⟩
      · rfl
      · rfl

/-- Closing peers and noting it is the same with records and without. -/
theorem Host.forget_closeEach {note : Peer P.Conn → Notice} (ps : List (Peer P.Conn))
    (h : Host P.recorded) :
    ps.foldl (fun h p => (h.note (note p)).close p.handle) h.forget =
      (ps.foldl (fun h p => (h.note (note p)).close p.handle) h).forget := by
  induction ps generalizing h with
  | nil => rfl
  | cons p ps ih => exact ih ((h.note (note p)).close p.handle)

theorem Host.forget_closeHandles (ps : List (Peer P.Conn)) (h : Host P.recorded) :
    ps.foldl (fun h p => h.close p.handle) h.forget =
      (ps.foldl (fun h p => h.close p.handle) h).forget := by
  induction ps generalizing h with
  | nil => rfl
  | cons p ps ih => exact ih (h.close p.handle)

theorem Handshake.forget_join (conn : P.recorded.Conn) (uri : String)
    (peers : Peers P.recorded.Conn) (h : Host P.recorded) :
    join (P := P) conn uri peers h.forget =
      ((join conn uri peers h).1, (join conn uri peers h).2.forget) :=
  Prod.ext rfl (Host.forget_closeEach _ ((h.setTimeouts conn _).note _))

theorem Handshake.forget_run (conn : P.recorded.Conn) (r : Request)
    (peers : Peers P.recorded.Conn) (h : Host P.recorded) :
    run (P := P) conn r peers h.forget =
      ((run conn r peers h).1, (run conn r peers h).2.1, (run conn r peers h).2.2.forget) := by
  unfold run
  by_cases hpeer : peers.contains (P.network.address conn)
  · rw [if_pos hpeer, if_pos hpeer]
  · rw [if_neg hpeer, if_neg hpeer]
    cases clientKey r with
    | error e => rfl
    | ok key =>
      simp only [Host.forget_write]
      rcases h.write conn _ with ⟨e | _, h₁⟩
      · rfl
      · simp only [forget_join]

/-! ### Connections -/

namespace Client

variable (c : Client P.recorded)

theorem forget_replyNotFound (url : String) (h : Host P.recorded) :
    c.forget.replyNotFound url h.forget =
      ((c.replyNotFound url h).1.forget, (c.replyNotFound url h).2.forget) := by
  unfold replyNotFound
  rw [show c.forget.conn = c.conn from rfl]
  cases c.conn with
  | none => rfl
  | some conn =>
    have hpage : Reply.notFound url h.forget.uptime h.forget.freeHeap =
        Reply.notFound url h.uptime h.freeHeap := rfl
    simp only [hpage, Host.forget_write]
    rcases h.write conn (Reply.notFound url h.uptime h.freeHeap) with ⟨e | _, h₁⟩
    · rfl
    · rfl

theorem forget_serve (config : Config) (r : Request) (h : Host P.recorded) :
    c.forget.serve config r h.forget =
      ((c.serve config r h).1.forget, (c.serve config r h).2.forget) := by
  simp only [serve, Route.forget_find]
  rcases Route.find config r.uri h with ⟨path | path | _, h₁⟩
  · rfl
  · rfl
  · exact forget_replyNotFound { c with request := some r } r.uri h₁

theorem forget_dispatch (conn : P.recorded.Conn) (config : Config) (r : Request)
    (peers : Peers P.recorded.Conn) (h : Host P.recorded) :
    c.forget.dispatch conn config r peers h.forget =
      ((c.dispatch conn config r peers h).1.forget, (c.dispatch conn config r peers h).2.1,
        (c.dispatch conn config r peers h).2.2.forget) := by
  simp only [dispatch]
  rw [show h.forget.note (.request c.forget.address r.uri) =
    (h.note (.request c.address r.uri)).forget from rfl]
  generalize h.note (.request c.address r.uri) = h
  by_cases hup : r.wantsUpgrade
  · rw [if_pos hup, if_pos hup, Handshake.forget_run]
    rcases Handshake.run conn r peers h with ⟨_ | _ | e, ps, h₁⟩
    · rfl
    · have hs := c.forget_serve config r (h₁.note (.alreadyPeer c.address))
      exact congrArg (fun p => (p.1, ps, p.2)) hs
    · have hs := c.forget_serve config r (h₁.note (.upgradeFailed c.address e))
      exact congrArg (fun p => (p.1, ps, p.2)) hs
  · rw [if_neg hup, if_neg hup]
    exact congrArg (fun p => (p.1, peers, p.2)) (c.forget_serve config r h)

theorem forget_wait (config : Config) (h : Host P.recorded) : c.forget.wait config h.forget =
    ((c.wait config h).1.forget, (c.wait config h).2.forget) := by
  simp only [wait]
  rw [show c.forget.idle = c.idle from rfl]
  split <;> rfl

theorem forget_receive (config : Config) (peers : Peers P.recorded.Conn) (h : Host P.recorded) :
    c.forget.receive config peers h.forget =
      ((c.receive config peers h).1.forget, (c.receive config peers h).2.1,
        (c.receive config peers h).2.2.forget) := by
  unfold receive
  rw [show c.forget.conn = c.conn from rfl]
  cases c.conn with
  | none => rfl
  | some conn =>
    simp only [Host.forget_receive]
    rcases h.receive conn config.requestRoom with ⟨e | head, h₁⟩
    · by_cases hfatal : e.isFatal
      · simp only [hfatal, if_true]
        rfl
      · simp only [hfatal, forget_wait]
        rfl
    · simp only
      cases Request.parse head config.maxUriLength with
      | error e =>
        have hr := c.forget_replyNotFound (rejectedPath head) (h₁.note (.badRequest c.address e))
        exact congrArg (fun p => (p.1, peers, p.2)) hr
      | ok r => exact c.forget_dispatch conn config r peers h₁

theorem forget_beginFile (conn : P.recorded.Conn) (config : Config) (path : String)
    (h : Host P.recorded) : c.forget.beginFile conn config path h.forget =
      ((c.beginFile conn config path h).1.forget, (c.beginFile conn config path h).2.forget) := by
  unfold beginFile
  rw [FileJob.forget_begin]
  rcases FileJob.begin conn path config.chunkSize h with ⟨job | job | _ | _, h₁⟩
  · rfl
  · cases job <;> rfl
  · exact c.forget_replyNotFound _ h₁
  · rfl

theorem forget_beginScript (conn : P.recorded.Conn) (path : String) (h : Host P.recorded) :
    c.forget.beginScript conn path h.forget =
      ((c.beginScript conn path h).1.forget, (c.beginScript conn path h).2.forget) := by
  unfold beginScript
  rw [ScriptJob.forget_begin, show c.forget.request = c.request from rfl]
  rcases ScriptJob.begin conn path ((c.request.map Request.query).getD []) h with
    ⟨job | job | _ | _, h₁⟩
  · rfl
  · cases job <;> rfl
  · rfl
  · rfl

theorem forget_start (config : Config) (target : Target) (h : Host P.recorded) :
    c.forget.start config target h.forget =
      ((c.start config target h).1.forget, (c.start config target h).2.forget) := by
  unfold start
  rw [show c.forget.conn = c.conn from rfl]
  cases c.conn with
  | none => rfl
  | some conn =>
    cases target with
    | file path => exact c.forget_beginFile conn config path h
    | script path => exact c.forget_beginScript conn path h

theorem forget_stream (config : Config) (job : Job P.recorded) (h : Host P.recorded) :
    c.forget.stream config job.forget h.forget =
      ((c.stream config job h).1.forget, (c.stream config job h).2.forget) := by
  unfold stream
  rw [show c.forget.conn = c.conn from rfl]
  cases c.conn with
  | none => rfl
  | some conn =>
    cases job with
    | file job =>
      simp only [Job.forget, FileJob.forget_step]
      split <;> rfl
    | script job =>
      simp only [Job.forget, ScriptJob.forget_step]
      split <;> rfl

theorem forget_phase : c.forget.phase = c.phase := by
  unfold phase
  rw [show c.forget.stage = c.stage.forget from rfl]
  cases c.stage <;> rfl

/-- **A step of a connection** is the same with records and without. -/
theorem forget_step (config : Config) (peers : Peers P.recorded.Conn) (h : Host P.recorded) :
    c.forget.step config peers h.forget =
      ((c.step config peers h).1.forget, (c.step config peers h).2.1,
        (c.step config peers h).2.2.forget) := by
  unfold step
  rw [show c.forget.stage = c.stage.forget from rfl]
  cases c.stage with
  | request => exact c.forget_receive config peers h
  | begin target => exact congrArg (fun p => (p.1, peers, p.2)) (c.forget_start config target h)
  | streaming job =>
    by_cases hrun : h.control.running
    · simp only [Stage.forget, forget_stream]
      rw [if_pos (show h.forget.control.running from hrun), if_pos hrun]
    · simp only [Stage.forget]
      rw [if_neg (show ¬ h.forget.control.running from hrun), if_neg hrun]
      rfl
  | ending job =>
    cases job with
    | none => rfl
    | some job => exact congrArg (fun h => (_, peers, h)) (job.forget_finish h)
  | closed => rfl

theorem forget_release (h : Host P.recorded) :
    c.forget.release h.forget = (c.release h).forget := by
  unfold release
  rw [show c.forget.conn = c.conn from rfl]
  cases c.conn <;> rfl

theorem forget_abort (h : Host P.recorded) : c.forget.abort h.forget = (c.abort h).forget := by
  unfold abort
  rw [← forget_release, show c.forget.stage = c.stage.forget from rfl]
  cases c.stage with
  | streaming job => exact congrArg c.forget.release (job.forget_finish h)
  | ending job =>
    cases job with
    | none => rfl
    | some job => exact congrArg c.forget.release (job.forget_finish h)
  | request => rfl
  | begin target => rfl
  | closed => rfl

theorem forget_abortEach (cs : List (Client P.recorded)) (h : Host P.recorded) :
    (cs.map forget).foldl (fun h c => c.abort h) h.forget =
      (cs.foldl (fun h c => c.abort h) h).forget := by
  induction cs generalizing h with
  | nil => rfl
  | cons c cs ih =>
    rw [List.map_cons, List.foldl_cons, List.foldl_cons, forget_abort]
    exact ih (c.abort h)

end Client

end Microweb

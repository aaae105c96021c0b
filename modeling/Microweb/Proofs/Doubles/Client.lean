import Microweb.Proofs.Doubles

/-!
Connections that differ in the bytes their requests were read from alone. Once a request is read,
these bytes are not looked at again: on hosts that are doubles such connections take the same steps.
-/

namespace Microweb

variable {P : Platform}

/-- A request without the bytes it was read from. -/
def Request.bare (r : Request) : Request := { r with head := [] }

namespace Handshake

open Host

theorem doubles_closeEach {note note' : Peer P.Conn → Notice} (ps : List (Peer P.Conn))
    {g h : Host P} (ht : Doubles g h) :
    Doubles (ps.foldl (fun h p => (h.note (note p)).close p.handle) g)
      (ps.foldl (fun h p => (h.note (note' p)).close p.handle) h) := by
  induction ps generalizing g h with
  | nil => exact ht
  | cons p ps ih => exact ih ((ht.note (note p) (note' p)).close p.handle)

theorem doubles_run {g h : Host P} (ht : Doubles g h) (conn : P.Conn) (r : Request)
    (peers : Peers P.Conn) : Concur₂ (run conn r peers g) (run conn r peers h) := by
  unfold run
  split
  · exact ⟨rfl, rfl, ht⟩
  · split
    · exact ⟨rfl, rfl, ht⟩
    · refine (ht.write conn _).elim fun w g₁ h₁ ht₁ => ?_
      cases w with
      | error e => exact ⟨rfl, rfl, ht₁⟩
      | ok u =>
        have htimeouts := ht₁.setTimeouts conn ⟨0, g₁.control.timeouts.send⟩
        have hjoin : ConcurIn Doubles (join conn r.uri peers g₁) (join conn r.uri peers h₁) := by
          unfold join
          rw [← ht₁.control]
          exact ⟨rfl, doubles_closeEach _ (htimeouts.note _ _)⟩
        exact ⟨rfl, hjoin⟩

end Handshake

namespace Client

/-- The connection with nothing of the bytes its request was read from. -/
def bare (c : Client P) : Client P := { c with request := c.request.map Request.bare }

/-- Connections that differ in these bytes alone. -/
def Doubles (c d : Client P) : Prop := c.bare = d.bare

/-- Connections and hosts that are doubles. -/
structure Concur (x y : Client P × Host P) : Prop where
  client : Doubles x.1 y.1
  host : x.2.Doubles y.2

/-- The same pool, and connections and hosts that are doubles. -/
structure Concur₂ (x y : Client P × Peers P.Conn × Host P) : Prop where
  client : Doubles x.1 y.1
  rest : Host.ConcurIn Host.Doubles x.2 y.2

theorem Concur.withPool {x y : Client P × Host P} (hxy : Concur x y) (peers : Peers P.Conn) :
    Concur₂ (x.1, peers, x.2) (y.1, peers, y.2) := ⟨hxy.client, rfl, hxy.host⟩

namespace Doubles

variable {c d : Client P} {g h : Host P}

theorem refl (c : Client P) : Doubles c c := rfl

/-- What is read off connections without a look at these bytes. -/
theorem view {α : Type} (f : Client P → α) (hf : ∀ c, f c.bare = f c) (hc : Doubles c d) :
    f c = f d :=
  (hf c).symm.trans ((congrArg f hc).trans (hf d))

/-- What changes connections without a look at these bytes. -/
theorem map (f : Client P → Client P) (hf : ∀ c, f c.bare = (f c).bare) (hc : Doubles c d) :
    Doubles (f c) (f d) := (hf c).symm.trans ((congrArg f hc).trans (hf d))

theorem conn (hc : Doubles c d) : c.conn = d.conn := hc.view Client.conn fun _ => rfl
theorem stage (hc : Doubles c d) : c.stage = d.stage := hc.view Client.stage fun _ => rfl
theorem idle (hc : Doubles c d) : c.idle = d.idle := hc.view Client.idle fun _ => rfl

theorem goTo (hc : Doubles c d) (stage : Stage P) : Doubles (c.goTo stage) (d.goTo stage) :=
  hc.map (fun c => c.goTo stage) fun _ => rfl

/-- What is read off their requests when responses start. -/
theorem request (hc : Doubles c d) {α : Type} {f : Request → α} (hf : ∀ r, f r.bare = f r) :
    c.request.map f = d.request.map f :=
  hc.view (fun c => c.request.map f) fun c => by
    show (c.request.map Request.bare).map f = c.request.map f
    rw [Option.map_map]
    exact congrArg (Option.map · c.request) (funext hf)

/-! ### Requests -/

theorem replyNotFound (hc : Doubles c d) (ht : g.Doubles h) (url : String) :
    Concur (c.replyNotFound url g) (d.replyNotFound url h) := by
  have hpage : Reply.notFound url g.uptime g.freeHeap = Reply.notFound url h.uptime h.freeHeap :=
    ht.view (fun h => Reply.notFound url h.uptime h.freeHeap) fun _ => rfl
  unfold Client.replyNotFound
  rw [hc.conn, hpage]
  cases d.conn with
  | none => exact ⟨hc.goTo _, ht⟩
  | some conn =>
    simp only
    refine (ht.write conn (Reply.notFound url h.uptime h.freeHeap)).elim fun r g₁ h₁ ht₁ => ?_
    cases r with
    | ok u => exact ⟨hc.goTo _, ht₁⟩
    | error e => exact ⟨hc.goTo _, ht₁.note _ _⟩

theorem serve (hc : Doubles c d) (ht : g.Doubles h) {r r' : Request} (hr : r.bare = r'.bare)
    (config : Config) : Concur (c.serve config r g) (d.serve config r' h) := by
  have huri : r.uri = r'.uri := congrArg (fun b => b.uri) hr
  have hrequest : ({ c with request := some r } : Client P) = { d with request := some r } :=
    hc.view (fun c => { c with request := some r }) fun _ => rfl
  have hclient : Doubles { c with request := some r } { d with request := some r' } := by
    rw [hrequest]
    exact congrArg (fun q => ({ d with request := some q } : Client P)) hr
  unfold Client.serve
  rw [huri]
  refine (ht.find config r'.uri).elim fun route g₁ h₁ ht₁ => ?_
  cases route with
  | file path => exact ⟨hclient.goTo _, ht₁⟩
  | script path => exact ⟨hclient.goTo _, ht₁⟩
  | notFound => exact hclient.replyNotFound ht₁ r'.uri

theorem dispatch (hc : Doubles c d) (ht : g.Doubles h) (conn : P.Conn) (config : Config)
    (r : Request) (peers : Peers P.Conn) :
    Concur₂ (c.dispatch conn config r peers g) (d.dispatch conn config r peers h) := by
  simp only [Client.dispatch]
  have hnoted := ht.note (.request c.address r.uri) (.request d.address r.uri)
  split
  · refine (Handshake.doubles_run hnoted conn r peers).elim fun outcome ps g₁ h₁ ht₁ => ?_
    cases outcome with
    | upgraded =>
      exact ⟨hc.map (fun c => { c with kind := .socket, conn := none, stage := .closed })
        fun _ => rfl, rfl, ht₁⟩
    | alreadyPeer => exact (hc.serve (ht₁.note _ _) rfl config).withPool ps
    | failed e => exact (hc.serve (ht₁.note _ _) rfl config).withPool ps
  · exact (hc.serve hnoted rfl config).withPool peers

theorem wait (hc : Doubles c d) (ht : g.Doubles h) (config : Config) :
    Concur (c.wait config g) (d.wait config h) := by
  have hidle : Doubles { c with idle := c.idle + 1 } { d with idle := d.idle + 1 } :=
    hc.map (fun c => { c with idle := c.idle + 1 }) fun _ => rfl
  simp only [Client.wait, hc.idle]
  rw [hc.idle] at hidle
  split
  · exact ⟨hidle.goTo _, ht.note _ _⟩
  · exact ⟨hidle.goTo _, ht⟩

theorem receive (hc : Doubles c d) (ht : g.Doubles h) (config : Config) (peers : Peers P.Conn) :
    Concur₂ (c.receive config peers g) (d.receive config peers h) := by
  unfold Client.receive
  rw [hc.conn]
  cases d.conn with
  | none => exact ⟨hc.goTo _, rfl, ht⟩
  | some conn =>
    simp only
    refine (ht.receive conn config.requestRoom).elim fun r g₁ h₁ ht₁ => ?_
    cases r with
    | error e =>
      simp only
      split
      · exact ⟨hc.goTo _, rfl, ht₁.note _ _⟩
      · exact (hc.wait ht₁ config).withPool peers
    | ok head =>
      simp only
      cases Request.parse head config.maxUriLength with
      | error e => exact (hc.replyNotFound (ht₁.note _ _) (rejectedPath head)).withPool peers
      | ok r => exact hc.dispatch ht₁ conn config r peers

/-! ### The response -/

theorem start (hc : Doubles c d) (ht : g.Doubles h) (config : Config) (target : Target) :
    Concur (c.start config target g) (d.start config target h) := by
  unfold Client.start
  rw [hc.conn]
  cases d.conn with
  | none => exact ⟨hc.goTo _, ht⟩
  | some conn =>
    cases target with
    | file path =>
      simp only [beginFile, hc.request (f := Request.uri) fun _ => rfl]
      refine (ht.beginFile conn path config.chunkSize).elim fun begun g₁ h₁ ht₁ => ?_
      cases begun with
      | streaming job => exact ⟨hc.goTo _, ht₁⟩
      | done job => exact ⟨hc.goTo _, ht₁⟩
      | notFound => exact hc.replyNotFound ht₁ _
      | abort => exact ⟨hc.goTo _, ht₁⟩
    | script path =>
      simp only [beginScript, hc.request (f := Request.query) fun _ => rfl]
      refine (ht.beginScript conn path _).elim fun begun g₁ h₁ ht₁ => ?_
      cases begun with
      | streaming job => exact ⟨hc.goTo _, ht₁⟩
      | done job => exact ⟨hc.goTo _, ht₁⟩
      | notFound => exact ⟨hc.goTo _, ht₁⟩
      | abort => exact ⟨hc.goTo _, ht₁.note _ _⟩

theorem stream (hc : Doubles c d) (ht : g.Doubles h) (config : Config) (job : Job P) :
    Concur (c.stream config job g) (d.stream config job h) := by
  unfold Client.stream
  rw [hc.conn]
  cases d.conn with
  | none => exact ⟨hc.goTo _, ht⟩
  | some conn =>
    cases job with
    | file job =>
      simp only
      refine (ht.stepFile job conn).elim fun progress job' g₁ h₁ ht₁ => ?_
      cases progress with
      | more => exact ⟨hc.goTo _, ht₁⟩
      | done => exact ⟨hc.goTo _, ht₁⟩
    | script job =>
      simp only
      refine (ht.stepScript job conn config.outputSize config.scriptStepLimit).elim
        fun progress job' g₁ h₁ ht₁ => ?_
      cases progress with
      | more => exact ⟨hc.goTo _, ht₁⟩
      | done => exact ⟨hc.goTo _, ht₁⟩

/-! ### Steps -/

/-- **A step** makes doubles of doubles. -/
theorem step (hc : Doubles c d) (ht : g.Doubles h) (config : Config) (peers : Peers P.Conn) :
    Concur₂ (c.step config peers g) (d.step config peers h) := by
  have hended : Doubles { c with request := none, stage := .closed }
      { d with request := none, stage := .closed } :=
    hc.map (fun c => { c with request := none, stage := .closed }) fun _ => rfl
  unfold Client.step
  rw [hc.stage, ht.control]
  cases d.stage with
  | request => exact hc.receive ht config peers
  | begin target => exact (hc.start ht config target).withPool peers
  | streaming job =>
    simp only
    split
    · exact (hc.stream ht config job).withPool peers
    · exact ⟨hc.goTo _, rfl, ht.note _ _⟩
  | ending job =>
    cases job with
    | none => exact ⟨hended, rfl, ht⟩
    | some job => exact ⟨hended, rfl, ht.finish job⟩
  | closed => exact ⟨hc, rfl, ht⟩

theorem release (hc : Doubles c d) (ht : g.Doubles h) : (c.release g).Doubles (d.release h) := by
  unfold Client.release
  rw [hc.conn]
  cases d.conn with
  | none => exact ht
  | some conn => exact ht.close conn

theorem abort (hc : Doubles c d) (ht : g.Doubles h) : (c.abort g).Doubles (d.abort h) := by
  unfold Client.abort
  rw [hc.stage]
  refine hc.release ?_
  cases d.stage with
  | streaming job => exact ht.finish job
  | ending job =>
    cases job with
    | none => exact ht
    | some job => exact ht.finish job
  | _ => exact ht

end Doubles

end Client

end Microweb

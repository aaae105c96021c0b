import Microweb.Reply.NotFound
import Microweb.Server.Handshake
import Microweb.Server.Route
import Microweb.Server.ScriptJob

/-!
A connection that is served a response, one unit of work a step. It waits for its request, starts
the response, streams it, ends what was started, and is closed; it never goes back, and every way
leads to the end.
-/

namespace Microweb

/-- What a response is to be made from. -/
inductive Target where
  | file (path : String)
  | script (path : String)
deriving DecidableEq, Repr

/-- What produces a response, and has to be ended. -/
inductive Job (P : Platform) where
  | file (job : FileJob P)
  | script (job : ScriptJob P)

/-- Where a connection stands. -/
inductive Stage (P : Platform) where
  /-- Waiting for the request. -/
  | request
  /-- About to start the response. -/
  | begin (target : Target)
  | streaming (job : Job P)
  /-- About to end what was started. -/
  | ending (job : Option (Job P))
  | closed

/-- Where a connection stands, as seen from outside. -/
inductive Phase where
  | begin
  | streaming
  | ending
  | closed
deriving DecidableEq, Repr

def Stage.phase {P : Platform} : Stage P → Phase
  | request => .begin
  | begin _ => .begin
  | streaming _ => .streaming
  | ending _ => .ending
  | closed => .closed

/-- A connection in a slot. -/
structure Client (P : Platform) where
  kind : ConnectionKind
  address : SocketAddress
  /-- The connection, as long as the slot owns it. -/
  conn : Option P.Conn
  request : Option Request
  stage : Stage P
  /-- The receives that brought nothing. -/
  idle : UInt32

variable {P : Platform}

/-- Ends a job. -/
def Job.finish : Job P → Host P → Host P
  | file job, h => job.finish h
  | script job, h => job.finish h

namespace Client

/-- A connection that was just accepted. -/
def fresh (conn : P.Conn) : Client P := ⟨.get, P.network.address conn, some conn, none, .request, 0⟩

def phase (c : Client P) : Phase := c.stage.phase

/-- The connection at another stage. -/
def goTo (c : Client P) (stage : Stage P) : Client P := { c with stage }

/-! ### The request -/

/-- The path in a head that could not be read: the second word of its first line, words being
parted by spaces alone, up to a question mark. -/
def rejectedPath (head : Bytes) : String :=
  let line := head.takeWhile (· != Byte.lf)
  let words := (line.splitOn Byte.space).filter fun w => ! w.isEmpty
  Utf8.decodeLossy ((words.getD 1 []).takeWhile (· != Byte.question))

/-- Sends the page for what is not there. -/
def replyNotFound (c : Client P) (url : String) (h : Host P) : Client P × Host P :=
  match c.conn with
  | none => (c.goTo (.ending none), h)
  | some conn =>
    match h.write conn (Reply.notFound url h.uptime h.freeHeap) with
    | (.ok (), h) => (c.goTo (.ending none), h)
    | (.error e, h) => (c.goTo (.ending none), h.note (.networkFailed c.address e))

/-- Goes on to the response that a request is routed to. -/
def serve (c : Client P) (config : Config) (r : Request) (h : Host P) : Client P × Host P :=
  let c := { c with request := some r }
  match Route.find config r.uri h with
  | (.file path, h) => (c.goTo (.begin (.file path)), h)
  | (.script path, h) => (c.goTo (.begin (.script path)), h)
  | (.notFound, h) => c.replyNotFound r.uri h

/-- Goes on with a request, by way of the handshake if it asks for an upgrade. -/
def dispatch (c : Client P) (conn : P.Conn) (config : Config) (r : Request)
    (peers : Peers P.Conn) (h : Host P) : Client P × Peers P.Conn × Host P :=
  let h := h.note (.request c.address r.uri)
  if r.wantsUpgrade then
    match Handshake.run conn r peers h with
    | (.upgraded, peers, h) =>
      ({ c with kind := .socket, conn := none, stage := .closed }, peers, h)
    | (.alreadyPeer, peers, h) =>
      let (c, h) := c.serve config r (h.note (.alreadyPeer c.address))
      (c, peers, h)
    | (.failed e, peers, h) =>
      let (c, h) := c.serve config r (h.note (.upgradeFailed c.address e))
      (c, peers, h)
  else
    let (c, h) := c.serve config r h
    (c, peers, h)

/-- One receive that brought nothing. -/
def wait (c : Client P) (config : Config) (h : Host P) : Client P × Host P :=
  let c := { c with idle := c.idle + 1 }
  if config.requestIdleLimit < c.idle then (c.goTo .closed, h.note (.noRequest c.address c.idle))
  else (c.goTo .request, h)

/-- Tries to receive the request. -/
def receive (c : Client P) (config : Config) (peers : Peers P.Conn) (h : Host P) :
    Client P × Peers P.Conn × Host P :=
  match c.conn with
  | none => (c.goTo .closed, peers, h)
  | some conn =>
    match h.receive conn config.requestRoom with
    | (.error e, h) =>
      if e.isFatal then (c.goTo .closed, peers, h.note (.networkFailed c.address e))
      else
        let (c, h) := c.wait config h
        (c, peers, h)
    | (.ok head, h) =>
      match Request.parse head config.maxUriLength with
      | .error e =>
        let (c, h) := c.replyNotFound (rejectedPath head) (h.note (.badRequest c.address e))
        (c, peers, h)
      | .ok r => c.dispatch conn config r peers h

/-! ### The response -/

/-- Starts the response from a file. -/
def beginFile (c : Client P) (conn : P.Conn) (config : Config) (path : String) (h : Host P) :
    Client P × Host P :=
  match FileJob.begin conn path config.chunkSize h with
  | (.streaming job, h) => (c.goTo (.streaming (.file job)), h)
  | (.done job, h) => (c.goTo (.ending (job.map .file)), h)
  | (.notFound, h) => c.replyNotFound ((c.request.map Request.uri).getD path) h
  | (.abort, h) => (c.goTo .closed, h)

/-- Starts the response from a script. -/
def beginScript (c : Client P) (conn : P.Conn) (path : String) (h : Host P) :
    Client P × Host P :=
  match ScriptJob.begin conn path ((c.request.map Request.query).getD []) h with
  | (.streaming job, h) => (c.goTo (.streaming (.script job)), h)
  | (.done job, h) => (c.goTo (.ending (job.map .script)), h)
  | (.notFound, h) => (c.goTo (.ending none), h)
  | (.abort, h) => (c.goTo .closed, h.note (.noResponse c.address))

/-- Starts the response. -/
def start (c : Client P) (config : Config) (target : Target) (h : Host P) : Client P × Host P :=
  match c.conn with
  | none => (c.goTo .closed, h)
  | some conn =>
    match target with
    | .file path => c.beginFile conn config path h
    | .script path => c.beginScript conn path h

/-- Streams one piece of the response. -/
def stream (c : Client P) (config : Config) (job : Job P) (h : Host P) : Client P × Host P :=
  match c.conn with
  | none => (c.goTo (.ending (some job)), h)
  | some conn =>
    let (progress, job, h) : Progress × Job P × Host P := match job with
      | .file job =>
        let (progress, job, h) := job.step conn h
        (progress, .file job, h)
      | .script job =>
        let (progress, job, h) := job.step conn config.outputSize config.scriptStepLimit h
        (progress, .script job, h)
    match progress with
    | .more => (c.goTo (.streaming job), h)
    | .done => (c.goTo (.ending (some job)), h)

/-! ### Steps -/

/-- One unit of work. Once the server is to stop, a response is cut short. -/
def step (c : Client P) (config : Config) (peers : Peers P.Conn) (h : Host P) :
    Client P × Peers P.Conn × Host P :=
  match c.stage with
  | .request => c.receive config peers h
  | .begin target =>
    let (c, h) := c.start config target h
    (c, peers, h)
  | .streaming job =>
    if h.control.running then
      let (c, h) := c.stream config job h
      (c, peers, h)
    else (c.goTo (.ending (some job)), peers, h.note (.cutShort c.address))
  | .ending none => ({ c with request := none, stage := .closed }, peers, h)
  | .ending (some job) => ({ c with request := none, stage := .closed }, peers, job.finish h)
  | .closed => (c, peers, h)

/-- Closes the connection, if the slot still owns it. -/
def release (c : Client P) (h : Host P) : Host P :=
  match c.conn with
  | none => h
  | some conn => h.close conn

/-- Ends whatever is under way and closes the connection. -/
def abort (c : Client P) (h : Host P) : Host P :=
  c.release <| match c.stage with
    | .streaming job => job.finish h
    | .ending (some job) => job.finish h
    | _ => h

end Client

end Microweb

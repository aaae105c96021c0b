import Microweb.Content.Path
import Microweb.Server.ScriptJob
import Microweb.Socket.Peers

/-!
Polling the peers: one attempt to receive from each, and an answer to every frame that came, in
order. One buffer serves a whole round; what is received goes to its front.
-/

namespace Microweb

namespace Polling

variable {P : Platform}

/-- The path of the peers that talk to the board instead of a script. -/
def boardPath : String := "/dev"

/-- The result of a message: that of a command to the board, or of the script on the peer's
path. -/
def respond (config : Config) (uri : String) (payload : Bytes) (h : Host P) :
    Option String × Host P :=
  if uri = boardPath then
    match h.command payload with
    | (.ok reply, h) => (some reply, h)
    | (.error e, h) => (none, h.note (.commandFailed e))
  else match Content.pathUnder? config.contentRoot uri with
    | none => (none, h)
    | some path => h.runForFrame path (Utf8.decodeLossy payload)

/-- The frame that answers a message, if its result fits one. -/
def answerMessage (config : Config) (p : Peer P.Conn) (payload : Bytes) (h : Host P) :
    Option Bytes × Host P :=
  match respond config p.uri payload (h.note (.frame p.address payload.length p.uri)) with
  | (none, h) => (none, h)
  | (some text, h) =>
    let bs := Utf8.encode text
    match Frame.encode? Opcode.text bs config.outputSize with
    | some reply => (some reply, h)
    | none => (none, h.note (.replyTooLong p.address bs.length))

/-- The frame that answers a frame. -/
def answer (config : Config) (p : Peer P.Conn) (f : Frame) (h : Host P) :
    Option Bytes × Host P :=
  match f with
  | .ping payload => (Frame.encode? Opcode.pong payload config.outputSize, h)
  | .text payload => answerMessage config p payload h
  | .binary payload => answerMessage config p payload h
  | .close => (none, h)

/-- Writes an answer, if there is one. Says whether the peer can stay. -/
def send (p : Peer P.Conn) (reply : Option Bytes) (h : Host P) : Bool × Host P :=
  match reply with
  | none => (true, h)
  | some bs =>
    match h.write p.handle bs with
    | (.ok (), h) => (true, h)
    | (.error e, h) => (! e.isFatal, h.note (.networkFailed p.address e))

/-- How serving the frames of a segment ended. -/
inductive Served where
  /-- The peer closed or failed. -/
  | evict
  /-- All was read that could be, and a frame of it at least was served, or none. -/
  | ended (any : Bool)
deriving DecidableEq, Repr

/-- Serves the frames in the received bytes, `fuel` of them at most, up to a closing frame or what
is no frame. Also returns the bytes as they are after unmasking. -/
def serveFrames (config : Config) (p : Peer P.Conn) :
    Nat → Bool → Bytes → Host P → Served × Bytes × Host P
  | 0, any, rest, h => (.ended any, rest, h)
  | fuel + 1, any, rest, h =>
    if rest.isEmpty then (.ended any, rest, h)
    else match Frame.parse rest with
      | (.error e, rest) => (.ended any, rest, h.note (.badFrame p.address e rest.length))
      | (.ok (.close, _), rest) => (.evict, rest, h.note (.closeFrame p.address))
      | (.ok (f, used), rest) =>
        let (reply, h) := answer config p f h
        match send p reply h with
        | (false, h) => (.evict, rest, h)
        | (true, h) =>
          let (served, tail, h) := serveFrames config p fuel true (rest.drop used) h
          (served, rest.take used ++ tail, h)

/-- Polls one peer. Also returns the buffer. -/
def pollPeer (config : Config) (p : Peer P.Conn) (buf : Bytes) (h : Host P) :
    (Peer P.Conn × Activity) × Bytes × Host P :=
  match h.receive p.handle buf.length with
  | (.error e, h) =>
    if e.isFatal then ((p, .evict), buf, h.note (.networkFailed p.address e))
    else (p.rest config.peerIdleLimit, buf, h)
  | (.ok bs, h) =>
    let filled := bs ++ buf.drop bs.length
    let (served, front, h) :=
      serveFrames config p bs.length false (filled.take bs.length) h
    let outcome := match served with
      | .evict => (p, .evict)
      | .ended true => p.touch
      | .ended false => p.rest config.peerIdleLimit
    (outcome, front ++ filled.drop bs.length, h)

/-- Polls peers in order. -/
def pollEach (config : Config) :
    List (Peer P.Conn) → Bytes → Host P → List (Peer P.Conn × Activity) × Host P
  | [], _, h => ([], h)
  | p :: ps, buf, h =>
    let (outcome, buf, h) := pollPeer config p buf h
    let (outcomes, h) := pollEach config ps buf h
    (outcome :: outcomes, h)

/-- Closes the peers that have to go. -/
def closeEvicted (ps : List (Peer P.Conn)) (h : Host P) : Host P :=
  ps.foldl (fun h p => (h.note (.closingPeer p.address)).close p.handle) h

/-- The room for one receive: a whole frame with the longest payload that is answered. -/
def room (config : Config) : Nat := config.outputSize + Frame.maxHeader

/-- One round of polls. -/
def round (config : Config) (peers : Peers P.Conn) (h : Host P) : Peers P.Conn × Host P :=
  if peers.isEmpty then (peers, h)
  else
    let (outcomes, h) := pollEach config peers.list (List.replicate (room config) 0) h
    let polled := { peers with list := outcomes.map Prod.fst }
    let (peers, evicted) := polled.settle (outcomes.map Prod.snd)
    (peers, closeEvicted evicted h)

end Polling

end Microweb

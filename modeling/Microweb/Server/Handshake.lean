import Microweb.Head.Request
import Microweb.Reply.Head
import Microweb.Server.Host
import Microweb.Socket.Peers

/-!
The opening handshake: a connection whose request asks for it becomes a peer, or else the request
is served like any other.
-/

namespace Microweb

/-- How a handshake ended. -/
inductive Handshake where
  /-- The connection is a peer now. -/
  | upgraded
  /-- Its end point was a peer before. -/
  | alreadyPeer
  | failed (e : HandshakeError)
deriving DecidableEq, Repr

namespace Handshake

variable {P : Platform}

/-- The client's key, if it is one. -/
def clientKey (r : Request) : Except HandshakeError Bytes :=
  match r.field? "Sec-WebSocket-Key" with
  | none => .error .missingKey
  | some key => if Socket.isClientKey key then .ok key else .error .invalidKey

/-- Closes the peers that made room for a new one. -/
def closeDisplaced (ps : List (Peer P.Conn)) (h : Host P) : Host P :=
  ps.foldl (fun h p => (h.note (.displacing p.address)).close p.handle) h

/-- Makes a connection whose key was answered a peer. Peers are polled and never waited for. -/
def join (conn : P.Conn) (uri : String) (peers : Peers P.Conn) (h : Host P) :
    Peers P.Conn × Host P :=
  let address := P.network.address conn
  let h := h.setTimeouts conn ⟨0, h.control.timeouts.send⟩
  let h := h.note (.upgraded address uri)
  let (peers, displaced) := peers.enrol (.fresh conn address uri)
  (peers, closeDisplaced displaced h)

/-- Answers a request that asks for an upgrade. Unless the connection becomes a peer, the pool
stays as it is and the connection is left to the caller. -/
def run (conn : P.Conn) (r : Request) (peers : Peers P.Conn) (h : Host P) :
    Handshake × Peers P.Conn × Host P :=
  if peers.contains (P.network.address conn) then (.alreadyPeer, peers, h)
  else match clientKey r with
    | .error e => (.failed e, peers, h)
    | .ok key =>
      match h.write conn (Reply.switchingProtocols (Socket.acceptKey key)) with
      | (.error e, h) => (.failed (.network e), peers, h)
      | (.ok (), h) => (.upgraded, join conn r.uri peers h)

end Handshake

end Microweb

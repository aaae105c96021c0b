import Microweb.Address.Printer
import Microweb.Board.Command
import Microweb.Head.ParseError
import Microweb.Script
import Microweb.Socket.AcceptKey
import Microweb.Socket.Frame
import Microweb.Volume

/-!
What the server notes in its log, and how each note reads.
-/

namespace Microweb

/-- How much a note matters. -/
inductive Level where
  | debug
  | info
  | warn
  | error
deriving DecidableEq, Repr

def Level.text : Level → String
  | .debug => "DEBUG"
  | .info => "INFO"
  | .warn => "WARN"
  | .error => "ERROR"

/-- What a connection turned into. -/
inductive ConnectionKind where
  /-- It is served one response. -/
  | get
  /-- It became a peer. -/
  | socket
deriving DecidableEq, Repr

def ConnectionKind.text : ConnectionKind → String
  | .get => "Get"
  | .socket => "Ws"

/-- One note. -/
inductive Notice where
  -- The server and its listener.
  | serving (root : String) (slots peers : Nat)
  | stopped
  | listenerFailed (e : NetError)
  | acceptFailed (e : NetError)
  | accepted (address : SocketAddress)
  | slotsFull (address : SocketAddress)
  | slotFree (slot : Nat) (kind : ConnectionKind)
  -- A connection and its request.
  | networkFailed (address : SocketAddress) (e : NetError)
  | noRequest (address : SocketAddress) (cycles : UInt32)
  | badRequest (address : SocketAddress) (e : ParseError)
  | request (address : SocketAddress) (uri : String)
  | rejected (uri : String)
  | cutShort (address : SocketAddress)
  | noResponse (address : SocketAddress)
  -- Files.
  | noFileHandle (path : String)
  | cannotOpen (path : String) (e : VolumeError)
  | cannotSize (path : String) (e : VolumeError)
  | readFailed (sent : Nat) (e : VolumeError)
  -- Scripts.
  | noInterpreter (path : String)
  | scriptMemory (path : String)
  | cannotLoad (path : String) (e : ScriptError)
  | scriptStopped (steps : UInt32)
  | scriptFailed (e : ScriptError)
  | outputCut (length limit : Nat)
  | frameScriptFailed (path : String) (e : ScriptError)
  -- Peers.
  | alreadyPeer (address : SocketAddress)
  | upgradeFailed (address : SocketAddress) (e : HandshakeError)
  | upgraded (address : SocketAddress) (uri : String)
  | displacing (address : SocketAddress)
  | closingPeer (address : SocketAddress)
  | badFrame (address : SocketAddress) (e : FrameError) (dropped : Nat)
  | closeFrame (address : SocketAddress)
  | frame (address : SocketAddress) (length : Nat) (uri : String)
  | replyTooLong (address : SocketAddress) (length : Nat)
  | commandFailed (e : CommandError)
deriving DecidableEq

namespace Notice

def level : Notice → Level
  | serving .. => .info
  | stopped => .info
  | listenerFailed _ => .error
  | acceptFailed _ => .warn
  | accepted _ => .debug
  | slotsFull _ => .warn
  | slotFree .. => .debug
  | networkFailed _ e => if e.isFatal then .error else .debug
  | noRequest .. => .debug
  | badRequest .. => .debug
  | request .. => .debug
  | rejected _ => .debug
  | cutShort _ => .debug
  | noResponse _ => .warn
  | noFileHandle _ => .warn
  | cannotOpen .. => .debug
  | cannotSize .. => .debug
  | readFailed .. => .warn
  | noInterpreter _ => .debug
  | scriptMemory _ => .warn
  | cannotLoad .. => .warn
  | scriptStopped _ => .warn
  | scriptFailed _ => .warn
  | outputCut .. => .warn
  | frameScriptFailed .. => .warn
  | alreadyPeer _ => .debug
  | upgradeFailed .. => .debug
  | upgraded .. => .info
  | displacing _ => .info
  | closingPeer _ => .info
  | badFrame .. => .debug
  | closeFrame _ => .debug
  | frame .. => .debug
  | replyTooLong .. => .warn
  | commandFailed _ => .warn

def text : Notice → String
  | serving root slots peers =>
    s!"serving {root} with {slots} connection slots and {peers} websocket slots"
  | stopped => "server stopped"
  | listenerFailed e => s!"listener failed: {e.message}"
  | acceptFailed e => s!"accept failed: {e.message}"
  | accepted a => s!"accepted {a}"
  | slotsFull a => s!"connection pool full, rejecting {a}"
  | slotFree slot kind => s!"slot {slot} free ({kind.text})"
  | networkFailed a e => s!"{a}: {e.message}"
  | noRequest a cycles => s!"{a}: no request after {cycles} cycles"
  | badRequest a e => s!"{a}: bad request: {e.message}"
  | request a uri => s!"{a}: GET {uri}"
  | rejected uri => s!"rejecting {uri}"
  | cutShort a => s!"{a}: stopping mid-response"
  | noResponse a => s!"{a}: closing without a response"
  | noFileHandle path => s!"no file handle left for {path}"
  | cannotOpen path e => s!"cannot open {path}: {e.message}"
  | cannotSize path e => s!"cannot stat {path}: {e.message}"
  | readFailed sent e => s!"flash read failed after {sent} bytes: {e.message}"
  | noInterpreter path => s!"no script engine, cannot load {path}"
  | scriptMemory path => s!"out of memory loading {path}"
  | cannotLoad path e => s!"cannot load {path}: {e.message}"
  | scriptStopped steps => s!"script stopped after {steps} steps"
  | scriptFailed e => s!"script failed: {e.message}"
  | outputCut length limit => s!"script output truncated from {length} to {limit} bytes"
  | frameScriptFailed path e => s!"script {path} failed: {e.message}"
  | alreadyPeer a => s!"{a}: already upgraded, serving as GET"
  | upgradeFailed a e => s!"{a}: upgrade failed: {e.message}"
  | upgraded a uri => s!"websocket peer {a} on {uri}"
  | displacing a => s!"evicting websocket peer {a}"
  | closingPeer a => s!"closing websocket peer {a}"
  | badFrame a e dropped => s!"{a}: {e.message}, dropping {dropped} bytes"
  | closeFrame a => s!"{a}: close frame"
  | frame a length uri => s!"{a}: {length} byte frame for {uri}"
  | replyTooLong a length => s!"{a}: dropping {length} byte reply"
  | commandFailed e => s!"device command failed: {e.message}"

/-- The level and the text of a note, as a line of the log. -/
def line (n : Notice) : String := n.level.text ++ " " ++ n.text

end Notice

end Microweb

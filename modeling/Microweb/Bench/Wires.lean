import Microweb.Network

/-!
A network in memory: connections are wires with a queue of segments to be received and a record of
what was written. Errors can be put on a wire, and in front of the connections to be accepted.
-/

namespace Microweb.Bench

/-- One connection, as both of its ends see it. -/
structure Wire where
  address : SocketAddress
  /-- The segments sent by the client and not yet received. -/
  inbound : List Bytes
  /-- What the server wrote, the last first. -/
  written : List Bytes
  /-- The client hung up; receives fail once the segments are used up. -/
  hungUp : Bool
  /-- The server closed its end. -/
  closed : Bool
  /-- The error of the next receive. -/
  receiveError : Option NetError
  /-- The error of every write from now on. -/
  writeError : Option NetError
  /-- The timeouts that the server set last. -/
  timeouts : Option Timeouts
deriving DecidableEq

namespace Wire

def fresh (address : SocketAddress) : Wire := ⟨address, [], [], false, false, none, none, none⟩

/-- All bytes that the server wrote. -/
def output (w : Wire) : Bytes := w.written.reverse.flatten

/-- Receives from the first segment. What has no room stays in front of the queue. -/
def receive (w : Wire) (room : Nat) : Except NetError Bytes × Wire :=
  if w.closed then (.error .closed, w)
  else match w.receiveError with
    | some e => (.error e, { w with receiveError := none })
    | none =>
      match w.inbound with
      | [] => (.error (if w.hungUp then .closed else .timeout), w)
      | segment :: rest =>
        let left := segment.drop room
        (.ok (segment.take room),
          { w with inbound := if left.isEmpty then rest else left :: rest })

def write (w : Wire) (bs : Bytes) : Except NetError Unit × Wire :=
  if w.closed then (.error .closed, w)
  else match w.writeError with
    | some e => (.error e, w)
    | none => (.ok (), { w with written := bs :: w.written })

def close (w : Wire) : Wire := { w with closed := true }

/-! ### The client's end -/

/-- Sends a segment. -/
def send (w : Wire) (segment : Bytes) : Wire := { w with inbound := w.inbound ++ [segment] }

def hangUp (w : Wire) : Wire := { w with hungUp := true }

def failReceive (w : Wire) (e : NetError) : Wire := { w with receiveError := some e }

def failWrites (w : Wire) (e : NetError) : Wire := { w with writeError := some e }

end Wire

/-- A handle on a wire: its number, in the order of connecting, and its remote end. -/
structure Handle where
  number : Nat
  address : SocketAddress
deriving DecidableEq

/-- All wires there ever were, and the listener. -/
structure Wires where
  list : List Wire
  /-- The connections to be accepted, in order. -/
  pending : List Handle
  shutDown : Bool
  /-- How long each accept was ready to wait, the last first. -/
  waits : List UInt64
  /-- The errors of the next accepts. -/
  acceptErrors : List NetError
deriving DecidableEq

namespace Wires

def empty : Wires := ⟨[], [], false, [], []⟩

/-- Changes a wire. -/
def update (ws : Wires) (number : Nat) (f : Wire → Wire) : Wires :=
  { ws with list := ws.list.modify number f }

/-- The handle of the next wire. -/
def nextHandle (ws : Wires) (address : SocketAddress) : Handle := ⟨ws.list.length, address⟩

/-- A new connection, which waits to be accepted. -/
def connect (ws : Wires) (address : SocketAddress) : Wires :=
  { ws with
    list := ws.list ++ [.fresh address]
    pending := ws.pending ++ [ws.nextHandle address] }

/-- Accepts the first connection that waits. Errors put in front come first and do not count as
waiting. -/
def accept (wait : UInt64) (ws : Wires) : Except NetError Handle × Wires :=
  match ws.acceptErrors with
  | e :: rest => (.error e, { ws with acceptErrors := rest })
  | [] =>
    if ws.shutDown then (.error .closed, ws)
    else
      let ws := { ws with waits := wait :: ws.waits }
      match ws.pending with
      | c :: rest => (.ok c, { ws with pending := rest })
      | [] => (.error .timeout, ws)

def receive (c : Handle) (room : Nat) (ws : Wires) : Except NetError Bytes × Wires :=
  match ws.list[c.number]? with
  | none => (.error .notConnected, ws)
  | some w =>
    let (r, w) := w.receive room
    (r, ws.update c.number fun _ => w)

def write (c : Handle) (bs : Bytes) (ws : Wires) : Except NetError Unit × Wires :=
  match ws.list[c.number]? with
  | none => (.error .notConnected, ws)
  | some w =>
    let (r, w) := w.write bs
    (r, ws.update c.number fun _ => w)

def shutdown (ws : Wires) : Wires := { ws with shutDown := true, pending := [] }

/-- The network that the wires make up. -/
abbrev network : Network where
  State := Wires
  Conn := Handle
  address := Handle.address
  accept := accept
  setTimeouts c t ws := ws.update c.number fun w => { w with timeouts := some t }
  receive := receive
  write := write
  close c ws := ws.update c.number Wire.close
  shutdown := shutdown

end Wires

end Microweb.Bench

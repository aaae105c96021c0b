import Microweb.Server.Client
import Microweb.Server.Polling
import Microweb.Slots

/-!
The server: a listener, a fixed number of slots for connections that are served a response, and a
pool of upgraded peers. One tick accepts a connection at most, does one unit of work for each slot
and polls each peer once.
-/

namespace Microweb

structure Server (P : Platform) where
  config : Config
  slots : Slots (Client P)
  peers : Peers P.Conn
  host : Host P

namespace Server

variable {P : Platform}

/-- A server on a platform, before its first tick. -/
def new (config : Config) (network : P.network.State) (volume : P.volume.State)
    (interpreter : P.interpreter.State) (board : P.peripherals.State) :
    Except ConfigError (Server P) :=
  match config.fault? with
  | some e => .error e
  | none => .ok {
      config
      slots := .free config.maxConnections
      peers := .empty config.maxPeers
      host := {
        network, volume, interpreter, board
        control := .start config.timeouts
        uptime := 0
        log := [] } }

def isRunning (s : Server P) : Bool := s.host.control.running

/-- Asks the server to stop. -/
def stop (s : Server P) : Server P :=
  { s with host := { s.host with control := s.host.control.stop } }

/-- Sets the timeouts of connections to come. -/
def setTimeouts (s : Server P) (receive send : Duration) : Server P :=
  { s with host := { s.host with control := s.host.control.setTimeouts receive send } }

/-! ### A tick -/

/-- How long an accept may wait: not at all while there is other work. -/
def acceptWait (s : Server P) : UInt64 :=
  if s.slots.isEmpty ∧ s.peers.isEmpty then s.host.control.timeouts.receive else 0

/-- Puts an accepted connection into a slot. -/
def place (s : Server P) (conn : P.Conn) (h : Host P) : Server P :=
  let address := P.network.address conn
  let h := h.setTimeouts conn h.control.timeouts
  let client : Client P := .fresh conn
  match s.slots.insert? client with
  | some (_, slots) => { s with slots, host := h.note (.accepted address) }
  | none => { s with host := client.release (h.note (.slotsFull address)) }

/-- Accepts a connection, unless all slots are taken. A fatal error of the listener stops the
server. -/
def accept (s : Server P) : Server P :=
  if s.slots.isFull then s
  else match s.host.accept s.acceptWait with
    | (.ok conn, h) => s.place conn h
    | (.error e, h) =>
      if e.isTransient then { s with host := h }
      else if e.isFatal then
        let h := h.note (.listenerFailed e)
        { s with host := { h with control := h.control.stop } }
      else { s with host := h.note (.acceptFailed e) }

/-- Does one unit of work for a slot, and frees it if its connection is done with. -/
def stepSlot (s : Server P) (i : Nat) : Server P :=
  match s.slots.get? i with
  | none => s
  | some client =>
    let (client, peers, h) := client.step s.config s.peers s.host
    if client.phase = .closed then
      { s with
        slots := (s.slots.remove i).2
        peers
        host := client.release (h.note (.slotFree i client.kind)) }
    else { s with slots := s.slots.set i client, peers, host := h }

/-- Does one unit of work for each slot that is taken. -/
def stepSlots (s : Server P) : Server P := s.slots.occupied.foldl stepSlot s

/-- Polls each peer once. -/
def poll (s : Server P) : Server P :=
  let (peers, host) := Polling.round s.config s.peers s.host
  { s with peers, host }

/-- One pass of the server's loop. -/
def tick (s : Server P) : Server P := s.accept.stepSlots.poll

/-! ### The end -/

/-- Closes every connection, every peer and the listener. -/
def shutdown (s : Server P) : Server P :=
  let h := { s.host with control := s.host.control.stop }
  let (clients, slots) := s.slots.drain
  let h := clients.foldl (fun h c => c.abort h) h
  let h := s.peers.list.foldl (fun h p => h.close p.handle) h
  let h := h.closeListener.note .stopped
  { s with slots, peers := { s.peers with list := [] }, host := h }

/-- Ticks until the server is to stop, but `fuel` times at most. -/
def loop : Nat → Server P → Server P
  | 0, s => s
  | fuel + 1, s => if s.isRunning then loop fuel s.tick else s

/-- Serves until the server is to stop, or for `fuel` ticks, and shuts down. -/
def run (fuel : Nat) (s : Server P) : Server P :=
  let n := Notice.serving s.config.contentRoot s.slots.capacity s.peers.capacity
  (loop fuel { s with host := s.host.note n }).shutdown

end Server

end Microweb

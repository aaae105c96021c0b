import Microweb.Bench.FaultyVolume
import Microweb.Bench.Flash
import Microweb.Bench.Registers
import Microweb.Bench.Scripts
import Microweb.Bench.Tree
import Microweb.Bench.Wires
import Microweb.Server

/-!
A server on a bench: clients, faults and controls act on it from outside, one event at a time, and
what can be seen from outside is recorded after each.
-/

namespace Microweb.Bench

/-! ### What is on the bench -/

/-- A volume, and what can be seen of it. -/
structure WatchedVolume where
  volume : Volume
  start : volume.State
  /-- The files that are open, if the volume counts them. -/
  openCount : volume.State → Option Nat
  /-- The paths opened so far, in order, if the volume records them. -/
  opened : volume.State → Option (List String)

namespace WatchedVolume

def flash (f : Flash) : WatchedVolume :=
  ⟨Flash.volume, f, fun f => some f.openCount, fun f => some f.opened.reverse⟩

def tree (t : Tree) : WatchedVolume := ⟨Tree.volume, t, fun _ => none, fun _ => none⟩

end WatchedVolume

/-- How often an interpreter did what. -/
structure Counters where
  loads : Nat
  live : Nat
  calls : Nat
  collections : Nat
deriving DecidableEq, Repr

def Scripts.counters (s : Scripts) : Counters := ⟨s.loads, s.live, s.calls, s.collections⟩

/-- An interpreter, and what can be seen of it. -/
structure WatchedInterpreter where
  interpreter : Interpreter
  start : interpreter.State
  /-- The scripted state, if there is one. -/
  scripts : interpreter.State → Option Scripts
  /-- A script that can be called without being loaded. -/
  unloaded : Option interpreter.Script

namespace WatchedInterpreter

def scripted (s : Scripts) : WatchedInterpreter := ⟨Scripts.interpreter, s, some, none⟩

def absent : WatchedInterpreter := ⟨noScripts, (), fun _ => none, some ()⟩

end WatchedInterpreter

/-- The platform of a bench: wires, a volume with faults, an interpreter and registers. -/
abbrev platform (V : Volume) (I : Interpreter) : Platform :=
  ⟨Wires.network, Faulty.volume V, I, Registers.peripherals⟩

/-- A server on the bench, the names of its clients in the order of connecting, and how much of
what is recorded was shown before. -/
structure Session (V : Volume) (I : Interpreter) where
  server : Server (platform V I)
  clients : List String
  /-- For each wire, the writes shown. -/
  shownWrites : List Nat
  /-- The notes shown. -/
  shownNotes : Nat

/-! ### Events -/

/-- What happens from outside. -/
inductive Event where
  | connect (client : String) (address : SocketAddress)
  | send (client : String) (segment : Bytes)
  | hangUp (client : String)
  | failReceive (client : String) (e : NetError)
  | failWrites (client : String) (e : NetError)
  | failAccept (e : NetError)
  | tick (n : Nat)
  /-- Ticks until the server has closed the connection, but not more often than that. -/
  | untilClosed (client : String) (most : Nat)
  | stop
  | setTimeouts (receive send : Duration)
  | askTimeouts
  | run
  | shutdown
  | setInput (device : Device) (index : UInt32) (v : Binary32)
  | setFreeHeap (bytes : Nat)

/-- What an event returns. -/
inductive Answer where
  | nothing
  | timeouts (t : Timeouts)
  | closedAfter (ticks : Nat)
  | stillOpen
deriving DecidableEq, Repr

namespace Session

variable {V : Volume} {I : Interpreter}

/-- A server before its first event. -/
def new (config : Config) (volume : V.State) (faults : VolumeFaults) (interpreter : I.State)
    (channels : UInt32) : Except ConfigError (Session V I) :=
  (Server.new (P := platform V I) config Wires.empty ⟨volume, faults, 0⟩ interpreter
    (Registers.fresh channels)).map fun server => ⟨server, [], [], 0⟩

def wires (s : Session V I) : Wires := s.server.host.network

/-- Changes the wires. -/
def onWires (s : Session V I) (f : Wires → Wires) : Session V I :=
  { s with server := { s.server with host := { s.server.host with
    network := f s.server.host.network } } }

/-- Changes the registers. -/
def onBoard (s : Session V I) (f : Registers → Registers) : Session V I :=
  { s with server := { s.server with host := { s.server.host with
    board := f s.server.host.board } } }

/-- The number of a client's wire; the client that connected last counts. -/
def numberOf? (s : Session V I) (client : String) : Option Nat :=
  (s.clients.zipIdx.reverse.find? fun (name, _) => name == client).map Prod.snd

/-- Changes a client's wire. -/
def onWire (s : Session V I) (client : String) (f : Wire → Wire) : Session V I :=
  match s.numberOf? client with
  | some n => s.onWires fun ws => ws.update n f
  | none => s

def isClosed (s : Session V I) (client : String) : Bool :=
  ((s.numberOf? client).bind fun n => s.wires.list[n]?).any Wire.closed

def tick (s : Session V I) : Session V I := { s with server := s.server.tick }

def ticks : Nat → Session V I → Session V I
  | 0, s => s
  | n + 1, s => ticks n s.tick

/-- Ticks at least once, and until a client's connection is closed, but `most` times at most. -/
def tickUntilClosed (client : String) : Nat → Nat → Session V I → Answer × Session V I
  | 0, _, s => (.stillOpen, s)
  | most + 1, done, s =>
    let s := s.tick
    if s.isClosed client then (.closedAfter (done + 1), s)
    else tickUntilClosed client most (done + 1) s

/-- The ticks after which a run is taken to go on for ever. -/
def longestRun : Nat := 10000

/-- What an event does. -/
def after (s : Session V I) : Event → Answer × Session V I
  | .connect client address =>
    (.nothing, { s.onWires fun ws => ws.connect address with
      clients := s.clients ++ [client], shownWrites := s.shownWrites ++ [0] })
  | .send client segment => (.nothing, s.onWire client fun w => w.send segment)
  | .hangUp client => (.nothing, s.onWire client Wire.hangUp)
  | .failReceive client e => (.nothing, s.onWire client fun w => w.failReceive e)
  | .failWrites client e => (.nothing, s.onWire client fun w => w.failWrites e)
  | .failAccept e =>
    (.nothing, s.onWires fun ws => { ws with acceptErrors := ws.acceptErrors ++ [e] })
  | .tick n => (.nothing, ticks n s)
  | .untilClosed client most => tickUntilClosed client most 0 s
  | .stop => (.nothing, { s with server := s.server.stop })
  | .setTimeouts receive send => (.nothing, { s with server := s.server.setTimeouts receive send })
  | .askTimeouts => (.timeouts s.server.host.control.timeouts, s)
  | .run => (.nothing, { s with server := s.server.run longestRun })
  | .shutdown => (.nothing, { s with server := s.server.shutdown })
  | .setInput device index v => (.nothing, s.onBoard fun r => r.set device index v)
  | .setFreeHeap bytes => (.nothing, s.onBoard fun r => { r with freeHeap := bytes })

/-! ### What can be seen -/

/-- What can be seen after an event. -/
structure Snapshot where
  /-- What the server wrote to each client since the last event, if anything. -/
  output : List (String × Bytes)
  /-- The clients whose connection the server has closed. -/
  closed : List String
  slots : List (ConnectionKind × Phase)
  peers : List (SocketAddress × String × UInt32)
  running : Bool
  /-- The connections not yet accepted. -/
  pending : Nat
  openFiles : Option Nat
  counters : Option Counters
  answer : Answer
  /-- The notes since the last event, in order. -/
  notes : List Notice

/-- The bytes of the writes after the first so many. -/
def newOutput (w : Wire) (shown : Nat) : Bytes :=
  (w.written.take (w.written.length - shown)).reverse.flatten

/-- What can be seen now, and the session with that shown. -/
def look (volume : V.State → Option Nat) (scripts : I.State → Option Scripts) (answer : Answer)
    (s : Session V I) : Snapshot × Session V I :=
  let h := s.server.host
  let named := s.clients.zip (s.wires.list.zip s.shownWrites)
  let output := named.map fun (client, w, shown) => (client, newOutput w shown)
  ({ output := output.filter fun (_, bs) => ! bs.isEmpty
     closed := (named.filter fun (_, w, _) => w.closed).map Prod.fst
     slots := s.server.slots.items.map fun c => (c.kind, c.phase)
     peers := s.server.peers.list.map fun p => (p.address, p.uri, p.age)
     running := s.server.isRunning
     pending := s.wires.pending.length
     openFiles := volume h.volume.inner
     counters := (scripts h.interpreter).map Scripts.counters
     answer
     notes := (h.log.take (h.log.length - s.shownNotes)).reverse },
   { s with
     shownWrites := s.wires.list.map fun w => w.written.length
     shownNotes := h.log.length })

/-- What can be seen after each of a list of events. -/
def trace (volume : V.State → Option Nat) (scripts : I.State → Option Scripts) :
    List Event → Session V I → List Snapshot × Session V I
  | [], s => ([], s)
  | e :: es, s =>
    let (answer, s) := s.after e
    let (shot, s) := s.look volume scripts answer
    let (shots, s) := trace volume scripts es s
    (shot :: shots, s)

end Session

end Microweb.Bench

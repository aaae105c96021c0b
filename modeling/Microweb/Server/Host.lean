import Microweb.Control
import Microweb.Platform
import Microweb.Server.Notice

/-!
Everything a connection is served with besides the connection itself: the state of the platform,
the control of the server and its log. Each operation of the platform returns its result and the
host after it.
-/

namespace Microweb

structure Host (P : Platform) where
  network : P.network.State
  volume : P.volume.State
  interpreter : P.interpreter.State
  board : P.peripherals.State
  control : Control
  /-- The whole seconds since the server was made. -/
  uptime : Nat
  /-- The newest note first. -/
  log : List Notice

namespace Host

variable {P : Platform}

/-- Adds a note to the log. -/
def note (h : Host P) (n : Notice) : Host P := { h with log := n :: h.log }

/-! ### The network -/

def accept (h : Host P) (wait : UInt64) : Except NetError P.Conn × Host P :=
  let (r, network) := P.network.accept wait h.network
  (r, { h with network })

def setTimeouts (h : Host P) (c : P.Conn) (t : Timeouts) : Host P :=
  { h with network := P.network.setTimeouts c t h.network }

def receive (h : Host P) (c : P.Conn) (room : Nat) : Except NetError Bytes × Host P :=
  let (r, network) := P.network.receive c room h.network
  (r, { h with network })

def write (h : Host P) (c : P.Conn) (bs : Bytes) : Except NetError Unit × Host P :=
  let (r, network) := P.network.write c bs h.network
  (r, { h with network })

def close (h : Host P) (c : P.Conn) : Host P :=
  { h with network := P.network.close c h.network }

def closeListener (h : Host P) : Host P :=
  { h with network := P.network.shutdown h.network }

/-! ### The volume -/

def openFile (h : Host P) (path : String) : Except VolumeError P.File × Host P :=
  let (r, volume) := P.volume.openFile path h.volume
  (r, { h with volume })

def readFile (h : Host P) (f : P.File) (room : Nat) :
    (Except VolumeError Bytes × P.File) × Host P :=
  let (r, volume) := P.volume.read f room h.volume
  (r, { h with volume })

def fileSize (h : Host P) (f : P.File) : Except VolumeError Nat × Host P :=
  let (r, volume) := P.volume.size f h.volume
  (r, { h with volume })

def closeFile (h : Host P) (f : P.File) : Host P :=
  { h with volume := P.volume.close f h.volume }

def isDirectory (h : Host P) (path : String) : Bool × Host P :=
  let (r, volume) := P.volume.isDirectory path h.volume
  (r, { h with volume })

/-! ### The interpreter -/

def setQuery (h : Host P) (q : Query) : Host P :=
  { h with interpreter := P.interpreter.setQuery q h.interpreter }

def setGlobal (h : Host P) (name value : String) : Host P :=
  { h with interpreter := P.interpreter.setGlobal name value h.interpreter }

def load (h : Host P) (path : String) : Except ScriptError P.Script × Host P :=
  let h := if P.interpreter.absent then h.note (.noInterpreter path) else h
  let (r, interpreter) := P.interpreter.load path h.interpreter
  (r, { h with interpreter })

def call (h : Host P) (s : P.Script) :
    (Except ScriptError (Option String) × P.Script) × Host P :=
  let (r, interpreter) := P.interpreter.call s h.interpreter
  (r, { h with interpreter })

def release (h : Host P) (s : P.Script) : Host P :=
  { h with interpreter := P.interpreter.release s h.interpreter }

def collect (h : Host P) : Host P :=
  { h with interpreter := P.interpreter.collect h.interpreter }

/-! ### The board -/

/-- Carries out the command in a payload. -/
def command (h : Host P) (payload : Bytes) : Except CommandError String × Host P :=
  let (r, board) := Command.handle (B := P.peripherals) payload h.board
  (r, { h with board })

def freeHeap (h : Host P) : Nat := P.peripherals.freeHeap h.board

end Host

end Microweb

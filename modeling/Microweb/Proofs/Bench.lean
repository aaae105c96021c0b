import Microweb.Bench.Browser
import Microweb.Bench.Session
import Microweb.Proofs.Record

/-!
Servers on a bench: what clients do to the wires, and servers with a flash volume and scripts on
record.
-/

namespace Microweb.Bench

/-- One thing that clients do, or one accept that is made to fail. -/
inductive Wires.Acts (ws : Wires) : Wires → Prop
  | connect (address : SocketAddress) : Acts ws (ws.connect address)
  | send (number : Nat) (segment : Bytes) : Acts ws (ws.update number fun w => w.send segment)
  | hangUp (number : Nat) : Acts ws (ws.update number Wire.hangUp)
  | failReceive (number : Nat) (e : NetError) :
    Acts ws (ws.update number fun w => w.failReceive e)
  | failWrites (number : Nat) (e : NetError) : Acts ws (ws.update number fun w => w.failWrites e)
  | failAccept (e : NetError) : Acts ws { ws with acceptErrors := ws.acceptErrors ++ [e] }

/-- A client asks for a target. -/
def ask (number : Nat) (target : String) (ws : Wires) : Wires :=
  ws.update number fun w => w.send (getRequest target)

/-- The address of a client, by its number on a local network. -/
def clientAddress (number : UInt8) : SocketAddress := .ofV4 10 0 0 number 4000

/-- A flash volume and scripts, on record. -/
abbrev kit : Platform := (platform Flash.volume Scripts.interpreter).recorded

/-- A server on record, before its first tick. -/
def onRecord (config : Config) (flash : Flash) (scripts : Scripts) : Server kit where
  config
  slots := .free config.maxConnections
  peers := .empty config.maxPeers
  host := {
    network := .empty
    volume := .start ⟨flash, .none, 0⟩
    interpreter := .start scripts
    board := .fresh 4
    control := .start config.timeouts
    uptime := 0
    log := [] }

theorem new_onRecord {config : Config} (h : config.Valid) (flash : Flash) (scripts : Scripts) :
    Server.new (P := kit) config Wires.empty (.start ⟨flash, .none, 0⟩) (.start scripts)
      (Registers.fresh 4) = .ok (onRecord config flash scripts) :=
  Server.new_eq_ok_iff.mpr ⟨h, rfl⟩

end Microweb.Bench

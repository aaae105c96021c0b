import Microweb.Network

/-!
What is set from outside while the server runs: whether it goes on, and the timeouts of the
connections to come.
-/

namespace Microweb

/-- A span of time. -/
structure Duration where
  seconds : Nat
  nanoseconds : Nat
deriving DecidableEq, Repr

/-- The whole milliseconds of a span of time, by their low 64 bits. -/
def Duration.milliseconds (t : Duration) : UInt64 :=
  UInt64.ofNat (t.seconds * 1000 + t.nanoseconds / 1000000)

structure Control where
  running : Bool
  timeouts : Timeouts
deriving DecidableEq, Repr

namespace Control

/-- A server that is to run. -/
def start (timeouts : Timeouts) : Control := ⟨true, timeouts⟩

def setRunning (c : Control) (running : Bool) : Control := { c with running }

/-- Asks the server to stop. -/
def stop (c : Control) : Control := c.setRunning false

def setTimeouts (c : Control) (receive send : Duration) : Control :=
  { c with timeouts := ⟨receive.milliseconds, send.milliseconds⟩ }

end Control

end Microweb

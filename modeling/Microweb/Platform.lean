import Microweb.Board.Device
import Microweb.Network
import Microweb.Script
import Microweb.Volume

/-!
A platform: what a server runs on.
-/

namespace Microweb

structure Platform where
  network : Network
  volume : Volume
  interpreter : Interpreter
  peripherals : Peripherals

namespace Platform

variable (P : Platform)

/-- A handle on a connection. -/
abbrev Conn := P.network.Conn

/-- A handle on an open file. -/
abbrev File := P.volume.File

/-- A loaded script. -/
abbrev Script := P.interpreter.Script

end Platform

end Microweb

import Microweb.Number.Decimal

/-!
Socket addresses: an address of four bytes or of eight 16-bit groups, and a port.
-/

namespace Microweb

/-- The address of a host. -/
inductive HostAddress where
  | v4 (a b c d : UInt8)
  | v6 (groups : Vector UInt16 8)
deriving DecidableEq

/-- An end point: a host, the scope of the host's address where it has one, and a port. -/
structure SocketAddress where
  host : HostAddress
  /-- Zero for hosts with a four-byte address, and for those without a scope. -/
  scope : UInt32
  port : UInt16
deriving DecidableEq

/-- Why a text is no socket address. -/
inductive AddressError where
  | malformed
deriving DecidableEq, Repr

def AddressError.message : AddressError → String
  | .malformed => "invalid socket address syntax"

namespace SocketAddress

/-- The end point of a four-byte address. -/
def ofV4 (a b c d : UInt8) (port : UInt16) : SocketAddress := ⟨.v4 a b c d, 0, port⟩

end SocketAddress

end Microweb

import Microweb.Address
import Microweb.Bytes

/-!
What the server needs of a network: a listener that hands out connections, and on each of them one
attempt at a time to receive or to write. Errors carry codes in order of severity.
-/

namespace Microweb

/-! ### Errors -/

/-- Why an operation on the network failed. -/
inductive NetError where
  | memory
  | buffer
  | timeout
  | routing
  | inProgress
  | value
  | wouldBlock
  | inUse
  | alreadyConnected
  | aborted
  | reset
  | closed
  | notConnected
  | illegalArgument
  | interface
deriving DecidableEq, Repr

namespace NetError

/-- The code of an error; the lower, the worse. -/
def code : NetError → Int
  | memory => -1
  | buffer => -2
  | timeout => -3
  | routing => -4
  | inProgress => -5
  | value => -6
  | wouldBlock => -7
  | inUse => -8
  | alreadyConnected => -9
  | aborted => -10
  | reset => -11
  | closed => -12
  | notConnected => -13
  | illegalArgument => -14
  | interface => -15

/-- The connection, or the listener, is of no more use. -/
def isFatal (e : NetError) : Bool := e.code < alreadyConnected.code

/-- Nothing happened yet; another attempt may succeed. -/
def isTransient (e : NetError) : Bool := e = timeout ∨ e = wouldBlock ∨ e = inProgress

def message : NetError → String
  | memory => "Out of memory error."
  | buffer => "Buffer error."
  | timeout => "Timeout."
  | routing => "Routing problem."
  | inProgress => "Operation in progress."
  | value => "Illegal value."
  | wouldBlock => "Operation would block."
  | inUse => "Address in use."
  | alreadyConnected => "Already connected."
  | aborted => "Connection aborted."
  | reset => "Connection reset."
  | closed => "Connection closed."
  | notConnected => "Not connected."
  | illegalArgument => "Illegal argument."
  | interface => "Low-level netif error."

end NetError

/-- How an operating system reports that an operation on a socket failed. -/
inductive SystemError where
  | timedOut
  | wouldBlock
  | interrupted
  | connectionReset
  | connectionAborted
  | brokenPipe
  | unexpectedEnd
  | notConnected
  | addressInUse
  | alreadyExists
  | invalidInput
  | invalidData
  | outOfMemory
  | hostUnreachable
  | networkUnreachable
  /-- Anything else. -/
  | other
deriving DecidableEq, Repr

/-- The network error that a report of the operating system amounts to. -/
def NetError.ofSystem : SystemError → NetError
  | .timedOut => timeout
  | .wouldBlock => wouldBlock
  | .interrupted => inProgress
  | .connectionReset => reset
  | .connectionAborted => aborted
  | .brokenPipe => closed
  | .unexpectedEnd => closed
  | .notConnected => notConnected
  | .addressInUse => inUse
  | .alreadyExists => alreadyConnected
  | .invalidInput => illegalArgument
  | .invalidData => value
  | .outOfMemory => memory
  | .hostUnreachable => routing
  | .networkUnreachable => routing
  | .other => interface

/-! ### The interface -/

/-- How long a connection may take to receive and to write, in milliseconds. -/
structure Timeouts where
  receive : UInt64
  send : UInt64
deriving DecidableEq, Repr

/-- A network. An operation takes the state of the network and returns the new one. -/
structure Network where
  State : Type
  /-- A handle on one connection. -/
  Conn : Type
  /-- The remote end of a connection. -/
  address : Conn → SocketAddress
  /-- Waits for a connection, that many milliseconds at most. -/
  accept : UInt64 → State → Except NetError Conn × State
  setTimeouts : Conn → Timeouts → State → State
  /-- Receives what is there, that many bytes at most. -/
  receive : Conn → Nat → State → Except NetError Bytes × State
  /-- Writes all bytes, or fails. -/
  write : Conn → Bytes → State → Except NetError Unit × State
  close : Conn → State → State
  /-- Closes the listener. -/
  shutdown : State → State

/-- A network keeps to the room it is given. -/
structure Network.Lawful (N : Network) : Prop where
  length_receive : ∀ (c : N.Conn) (room : Nat) (s s' : N.State) (bs : Bytes),
    N.receive c room s = (.ok bs, s') → bs.length ≤ room

end Microweb

import Microweb.Bytes

/-!
What the server needs of the volume that holds its content: files to be opened by path and read
from front to back, through handles that are closed again.
-/

namespace Microweb

/-- Why an operation on the volume failed. -/
inductive VolumeError where
  | notFound
  | isDirectory
  /-- No more files can be open at a time. -/
  | noHandles
  | io
deriving DecidableEq, Repr

def VolumeError.message : VolumeError → String
  | .notFound => "no such file"
  | .isDirectory => "is a directory"
  | .noHandles => "out of file descriptors"
  | .io => "flash i/o error"

/-- A volume. An operation takes the state of the volume and returns the new one; one that moves
the position in a file returns the handle with the new position. -/
structure Volume where
  State : Type
  /-- A handle on an open file. -/
  File : Type
  openFile : String → State → Except VolumeError File × State
  /-- Reads that many bytes at most; none at the end of the file. -/
  read : File → Nat → State → (Except VolumeError Bytes × File) × State
  /-- Moves to a position, counted from the start, and returns it. -/
  seek : File → Nat → State → (Except VolumeError Nat × File) × State
  /-- The size of the file. -/
  size : File → State → Except VolumeError Nat × State
  close : File → State → State
  isDirectory : String → State → Bool × State

/-- A volume keeps to the room it is given. -/
structure Volume.Lawful (V : Volume) : Prop where
  length_read : ∀ (f f' : V.File) (room : Nat) (s s' : V.State) (bs : Bytes),
    V.read f room s = ((.ok bs, f'), s') → bs.length ≤ room

end Microweb

import Microweb.Volume

/-!
A volume that fails where it is told to, and counts how often it is read.
-/

namespace Microweb.Bench

/-- Where a volume is to fail. -/
structure VolumeFaults where
  /-- Paths that cannot be opened. -/
  opens : List (String × VolumeError)
  /-- Paths whose size cannot be had, or is another. -/
  sizes : List (String × Except VolumeError Nat)
  /-- The most that one read returns. -/
  readLimit : Option Nat
  /-- The read, counted from one, that fails. -/
  failingRead : Option Nat

namespace VolumeFaults

def none : VolumeFaults := ⟨[], [], Option.none, Option.none⟩

end VolumeFaults

/-- A volume with its faults and the number of reads so far. -/
structure Faulty (S : Type) where
  inner : S
  faults : VolumeFaults
  reads : Nat

/-- A file of such a volume, with the path it was opened by. -/
structure FaultyFile (F : Type) where
  inner : F
  path : String

namespace Faulty

variable (V : Volume)

def openFile (path : String) (s : Faulty V.State) :
    Except VolumeError (FaultyFile V.File) × Faulty V.State :=
  match s.faults.opens.lookup path with
  | some e => (.error e, s)
  | none =>
    let (r, inner) := V.openFile path s.inner
    (r.map fun f => ⟨f, path⟩, { s with inner })

def read (f : FaultyFile V.File) (room : Nat) (s : Faulty V.State) :
    (Except VolumeError Bytes × FaultyFile V.File) × Faulty V.State :=
  let reads := s.reads + 1
  if s.faults.failingRead = some reads then ((.error .io, f), { s with reads })
  else
    let room := match s.faults.readLimit with
      | some limit => min limit room
      | none => room
    let ((r, file), inner) := V.read f.inner room s.inner
    ((r, { f with inner := file }), { s with inner, reads })

def seek (f : FaultyFile V.File) (position : Nat) (s : Faulty V.State) :
    (Except VolumeError Nat × FaultyFile V.File) × Faulty V.State :=
  let ((r, file), inner) := V.seek f.inner position s.inner
  ((r, { f with inner := file }), { s with inner })

def size (f : FaultyFile V.File) (s : Faulty V.State) :
    Except VolumeError Nat × Faulty V.State :=
  match s.faults.sizes.lookup f.path with
  | some r => (r, s)
  | none =>
    let (r, inner) := V.size f.inner s.inner
    (r, { s with inner })

/-- The volume `V` with faults. -/
abbrev volume : Volume where
  State := Faulty V.State
  File := FaultyFile V.File
  openFile := openFile V
  read := read V
  seek := seek V
  size := size V
  close f s := { s with inner := V.close f.inner s.inner }
  isDirectory path s :=
    let (r, inner) := V.isDirectory path s.inner
    (r, { s with inner })

end Faulty

end Microweb.Bench

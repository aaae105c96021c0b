import Microweb.Volume

/-!
A volume in memory, with paths as flat names. Every directory of a file exists without being made,
and a limit can be set to the number of open files.
-/

namespace Microweb.Bench

/-- A file that is open: its path, and the position in it. -/
structure OpenFile where
  path : String
  position : Nat
deriving DecidableEq, Repr

structure Flash where
  /-- The contents by path; of two for one path the first counts. -/
  files : List (String × Bytes)
  directories : List String
  /-- The files opened and not yet closed. -/
  openCount : Nat
  maxOpen : Option Nat
  /-- The paths opened so far, the last first. -/
  opened : List String
deriving DecidableEq, Repr

namespace Flash

def empty : Flash := ⟨[], [], 0, none, []⟩

/-- A path without the slashes at its end; the root keeps its own. -/
def directoryName (path : String) : String :=
  match path.toList.reverse.dropWhile (· == '/') with
  | [] => "/"
  | cs => String.ofList cs.reverse

/-- What stands before each slash of a path but one at its start. -/
def parents (path : String) : List String :=
  (path.toList.zipIdx.filter fun (c, i) => c == '/' && 0 < i).map fun (_, i) =>
    String.ofList (path.toList.take i)

/-- Adds a file, in place of one with its path. -/
def withFile (f : Flash) (path : String) (content : Bytes) : Flash :=
  { f with files := (path, content) :: f.files, directories := parents path ++ f.directories }

def withDirectory (f : Flash) (path : String) : Flash :=
  { f with directories := directoryName path :: parents path ++ f.directories }

def isDirectory (f : Flash) (path : String) : Bool :=
  f.directories.contains (directoryName path)

def content? (f : Flash) (path : String) : Option Bytes := f.files.lookup path

def openFile (path : String) (f : Flash) : Except VolumeError OpenFile × Flash :=
  if f.isDirectory path then (.error .isDirectory, f)
  else if (f.content? path).isNone then (.error .notFound, f)
  else if f.maxOpen.any (· ≤ f.openCount) then (.error .noHandles, f)
  else (.ok ⟨path, 0⟩, { f with openCount := f.openCount + 1, opened := path :: f.opened })

def read (file : OpenFile) (room : Nat) (f : Flash) :
    (Except VolumeError Bytes × OpenFile) × Flash :=
  match f.content? file.path with
  | none => ((.error .io, file), f)
  | some content =>
    let bs := (content.drop file.position).take room
    ((.ok bs, { file with position := file.position + bs.length }), f)

/-- Moves to a position, but not beyond the end. -/
def seek (file : OpenFile) (position : Nat) (f : Flash) :
    (Except VolumeError Nat × OpenFile) × Flash :=
  match f.content? file.path with
  | none => ((.error .io, file), f)
  | some content =>
    let position := min position content.length
    ((.ok position, { file with position }), f)

def size (file : OpenFile) (f : Flash) : Except VolumeError Nat × Flash :=
  match f.content? file.path with
  | none => (.error .io, f)
  | some content => (.ok content.length, f)

def close (_ : OpenFile) (f : Flash) : Flash := { f with openCount := f.openCount - 1 }

abbrev volume : Volume where
  State := Flash
  File := OpenFile
  openFile := openFile
  read := read
  seek := seek
  size := size
  close := close
  isDirectory path f := (f.isDirectory path, f)

end Flash

end Microweb.Bench

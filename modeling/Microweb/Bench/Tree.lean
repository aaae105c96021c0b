import Microweb.Bench.Flash
import Microweb.Text.Utf8

/-!
A volume that is a directory of a host: paths are walked segment by segment, from directory to
directory, and never lead out of it.
-/

namespace Microweb.Bench

/-- A place in the directory, by the names on the way to it. -/
abbrev Place := List String

structure Tree where
  /-- The contents of the files; of two for one place the first counts. -/
  files : List (Place × Bytes)
  directories : List Place
deriving DecidableEq, Repr

namespace Tree

def empty : Tree := ⟨[], []⟩

/-- A path without the slashes in front. -/
def relative (path : String) : String := String.ofList (path.toList.dropWhile (· == '/'))

/-- The segments of a path, from its first name on. -/
def segments (path : String) : List String :=
  ((relative path).toList.splitOn '/').map String.ofList

/-- The segment names nothing but the directory it stands in. -/
def staysPut (segment : String) : Bool := segment == "" || segment == "."

/-- The names on the way that a path describes. -/
def place (path : String) : Place := (segments path).filter fun s => ! staysPut s

/-- All places above one, and itself. -/
def above (p : Place) : List Place := (List.range (p.length + 1)).map p.take

def withFile (t : Tree) (path : String) (content : Bytes) : Tree :=
  let p := place path
  { files := (p, content) :: t.files, directories := above p.dropLast ++ t.directories }

def withDirectory (t : Tree) (path : String) : Tree :=
  { t with directories := above (place path) ++ t.directories }

def isDirectoryAt (t : Tree) (p : Place) : Bool := p.isEmpty || t.directories.contains p

def content? (t : Tree) (p : Place) : Option Bytes := t.files.lookup p

/-! ### Walking -/

/-- The longest name of a directory or a file, in bytes. -/
def maxName : Nat := 255

/-- The longest path, in bytes. -/
def maxPath : Nat := 4095

/-- Follows segments from a place. Only a directory leads on, be it to itself. -/
def walk (t : Tree) : List String → Place → Except VolumeError Place
  | [], p => .ok p
  | s :: rest, p =>
    if ! t.isDirectoryAt p then .error .io
    else if staysPut s then walk t rest p
    else if maxName < (Utf8.encode s).length then .error .io
    else
      let q := p ++ [s]
      if t.isDirectoryAt q || (t.content? q).isSome then walk t rest q else .error .notFound

/-- The place that a path leads to. A path that leads up is refused as missing. -/
def resolve (t : Tree) (path : String) : Except VolumeError Place :=
  if (segments path).contains ".." then .error .notFound
  else if path.toList.contains '\x00' then .error .io
  else if maxPath < (Utf8.encode (relative path)).length then .error .io
  else t.walk (segments path) []

/-- A file that is open: its content, and the position in it. -/
structure OpenAt where
  content : Bytes
  position : Nat
deriving DecidableEq, Repr

def openFile (path : String) (t : Tree) : Except VolumeError OpenAt × Tree :=
  match t.resolve path with
  | .error e => (.error e, t)
  | .ok p =>
    if t.isDirectoryAt p then (.error .isDirectory, t)
    else (.ok ⟨(t.content? p).getD [], 0⟩, t)

def isDirectory (path : String) (t : Tree) : Bool :=
  match t.resolve path with
  | .error _ => false
  | .ok p => t.isDirectoryAt p

def read (file : OpenAt) (room : Nat) (t : Tree) :
    (Except VolumeError Bytes × OpenAt) × Tree :=
  let bs := (file.content.drop file.position).take room
  ((.ok bs, { file with position := file.position + bs.length }), t)

/-- Moves to a position, which may lie beyond the end but must fit 63 bits. -/
def seek (file : OpenAt) (position : Nat) (t : Tree) :
    (Except VolumeError Nat × OpenAt) × Tree :=
  if position < Nat.pow 2 63 then ((.ok position, { file with position }), t)
  else ((.error .io, file), t)

abbrev volume : Volume where
  State := Tree
  File := OpenAt
  openFile := openFile
  read := read
  seek := seek
  size file t := (.ok file.content.length, t)
  close _ t := t
  isDirectory path t := (t.isDirectory path, t)

end Tree

end Microweb.Bench

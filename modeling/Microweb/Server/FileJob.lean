import Microweb.Config
import Microweb.Content.Kind
import Microweb.Content.Path
import Microweb.Reply.Head
import Microweb.Server.Host

/-!
Sending a file: the head announces its size, then each step reads and writes one piece, until as
much is sent as was announced or the file has no more.
-/

namespace Microweb

/-- What the start of a response led to. -/
inductive Begun (J : Type) where
  | streaming (job : J)
  /-- There is nothing to stream, and a job at most to be ended. -/
  | done (job : Option J)
  | notFound
  /-- Something ran out; the connection is dropped without a response. -/
  | abort

/-- Whether a response has more to come. -/
inductive Progress where
  | more
  | done
deriving DecidableEq, Repr

/-- A file being sent. -/
structure FileJob (P : Platform) where
  file : P.File
  /-- The size when it was opened, which the head announced. -/
  size : Nat
  sent : Nat
  /-- How much is read at a time. -/
  chunk : Nat

variable {P : Platform}

/-! ### Finding the index of a directory -/

/-- Whether a path opens with a size that is not zero. -/
def Host.opensNonempty (h : Host P) (path : String) : Bool × Host P :=
  match h.openFile path with
  | (.error _, h) => (false, h)
  | (.ok file, h) =>
    let (size, h) := h.fileSize file
    (0 < size.toOption.getD 0, h.closeFile file)

/-- The first of the names, under a directory without slashes at its end, that opens with a size
that is not zero. -/
def Host.firstNonempty (dir : String) : List String → Host P → Option String × Host P
  | [], h => (none, h)
  | name :: names, h =>
    let path := dir ++ "/" ++ name
    match h.opensNonempty path with
    | (true, h) => (some path, h)
    | (false, h) => firstNonempty dir names h

/-- The index file of a directory. -/
def Host.indexOf (h : Host P) (dir : String) (names : List String) : Option String × Host P :=
  Host.firstNonempty (Content.trimSlashes dir) names h

namespace FileJob

/-- Opens a file and writes the head of the response. -/
def begin (conn : P.Conn) (path : String) (chunk : Nat) (h : Host P) :
    Begun (FileJob P) × Host P :=
  match h.openFile path with
  | (.error .noHandles, h) => (.abort, h.note (.noFileHandle path))
  | (.error e, h) => (.notFound, h.note (.cannotOpen path e))
  | (.ok file, h) =>
    match h.fileSize file with
    | (.error e, h) => (.notFound, (h.note (.cannotSize path e)).closeFile file)
    | (.ok size, h) =>
      let job : FileJob P := ⟨file, size, 0, chunk⟩
      let head := Reply.contentHead (Content.typeOf (Content.suffix? path)) (some size)
      match h.write conn head with
      | (.ok (), h) => (.streaming job, h)
      | (.error e, h) => (.done (some job), h.note (.networkFailed (P.network.address conn) e))

/-- Sends one piece. -/
def step (job : FileJob P) (conn : P.Conn) (h : Host P) : Progress × FileJob P × Host P :=
  if job.size ≤ job.sent then (.done, job, h)
  else match h.readFile job.file job.chunk with
    | ((.error e, file), h) => (.done, { job with file }, h.note (.readFailed job.sent e))
    | ((.ok [], file), h) => (.done, { job with file }, h)
    | ((.ok bs, file), h) =>
      match h.write conn bs with
      | (.error e, h) =>
        (.done, { job with file }, h.note (.networkFailed (P.network.address conn) e))
      | (.ok (), h) =>
        let sent := job.sent + bs.length
        (if sent < job.size then .more else .done, { job with file, sent }, h)

/-- Closes the file. -/
def finish (job : FileJob P) (h : Host P) : Host P := h.closeFile job.file

end FileJob

end Microweb

import Microweb.Server.FileJob

/-!
Running a script: for a request it is called once a step, for a piece of the response each, until
it returns nothing; for a frame it is called just once.
-/

namespace Microweb

/-- A script that produces a response. -/
structure ScriptJob (P : Platform) where
  script : P.Script
  /-- The calls made so far. -/
  steps : UInt32

variable {P : Platform}

namespace ScriptJob

/-- Loads a script with the parameters of a request and writes the head of the response. -/
def begin (conn : P.Conn) (path : String) (query : Query) (h : Host P) :
    Begun (ScriptJob P) × Host P :=
  match (h.setQuery query).load path with
  | (.error .outOfMemory, h) => (.abort, (h.note (.scriptMemory path)).collect)
  | (.error e, h) => (.done none, h.note (.cannotLoad path e))
  | (.ok script, h) =>
    let job : ScriptJob P := ⟨script, 0⟩
    let head := Reply.contentHead (Content.typeOf (Content.suffix? path)) none
    match h.write conn head with
    | (.ok (), h) => (.streaming job, h)
    | (.error e, h) => (.done (some job), h.note (.networkFailed (P.network.address conn) e))

/-- The bytes of a piece of output, at most `limit` of them. -/
def cut (bs : Bytes) (limit : Nat) (h : Host P) : Bytes × Host P :=
  if limit < bs.length then (bs.take limit, h.note (.outputCut bs.length limit)) else (bs, h)

/-- Calls the script once. A nil or empty result ends the response. -/
def step (job : ScriptJob P) (conn : P.Conn) (outputSize : Nat) (stepLimit : UInt32)
    (h : Host P) : Progress × ScriptJob P × Host P :=
  if stepLimit ≤ job.steps then (.done, job, h.note (.scriptStopped job.steps))
  else
    let ((result, script), h) := h.call job.script
    let job := { job with script, steps := job.steps + 1 }
    let h := h.collect
    match result with
    | .error e => (.done, job, h.note (.scriptFailed e))
    | .ok none => (.done, job, h)
    | .ok (some piece) =>
      if piece.isEmpty then (.done, job, h)
      else
        let (bs, h) := cut (Utf8.encode piece) outputSize h
        match h.write conn bs with
        | (.ok (), h) => (.more, job, h)
        | (.error e, h) => (.done, job, h.note (.networkFailed (P.network.address conn) e))

/-- Releases the script. -/
def finish (job : ScriptJob P) (h : Host P) : Host P := (h.release job.script).collect

end ScriptJob

/-- The global that holds the payload of the frame a script runs for. -/
def frameGlobal : String := "ws_data"

/-- Runs a script once for a frame and returns its result. -/
def Host.runForFrame (h : Host P) (path payload : String) : Option String × Host P :=
  match ((h.setQuery []).setGlobal frameGlobal payload).load path with
  | (.error e, h) => (none, h.note (.cannotLoad path e))
  | (.ok script, h) =>
    let ((result, script), h) := h.call script
    let h := (h.release script).collect
    match result with
    | .ok out => (out, h)
    | .error e => (none, h.note (.frameScriptFailed path e))

end Microweb

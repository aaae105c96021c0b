import Microweb.Head.Query

/-!
What the server needs of a script interpreter: scripts are loaded by path, called any number of
times for one more piece of output each, and released.
-/

namespace Microweb

/-- Why a script cannot be loaded or has failed. -/
inductive ScriptError where
  | notFound
  | malformed (detail : String)
  | outOfMemory
  | runtime (detail : String)
  | internal (detail : String)
deriving DecidableEq, Repr

def ScriptError.message : ScriptError → String
  | .notFound => "script not found"
  | .malformed detail => "syntax error: " ++ detail
  | .outOfMemory => "out of memory"
  | .runtime detail => "runtime error: " ++ detail
  | .internal detail => "internal error: " ++ detail

/-- An interpreter. An operation takes the state of the interpreter and returns the new one; a
call also returns the script as it is after the call. -/
structure Interpreter where
  State : Type
  /-- A loaded script. -/
  Script : Type
  /-- Publishes the parameters of the current request. -/
  setQuery : Query → State → State
  setGlobal : String → String → State → State
  load : String → State → Except ScriptError Script × State
  /-- Calls the script for one result, which may be nil. -/
  call : Script → State → (Except ScriptError (Option String) × Script) × State
  release : Script → State → State
  /-- Reclaims what is no longer in use. -/
  collect : State → State
  /-- The interpreter has no scripts at all and wants that noted when one is asked for. -/
  absent : Bool

end Microweb

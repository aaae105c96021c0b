import Microweb.Script

/-!
Interpreters without a language: one whose scripts behave as laid down for their paths, and one
that has no scripts.
-/

namespace Microweb.Bench

/-- What a script does when it is loaded and called. -/
inductive Behavior where
  /-- Returns each page in turn, then nil. -/
  | pages (pages : List String)
  | loadError (e : ScriptError)
  | callError (e : ScriptError)
  /-- Returns a global once. -/
  | echoGlobal (name : String)
  /-- Returns a parameter of the request once. -/
  | echoQuery (name : String)
  /-- Returns a page again and again. -/
  | forever (page : String)
deriving DecidableEq, Repr

/-- A script that was loaded, and how often it was called. -/
structure LoadedScript where
  behavior : Behavior
  calls : Nat
deriving DecidableEq, Repr

structure Scripts where
  /-- What there is to load; of two scripts for one path the first counts. -/
  scripts : List (String × Behavior)
  globals : List (String × String)
  query : Query
  /-- The scripts loaded so far. -/
  loads : Nat
  /-- The scripts loaded and not yet released. -/
  live : Nat
  calls : Nat
  collections : Nat
deriving DecidableEq, Repr

namespace Scripts

def empty : Scripts := ⟨[], [], [], 0, 0, 0, 0⟩

/-- Adds a script, in place of one with its path. -/
def withScript (s : Scripts) (path : String) (b : Behavior) : Scripts :=
  { s with scripts := (path, b) :: s.scripts }

def global? (s : Scripts) (name : String) : Option String := s.globals.lookup name

def setGlobal (name value : String) (s : Scripts) : Scripts :=
  { s with globals := (name, value) :: s.globals.filter fun g => g.1 != name }

def load (path : String) (s : Scripts) : Except ScriptError LoadedScript × Scripts :=
  match s.scripts.lookup path with
  | none => (.error .notFound, s)
  | some (.loadError e) => (.error e, s)
  | some b => (.ok ⟨b, 0⟩, { s with loads := s.loads + 1, live := s.live + 1 })

/-- What the call after `n` others returns. -/
def result (b : Behavior) (n : Nat) (s : Scripts) : Except ScriptError (Option String) :=
  match b with
  | .pages ps => .ok ps[n]?
  | .loadError e => .error e
  | .callError e => .error e
  | .echoGlobal name => .ok (if n = 0 then s.global? name else none)
  | .echoQuery name => .ok (if n = 0 then s.query.get? name else none)
  | .forever page => .ok (some page)

def call (script : LoadedScript) (s : Scripts) :
    (Except ScriptError (Option String) × LoadedScript) × Scripts :=
  ((result script.behavior script.calls s, { script with calls := script.calls + 1 }),
    { s with calls := s.calls + 1 })

abbrev interpreter : Interpreter where
  State := Scripts
  Script := LoadedScript
  setQuery q s := { s with query := q }
  setGlobal := setGlobal
  load := load
  call := call
  release _ s := { s with live := s.live - 1 }
  collect s := { s with collections := s.collections + 1 }
  absent := false

end Scripts

/-- No interpreter: no script is ever found. -/
abbrev noScripts : Interpreter where
  State := Unit
  Script := Unit
  setQuery _ s := s
  setGlobal _ _ s := s
  load _ s := (.error .notFound, s)
  call script s := ((.error (.internal "no script engine"), script), s)
  release _ s := s
  collect s := s
  absent := true

end Microweb.Bench

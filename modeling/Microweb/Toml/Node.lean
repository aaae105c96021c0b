/-!
The values of a TOML document, and how its headers and keys put them into tables. A table
remembers how it came about, for that decides who may add to it.
-/

namespace Microweb.Toml

/-- How a table came about. -/
inductive TableOrigin where
  /-- Written in braces, as a value; nothing is added to it. -/
  | braces
  /-- By a header of its own; also the table of the whole document. -/
  | header
  /-- On the way to the table of a longer header. -/
  | implied
  /-- On the way to the value of a dotted key. -/
  | dotted
deriving DecidableEq, Repr

/-- A value. Dates and numbers with a fraction are kept as they are written. -/
inductive Node where
  | text (s : String)
  | integer (n : Int)
  | real (literal : String)
  | truth (b : Bool)
  | moment (literal : String)
  | array (items : List Node)
  | table (origin : TableOrigin) (entries : List (String × Node))
  /-- Tables with headers in double brackets, the last one last. -/
  | tables (elements : List (List (String × Node)))

/-- The keys of a table and their values, in the order they came. -/
abbrev Entries := List (String × Node)

namespace Entries

def get? (es : Entries) (key : String) : Option Node := List.lookup key es

def has (es : Entries) (key : String) : Bool := es.any fun e => e.1 == key

/-- Gives a key a value, in its place or at the end. -/
def put (es : Entries) (key : String) (v : Node) : Entries :=
  if es.has key then es.map fun e => if e.1 == key then (key, v) else e else es ++ [(key, v)]

def erase (es : Entries) (key : String) : Entries := es.filter fun e => e.1 != key

/-- Changes the table at the end of a path, forming those on the way that are missing. A path of
keys may not lead through a table with a header of its own, and no path leads through a value.
Through tables in double brackets it leads to the last. -/
def alter {α : Type} (byKey : Bool) (f : TableOrigin → Entries → Option (α × Entries)) :
    List String → TableOrigin → Entries → Option (α × Entries)
  | [], origin, es => f origin es
  | k :: path, _, es =>
    match es.get? k with
    | none =>
      let origin := if byKey then .dotted else .implied
      (alter byKey f path origin []).map fun (a, sub) => (a, es.put k (.table origin sub))
    | some (.table .braces _) => none
    | some (.table origin sub) =>
      if byKey ∧ origin = .header then none
      else (alter byKey f path origin sub).map fun (a, sub) => (a, es.put k (.table origin sub))
    | some (.tables elements) =>
      match elements.reverse with
      | [] => none
      | last :: before =>
        (alter byKey f path .header last).map fun (a, last) =>
          (a, es.put k (.tables (before.reverse ++ [last])))
    | some _ => none

/-- Adds a value by a path of keys and a last one. The last key must be new, and a path that is
not empty must end at a table that such paths have formed. -/
def define (path : List String) (key : String) (v : Node) (origin : TableOrigin) (es : Entries) :
    Option Entries :=
  (alter true (fun origin es =>
    if ! path.isEmpty ∧ origin ≠ .dotted then none
    else if es.has key then none
    else some ((), es ++ [(key, v)])) path origin es).map Prod.snd

end Entries

/-! ### Documents -/

/-- A document being read: its finished tables, and the table that keys are added to, with the
path of its header. -/
structure Document where
  root : Entries
  current : Entries
  path : List String
  /-- The header is in double brackets. -/
  isElement : Bool

namespace Document

def empty : Document := ⟨[], [], [], false⟩

/-- Puts the current table in its place. -/
def close (d : Document) : Option Entries :=
  match d.path.getLast? with
  | none => some d.current
  | some key =>
    (Entries.alter false (fun _ es =>
      if d.isElement then
        match es.get? key with
        | some (.tables elements) => some ((), es.put key (.tables (elements ++ [d.current])))
        | _ => none
      else some ((), es.put key (.table .header d.current))) d.path.dropLast .header d.root).map
        Prod.snd

/-- Starts the table of a header. It must be new, or have come about on the way to others. -/
def header (path : List String) (d : Document) : Option Document := do
  let root ← d.close
  let key ← path.getLast?
  let (current, root) ← Entries.alter false (fun _ es =>
    match es.get? key with
    | none => some ([], es)
    | some (.table .implied sub) => some (sub, es.erase key)
    | some _ => none) path.dropLast .header root
  return ⟨root, current, path, false⟩

/-- Starts one more table of a header in double brackets. -/
def elementHeader (path : List String) (d : Document) : Option Document := do
  let root ← d.close
  let key ← path.getLast?
  let ((), root) ← Entries.alter false (fun _ es =>
    match es.get? key with
    | none => some ((), es ++ [(key, .tables [])])
    | some (.tables _) => some ((), es)
    | some _ => none) path.dropLast .header root
  return ⟨root, [], path, true⟩

/-- Adds a value to the current table. -/
def define (path : List String) (v : Node) (d : Document) : Option Document := do
  let key ← path.getLast?
  let current ← d.current.define path.dropLast key v .header
  return { d with current }

end Document

end Microweb.Toml

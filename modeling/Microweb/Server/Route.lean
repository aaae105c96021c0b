import Microweb.Head.Request
import Microweb.Server.FileJob

/-!
What a request leads to: a file to be sent, a script to be run, or nothing. A directory stands for
its index file, and the suffix of the path that results tells scripts from files.
-/

namespace Microweb

inductive Route where
  | file (path : String)
  | script (path : String)
  | notFound
deriving DecidableEq, Repr

namespace Route

/-- The path has a suffix of scripts. -/
def namesScript (path : String) : Bool := (Content.suffix? path).any Content.isScript

/-- The route to a path that is no directory. -/
def ofPath (path : String) : Route := if namesScript path then .script path else .file path

/-- The path ends with a slash, or the volume says that it is a directory. -/
def isDirectory {P : Platform} (path : String) (h : Host P) : Bool × Host P :=
  if path.toList.getLast? = some '/' then (true, h) else h.isDirectory path

/-- The route of a request for `uri`. -/
def find {P : Platform} (config : Config) (uri : String) (h : Host P) : Route × Host P :=
  match Content.pathUnder? config.contentRoot uri with
  | none => (.notFound, h.note (.rejected uri))
  | some path =>
    match isDirectory path h with
    | (false, h) => (ofPath path, h)
    | (true, h) =>
      match h.indexOf path config.indexFiles with
      | (some index, h) => (ofPath index, h)
      | (none, h) => (.notFound, h)

end Route

end Microweb

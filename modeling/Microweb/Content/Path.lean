/-!
Paths of content: the path on the volume that a request path names, and the suffix that says what
kind of content it is.
-/

namespace Microweb.Content

/-- A segment that leads one directory up. -/
def parentSegment : List Char := ['.', '.']

/-- The segments of a path stand between slashes. -/
def segments (path : String) : List (List Char) := path.toList.splitOn '/'

/-- A text without the slashes at its end. -/
def trimSlashes (s : String) : String :=
  String.ofList (s.toList.reverse.dropWhile (· == '/')).reverse

/-- The path of `uri` under a root directory; none if it has a segment that leads up. -/
def pathUnder? (root uri : String) : Option String :=
  if (segments uri).contains parentSegment then none
  else
    let joint := if uri.toList.head? = some '/' then "" else "/"
    some (trimSlashes root ++ joint ++ uri)

/-- What follows the last slash of a path. -/
def lastSegment (path : String) : List Char :=
  (path.toList.reverse.takeWhile (· != '/')).reverse

/-- What follows the first dot of the last segment, in lower case; none if there is no dot or
nothing after it. -/
def suffix? (path : String) : Option String :=
  match (lastSegment path).dropWhile (· != '.') with
  | _ :: c :: r => some (String.ofList ((c :: r).map Char.toLower))
  | _ => none

end Microweb.Content

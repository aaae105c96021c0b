/-!
What a suffix says about content: its media type, and whether it is a script to be run.
-/

namespace Microweb.Content

/-- The media type of what has no known suffix. -/
def defaultType : String := "text/html"

/-- The media types of the known suffixes. -/
def types : List (String × String) :=
  [("htm", "text/html"), ("html", "text/html"), ("ssi", "text/html"), ("lua", "text/html"),
   ("cgi", "text/html"), ("css", "text/css"), ("js", "application/javascript"),
   ("json", "application/json"), ("txt", "text/plain"), ("xml", "text/xml"),
   ("jpg", "image/jpeg"), ("jpeg", "image/jpeg"), ("png", "image/png"), ("gif", "image/gif"),
   ("ico", "image/x-icon"), ("svg", "image/svg+xml")]

/-- The media type for a suffix in lower case. -/
def typeOf (suffix : Option String) : String :=
  (suffix.bind fun s => List.lookup s types).getD defaultType

/-- The suffixes, in lower case, of what is run instead of sent. -/
def scriptSuffixes : List String := ["lua", "cgi"]

def isScript (suffix : String) : Bool := scriptSuffixes.contains suffix

end Microweb.Content

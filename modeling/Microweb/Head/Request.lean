import Microweb.Content.Path
import Microweb.Head.Field
import Microweb.Head.Query
import Microweb.Head.RequestLine

/-!
A request, read from the head that came in the first receive of a connection. Only the request
line is read at once; header fields are looked up when they are asked for.
-/

namespace Microweb

structure Request where
  method : Method
  /-- The decoded path. -/
  uri : String
  /-- The suffix of the path, in lower case. -/
  suffix : Option String
  query : Query
  version : Version
  /-- The bytes the request was read from. -/
  head : Bytes
deriving DecidableEq

namespace Request

/-- Reads the head of a request whose path has at most `maxPath` bytes. -/
def parse (head : Bytes) (maxPath : Nat) : Except ParseError Request :=
  match Line.at? head 0 with
  | none => .error ⟨.incompleteMessage, .startLine, 0⟩
  | some (line, _) =>
  match RequestLine.parse line maxPath with
  | .error e => .error e
  | .ok parts =>
  match Percent.decode (parts.path.slice head) with
  | .error _ => .error ⟨.invalidTarget, .startLine, parts.path.start⟩
  | .ok uri =>
    .ok {
      method := parts.method
      uri
      suffix := Content.suffix? uri
      query := match parts.query with
        | some span => Query.parse (span.slice head)
        | none => []
      version := parts.version
      head }

/-- The value of a header field. -/
def field? (r : Request) (name : String) : Option Bytes := Field.find? r.head name

/-- The request asks for the connection to become a socket of messages. -/
def wantsUpgrade (r : Request) : Bool :=
  (r.field? "Upgrade").any fun v => v.sameIgnoringCase (Utf8.encode "websocket")

end Request

end Microweb

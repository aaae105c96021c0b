import Microweb.Head.Version
import Microweb.Text.Utf8

/-!
Responses: a status line, header fields in the order they were added, an empty line, and a body.
The splitter takes a response apart again at its first empty line.
-/

namespace Microweb

/-- What became of a request. -/
inductive Status where
  | switchingProtocols
  | ok
  | notFound
deriving DecidableEq, Repr

namespace Status

def code : Status → Nat
  | switchingProtocols => 101
  | ok => 200
  | notFound => 404

def reason : Status → String
  | switchingProtocols => "Switching Protocols"
  | ok => "OK"
  | notFound => "Not Found"

end Status

/-- The head of a response. -/
structure ReplyHead where
  status : Status
  fields : List (String × String)
deriving DecidableEq, Repr

namespace ReplyHead

/-- A head without fields. -/
def ofStatus (status : Status) : ReplyHead := ⟨status, []⟩

/-- Adds a field after those already there. -/
def field (h : ReplyHead) (name value : String) : ReplyHead :=
  { h with fields := h.fields ++ [(name, value)] }

def contentType (h : ReplyHead) (type : String) : ReplyHead := h.field "Content-type" type

def contentLength (h : ReplyHead) (n : Nat) : ReplyHead :=
  h.field "Content-Length" (Decimal.text n)

/-- Announces that the connection closes after the response. -/
def close (h : ReplyHead) : ReplyHead := h.field "Connection" "close"

def lineEnd : String := "\r\n"

def statusLine (h : ReplyHead) : String :=
  Version.oneOne.text ++ " " ++ Decimal.text h.status.code ++ " " ++ h.status.reason ++ lineEnd

def fieldLine (f : String × String) : String := f.1 ++ ": " ++ f.2 ++ lineEnd

/-- The bytes of the head, the empty line at its end included. -/
def bytes (h : ReplyHead) : Bytes :=
  Utf8.encode h.statusLine ++ h.fields.flatMap (fun f => Utf8.encode (fieldLine f)) ++
    Utf8.encode lineEnd

/-- The head and a body, whose length it announces. -/
def withBody (h : ReplyHead) (body : Bytes) : Bytes :=
  (h.contentLength body.length).close.bytes ++ body

end ReplyHead

namespace Reply

/-- The head of content of a type. Without a length the body lasts until the connection closes. -/
def contentHead (type : String) (length : Option Nat) : Bytes :=
  let h := (ReplyHead.ofStatus .ok).contentType type
  (match length with
    | some n => h.contentLength n
    | none => h).close.bytes

/-- The answer that turns a connection into a socket of messages. -/
def switchingProtocols (accept : String) : Bytes :=
  ((((ReplyHead.ofStatus .switchingProtocols).field "Upgrade" "websocket").field
    "Connection" "Upgrade").field "Sec-WebSocket-Accept" accept).bytes

/-! ### Taking a response apart -/

/-- The empty line that ends a head, with the end of the line before it. -/
def blankLine : Bytes := [Byte.cr, Byte.lf, Byte.cr, Byte.lf]

/-- What comes before and after the first empty line, read after the bytes in `done`, which are in
reverse. -/
def splitAfter? (done : Bytes) : Bytes → Option (Bytes × Bytes)
  | [] => none
  | b :: rest =>
    if blankLine.isPrefixOf (b :: rest) then some (done.reverse, (b :: rest).drop 4)
    else splitAfter? (b :: done) rest

/-- The head, without the empty line, and the body of a response. -/
def split? (raw : Bytes) : Option (Bytes × Bytes) := splitAfter? [] raw

end Reply

end Microweb

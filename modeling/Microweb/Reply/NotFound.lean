import Microweb.Reply.Head
import Microweb.Content.Kind

/-!
The page sent in place of content that is not there. It shows the address asked for, with markup
escaped, and the state of the board.
-/

namespace Microweb.Reply

/-- The entity for a character with a meaning in markup. -/
def entity? (c : Char) : Option (List Char) :=
  if c = '<' then some ['&', 'l', 't', ';']
  else if c = '>' then some ['&', 'g', 't', ';']
  else if c = '&' then some ['&', 'a', 'm', 'p', ';']
  else if c = '"' then some ['&', 'q', 'u', 'o', 't', ';']
  else none

def escapeChar (c : Char) : List Char := (entity? c).getD [c]

/-- The text with its markup characters replaced by entities. -/
def escapeMarkup (s : String) : String := String.ofList (s.toList.flatMap escapeChar)

/-- The page, up to the address and from there on. -/
def notFoundBody (url : String) (uptime freeHeap : Nat) : String :=
  "<html><head><title>404 Not Found</title></head><body><h1>Not Found</h1><p>The requested URL " ++
    escapeMarkup url ++ " was not found on this server.</p><hr><p>uptime: " ++
    Decimal.text uptime ++ " s, free heap: " ++ Decimal.text freeHeap ++
    " bytes</p></body></html>"

/-- The whole response. -/
def notFound (url : String) (uptime freeHeap : Nat) : Bytes :=
  ((ReplyHead.ofStatus .notFound).contentType Content.defaultType).withBody
    (Utf8.encode (notFoundBody url uptime freeHeap))

end Microweb.Reply

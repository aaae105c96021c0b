import Microweb.Head.Line
import Microweb.Text.Utf8

/-!
The header fields of a head, looked up by name. They stand on the lines after the first and
before the first empty one.
-/

namespace Microweb.Field

/-- The lines of a head that may hold header fields. -/
def lines (head : Bytes) : List Line :=
  ((Line.all head).drop 1).takeWhile fun line => ! line.isEmpty

/-- The value on a line that holds the field of a name: what follows the colon, without the blanks
around it. Names are texts, and their ASCII letters are compared without case. -/
def valueOn? (name : String) (line : Line) : Option Bytes := do
  let (field, rest) ← line.upTo? Byte.colon
  let found ← (Utf8.decode (field.slice line.buf)).toOption
  if Bytes.sameIgnoringCase (Utf8.encode found) (Utf8.encode name) then
    some (rest.trimmed.slice line.buf)
  else none

/-- The value of the first field of a name. -/
def find? (head : Bytes) (name : String) : Option Bytes := (lines head).findSome? (valueOn? name)

end Microweb.Field

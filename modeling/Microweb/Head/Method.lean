import Microweb.Text.Ascii

/-!
The method of a request.
-/

namespace Microweb

/-- A method by name. Names are ASCII; all but one are kept as they came. -/
inductive Method where
  | get
  | other (name : AsciiText)
deriving DecidableEq

namespace Method

def getName : Bytes := [0x47, 0x45, 0x54]

def ofBytes (bs : Bytes) : Except AsciiError Method :=
  match AsciiText.ofBytes? bs with
  | none => .error .highByte
  | some name => .ok (if bs = getName then get else other name)

def text : Method → String
  | get => "GET"
  | other name => name.text

end Method

end Microweb

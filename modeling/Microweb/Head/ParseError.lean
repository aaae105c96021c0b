import Microweb.Head.Method
import Microweb.Number.Decimal

/-!
What can be wrong with the head of a request, and where.
-/

namespace Microweb

/-- The part of the head in which something is wrong. -/
inductive Location where
  | startLine
  | query
  | headers
deriving DecidableEq, Repr

def Location.text : Location → String
  | .startLine => "start line"
  | .query => "query"
  | .headers => "headers"

/-- What is wrong. -/
inductive ParseFault where
  /-- The method is not ASCII. -/
  | invalidMethod
  | unsupportedMethod (method : Method)
  | invalidTarget
  | invalidVersion
  | malformedRequestLine
  /-- The path is longer than allowed. -/
  | pathTooLong (limit actual : Nat)
  /-- There is no line at all. -/
  | incompleteMessage
deriving DecidableEq

def ParseFault.text : ParseFault → String
  | .invalidMethod => "invalid method"
  | .unsupportedMethod m => "unsupported method " ++ m.text
  | .invalidTarget => "invalid target"
  | .invalidVersion => "invalid version"
  | .malformedRequestLine => "malformed request line"
  | .pathTooLong limit actual =>
    "limit path bytes exceeded (limit: " ++ Decimal.text limit ++ ", actual: " ++
      Decimal.text actual ++ ")"
  | .incompleteMessage => "incomplete message"

/-- A fault, the part of the head it is in, and the index at which it was noticed. -/
structure ParseError where
  fault : ParseFault
  location : Location
  offset : Nat
deriving DecidableEq

def ParseError.message (e : ParseError) : String :=
  "http parse error: " ++ e.fault.text ++ " while parsing " ++ e.location.text ++ " at offset " ++
    Decimal.text e.offset

end Microweb

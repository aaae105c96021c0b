import Microweb.Head.Percent

/-!
The query of a request: names and values in the order they came.
-/

namespace Microweb

/-- A name and its value. -/
structure Param where
  name : String
  value : String
deriving DecidableEq, Repr

/-- The parameters of a request. -/
abbrev Query := List Param

namespace Query

/-- The name and the value of one part, undecoded. A part without an equals sign is all name. -/
def splitPair (part : Bytes) : Bytes × Bytes :=
  (part.takeWhile (· != Byte.equals), (part.dropWhile (· != Byte.equals)).drop 1)

/-- One part of a query; none if its name is empty. -/
def param? (part : Bytes) : Option Param :=
  let (name, value) := splitPair part
  if name.isEmpty then none else some ⟨Percent.decodeOrRaw name, Percent.decodeOrRaw value⟩

/-- The parts of a query stand between ampersands. -/
def parse (raw : Bytes) : Query := (raw.splitOn Byte.ampersand).filterMap param?

/-- The value of the first parameter with a name. -/
def get? (q : Query) (name : String) : Option String :=
  (q.find? fun p => p.name == name).map Param.value

end Query

end Microweb

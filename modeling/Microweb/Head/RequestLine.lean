import Microweb.Head.Line
import Microweb.Head.ParseError
import Microweb.Head.Version

/-!
The request line: a method, a target and a version. Only the `GET` method is served, and a line
without a version is taken for the oldest one.
-/

namespace Microweb

/-- The parts of a request line, as ranges of the buffer it stands in. -/
structure RequestLine where
  method : Method
  path : Span
  /-- What follows the first question mark of the target. -/
  query : Option Span
  version : Version
deriving DecidableEq

namespace RequestLine

/-- Cuts a target at its first question mark. -/
def splitTarget (buf : Bytes) (target : Span) : Span × Option Span :=
  match (target.slice buf).findIdx? (· == Byte.question) with
  | some n => (⟨target.start, target.start + n⟩, some ⟨target.start + n + 1, target.stop⟩)
  | none => (target, none)

/-- The version that a line ends with. -/
def readVersion? (buf : Bytes) (word : Span) : Option Version := do
  let name ← AsciiText.ofBytes? (word.slice buf)
  (Version.read name.text.toList).toOption

/-- Reads a line. The checks are made in the order of the line, the length of the path before the
bytes of the target. -/
def parse (line : Line) (maxPath : Nat) : Except ParseError RequestLine :=
  let fail {α : Type} (fault : ParseFault) (offset : Nat) : Except ParseError α :=
    .error ⟨fault, .startLine, offset⟩
  match line.upTo? Byte.space with
  | none => fail .malformedRequestLine line.start
  | some (name, line) =>
  match Method.ofBytes (name.slice line.buf) with
  | .error _ => fail .invalidMethod name.start
  | .ok (.other m) => fail (.unsupportedMethod (.other m)) name.start
  | .ok .get =>
  match line.word? with
  | none => fail .malformedRequestLine line.start
  | some (target, line) =>
  if line.buf[target.start]? ≠ some Byte.slash then fail .invalidTarget target.start
  else
    let (path, query) := splitTarget line.buf target
    if maxPath < path.length then fail (.pathTooLong maxPath path.length) path.start
    else if (AsciiText.ofBytes? (target.slice line.buf)).isNone then
      fail .invalidTarget target.start
    else match line.word? with
      | none => .ok ⟨.get, path, query, .oneZero⟩
      | some (word, line) =>
        match readVersion? line.buf word with
        | none => fail .invalidVersion word.start
        | some version =>
          if line.isEmpty then .ok ⟨.get, path, query, version⟩
          else fail .malformedRequestLine line.start

end RequestLine

end Microweb

import Microweb.Bytes

/-!
The lines of a received head. A line ends at a line feed, and a carriage return before it belongs
to the ending; the last line may lack its ending, all but a carriage return. A line is a cursor:
reading a word off it moves its start.
-/

namespace Microweb

/-- What is left of one line of a buffer. -/
structure Line where
  buf : Bytes
  start : Nat
  stop : Nat
deriving DecidableEq, Repr

namespace Line

/-- The line at an index of the buffer, and the index of the one after it. There is none at the
end of the buffer. -/
def at? (buf : Bytes) (start : Nat) : Option (Line × Option Nat) :=
  let rest := buf.drop start
  if rest.isEmpty then none
  else match rest.findIdx? (· == Byte.lf) with
    | some n =>
      let stop := if 0 < n ∧ rest[n - 1]? = some Byte.cr then start + n - 1 else start + n
      some (⟨buf, start, stop⟩, some (start + n + 1))
    | none =>
      let stop := if rest.getLast? = some Byte.cr then buf.length - 1 else buf.length
      some (⟨buf, start, stop⟩, none)

/-- The lines from an index on, at most `fuel` of them. -/
def scan (buf : Bytes) : Nat → Nat → List Line
  | 0, _ => []
  | fuel + 1, start =>
    match at? buf start with
    | none => []
    | some (line, none) => [line]
    | some (line, some next) => line :: scan buf fuel next

/-- All lines of a buffer. -/
def all (buf : Bytes) : List Line := scan buf buf.length 0

def span (l : Line) : Span := ⟨l.start, l.stop⟩

def slice (l : Line) : Bytes := l.span.slice l.buf

def isEmpty (l : Line) : Bool := l.slice.isEmpty

/-! ### Reading off a line -/

/-- The next word, up to a space or a tab or the end of the line. An empty line has none. -/
def word? (l : Line) : Option (Span × Line) :=
  if l.stop ≤ l.start then none
  else match l.slice.findIdx? Byte.isBlank with
    | some n => some (⟨l.start, l.start + n⟩, { l with start := l.start + n + 1 })
    | none => some (l.span, { l with start := l.stop })

/-- What comes before the next such byte, which is passed over. -/
def upTo? (b : UInt8) (l : Line) : Option (Span × Line) :=
  if l.stop ≤ l.start then none
  else (l.slice.findIdx? (· == b)).map fun n =>
    (⟨l.start, l.start + n⟩, { l with start := l.start + n + 1 })

/-- The range of the line without the blanks at its ends. -/
def trimmed (l : Line) : Span :=
  let front := (l.slice.takeWhile Byte.isBlank).length
  let back := ((l.slice.drop front).reverse.takeWhile Byte.isBlank).length
  ⟨l.start + front, l.stop - back⟩

end Line

end Microweb

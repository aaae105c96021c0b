/-!
Readers of text: a reader takes what it reads off the front of a list of characters, or fails and
takes nothing.
-/

namespace Microweb.Toml

abbrev Reader := StateT (List Char) Option

namespace Reader

variable {α : Type}

/-- The next character, if it has `p`. -/
def satisfy (p : Char → Bool) : Reader Char := fun cs =>
  match cs with
  | c :: r => if p c then some (c, r) else none
  | [] => none

def char (c : Char) : Reader Unit := do
  let _ ← satisfy (· == c)

/-- A fixed text. -/
def literal (s : String) : Reader Unit := s.toList.forM char

/-- The characters with `p` at the front, none of them at the least. -/
def run (p : Char → Bool) : Reader (List Char) := fun cs => some (cs.takeWhile p, cs.dropWhile p)

/-- The characters with `p` at the front, one at the least. -/
def run1 (p : Char → Bool) : Reader (List Char) := do
  let cs ← run p
  if cs.isEmpty then failure else return cs

def atEnd : Reader Bool := fun cs => some (cs.isEmpty, cs)

/-- Reads again and again, `fuel` times at most. -/
def manyUpTo (p : Reader α) : Nat → Reader (List α)
  | 0 => pure []
  | fuel + 1 => (do
      let a ← p
      return a :: (← manyUpTo p fuel)) <|> pure []

/-- Reads as often as `p` succeeds; `p` takes one character at the least. -/
def many (p : Reader α) : Reader (List α) := do
  manyUpTo p (← get).length

/-- One or more, with a separator between them. -/
def separated1 (separator : Reader Unit) (p : Reader α) : Reader (List α) := do
  let first ← p
  let rest ← many (separator *> p)
  return first :: rest

/-- What a reader takes, as it is written. -/
def taken (p : Reader α) : Reader (List Char) := do
  let before ← get
  let _ ← p
  return before.take (before.length - (← get).length)

/-- Succeeds if the condition holds. -/
def require (b : Bool) : Reader Unit := if b then pure () else failure

end Reader

end Microweb.Toml

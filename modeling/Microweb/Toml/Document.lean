import Microweb.Toml.Scalar

/-!
TOML documents: keys and values line by line, under headers that open tables. Reading fails at the
first violation of the grammar, and at a key or a header that the tables so far do not allow.
-/

namespace Microweb.Toml

open Reader

/-! ### Keys and values -/

/-- The number of arrays and braces inside one another, and of parts of a key, that is refused. -/
def depthLimit : Nat := 80

def keyPart : Reader String := do
  let cs ← basicString <|> literalString <|> run1 isKeyChar
  return String.ofList cs

/-- The parts of a key, with dots between them. -/
def key : Reader (List String) := do
  let parts ← separated1 (char '.') (blanks *> keyPart <* blanks)
  require (parts.length < depthLimit)
  return parts

/-- A key, an equals sign and a value. -/
def pair (value : Reader Node) : Reader (List String × Node) := do
  let path ← key
  char '='
  blanks
  let v ← value
  return (path, v)

/-- Values in brackets. A comma may follow the last. -/
def array (value : Reader Node) : Reader Node := do
  char '['
  let items ← (do
    let items ← separated1 (char ',') (gap *> value <* gap)
    let _ ← optional (char ',')
    return items) <|> pure []
  gap
  char ']'
  return .array items

/-- Puts pairs into a table in braces. -/
def braceEntries (pairs : List (List String × Node)) : Option Entries :=
  pairs.foldlM (fun es (path, v) => do
    es.define path.dropLast (← path.getLast?) v .braces) []

/-- Keys and values in braces, on one line. -/
def braces (value : Reader Node) : Reader Node := do
  char '{'
  let pairs ← separated1 (char ',') (pair value <* blanks) <|> pure []
  blanks
  char '}'
  match braceEntries pairs with
  | some es => return .table .braces es
  | none => failure

/-- A value with at most `depth` arrays and braces inside one another. -/
def value : Nat → Reader Node
  | 0 => scalar
  | depth + 1 => array (value depth) <|> braces (value depth) <|> scalar

/-! ### Lines -/

/-- What a line adds to the document. -/
inductive Entry where
  | nothing
  | define (path : List String) (v : Node)
  | header (path : List String)
  | elementHeader (path : List String)

def Entry.addTo (d : Document) : Entry → Option Document
  | nothing => some d
  | define path v => d.define path v
  | header path => d.header path
  | elementHeader path => d.elementHeader path

/-- A line, or an empty one up to its end. -/
def entry : Reader Entry :=
  (do comment; lineEnding; return .nothing) <|>
  (do newline; return .nothing) <|>
  (do literal "[["; let path ← key; literal "]]"; lineTrailing; return .elementHeader path) <|>
  (do char '['; let path ← key; char ']'; lineTrailing; return .header path) <|>
  (do
    let (path, v) ← pair (value (depthLimit - 1))
    lineTrailing
    return .define path v)

def byteOrderMark : Char := '\uFEFF'

/-- All lines of a document. -/
def entries : Reader (List Entry) := do
  let _ ← optional (char byteOrderMark)
  blanks
  let es ← many (entry <* blanks)
  require (← atEnd)
  return es

/-- The table that a document describes. -/
def read? (s : String) : Option Entries := do
  let (es, _) ← entries s.toList
  let d ← es.foldlM Entry.addTo Document.empty
  d.close

end Microweb.Toml

import Microweb.Number.Binary32.Reader
import Microweb.Toml.Node
import Microweb.Toml.Reader

/-!
The values of a TOML document that hold no others: strings, numbers, dates and truth values; and
the blanks and comments around them.
-/

namespace Microweb.Toml

open Reader

/-! ### Characters -/

def isBlankChar (c : Char) : Bool := c == ' ' || c == '\t'

def isNonAscii (c : Char) : Bool := 0x80 ≤ c.toNat

/-- A character that may stand in a comment. -/
def isCommentChar (c : Char) : Bool :=
  c == '\t' || (0x20 ≤ c.toNat && c.toNat ≤ 0x7E) || isNonAscii c

/-- A character that stands for itself between double quotes. -/
def isBasicChar (c : Char) : Bool := isCommentChar c && c != '"' && c != '\\'

/-- A character that may stand between single quotes. -/
def isLiteralChar (c : Char) : Bool := isCommentChar c && c != '\''

/-- A character of a key without quotes. -/
def isKeyChar (c : Char) : Bool := c.isAlphanum || c == '-' || c == '_'

/-! ### Blanks -/

def blanks : Reader Unit := discard (run isBlankChar)

def newline : Reader Unit := literal "\n" <|> literal "\r\n"

def comment : Reader Unit := char '#' *> discard (run isCommentChar)

def lineEnding : Reader Unit := do
  if ← atEnd then pure () else newline

/-- What may follow a value on its line. -/
def lineTrailing : Reader Unit := do
  blanks
  let _ ← optional comment
  lineEnding

/-- Blanks, comments and line ends. -/
def gap : Reader Unit := do
  let _ ← many (discard (run1 isBlankChar) <|> newline <|> comment *> newline)

/-! ### Strings -/

/-- The character with a code point of so many hexadecimal digits. -/
def codePoint (digits : Nat) : Reader Char := do
  let ds ← (List.range digits).mapM fun _ =>
    satisfy fun c => (Decimal.digitValue? 16 c).isSome
  match Decimal.valueOf? 16 ds with
  | some n => if h : n.isValidChar then return Char.ofNatAux n h else failure
  | none => failure

/-- A character written with a backslash. -/
def escape : Reader Char := do
  char '\\'
  let c ← satisfy fun _ => true
  match c with
  | 'b' => return '\x08'
  | 'f' => return '\x0c'
  | 'n' => return '\n'
  | 'r' => return '\r'
  | 't' => return '\t'
  | 'u' => codePoint 4
  | 'U' => codePoint 8
  | '\\' => return '\\'
  | '"' => return '"'
  | _ => failure

/-- Text between double quotes. -/
def basicString : Reader (List Char) := do
  char '"'
  let cs ← many (satisfy isBasicChar <|> escape)
  char '"'
  return cs

/-- Text between single quotes. -/
def literalString : Reader (List Char) := do
  char '\''
  let cs ← run isLiteralChar
  char '\''
  return cs

/-- A backslash at the end of a line, with the blanks and line ends after it. -/
def lineJoint : Reader Unit := do
  char '\\'
  blanks
  newline
  let _ ← many (discard (run1 isBlankChar) <|> newline)

/-- One or two quotes within a text that three of them end. -/
def innerQuotes (quote : Char) : Reader (List Char) := do
  let qs ← run1 (· == quote)
  require (qs.length ≤ 2)
  require (! (← atEnd))
  return qs

/-- The three quotes at the end of a text, with the one or two before them that belong to it. -/
def outerQuotes (quote : Char) : Reader (List Char) := do
  let qs ← run1 (· == quote)
  require (3 ≤ qs.length && qs.length ≤ 5)
  return qs.drop 3

/-- Text between three quotes, a line end right after the first three left out. -/
def longString (quote : Char) (content : Reader (List Char)) : Reader (List Char) := do
  literal (String.ofList [quote, quote, quote])
  let _ ← optional newline
  let body ← many (content <|> innerQuotes quote)
  let last ← outerQuotes quote
  return body.flatten ++ last

def longBasicString : Reader (List Char) :=
  longString '"' <|
    (do return [← satisfy isBasicChar]) <|> (do lineJoint; return []) <|>
    (do return [← escape]) <|> (do newline; return ['\n'])

def longLiteralString : Reader (List Char) :=
  longString '\'' <|
    (do return [← satisfy isLiteralChar]) <|> (do newline; return ['\n'])

def string : Reader (List Char) :=
  longBasicString <|> basicString <|> longLiteralString <|> literalString

/-! ### Numbers -/

/-- Digits with single underscores between them. -/
def digitRun (p : Char → Bool) : Reader Unit := do
  let _ ← satisfy p
  let _ ← many (discard (satisfy p) <|> char '_' *> discard (satisfy p))

def sign : Reader Unit := do
  let _ ← optional (char '+' <|> char '-')

/-- A whole number with an optional sign and without leading zeros. -/
def wholeNumber : Reader Unit := do
  sign
  (do
    let first ← satisfy Decimal.isDigit
    require (first != '0')
    let _ ← many (discard (satisfy Decimal.isDigit) <|>
      char '_' *> discard (satisfy Decimal.isDigit))) <|>
    discard (satisfy Decimal.isDigit)

/-- A number without the underscores in it. -/
def withoutUnderscores (cs : List Char) : List Char := cs.filter (· != '_')

/-- The greatest integer that is read, and one more than the greatest distance below zero. -/
def integerBound : Int := Nat.pow 2 63

/-- An integer in base 16, 8 or 2, by the letter that announces it. -/
def basedInteger (letter : Char) (base : Nat) : Reader Int := do
  char '0'
  char letter
  let ds ← taken (digitRun fun c => (Decimal.digitValue? base c).isSome)
  match Decimal.valueOf? base (withoutUnderscores ds) with
  | some n => if (n : Int) < integerBound then return n else failure
  | none => failure

def decimalInteger : Reader Int := do
  let cs ← taken wholeNumber
  let (negative, ds) := match withoutUnderscores cs with
    | '-' :: r => (true, r)
    | '+' :: r => (false, r)
    | r => (false, r)
  match Decimal.valueOf? 10 ds with
  | some n =>
    let v : Int := if negative then -n else n
    if -integerBound ≤ v ∧ v < integerBound then return v else failure
  | none => failure

def integer : Reader Int :=
  basedInteger 'x' 16 <|> basedInteger 'o' 8 <|> basedInteger 'b' 2 <|> decimalInteger

/-- Half a step above the greatest 64-bit number: what reaches it rounds to infinity. -/
def realBound : Nat := Nat.pow 2 1024 - Nat.pow 2 970

/-- A decimal number lies below the bound. -/
def belowRealBound (s : Scientific) : Bool :=
  let order : Int := s.significant.length + s.exponent
  if order < 300 then true
  else if 320 < order ∧ ! s.significant.isEmpty then false
  else
    let (num, den) := s.quotient
    num < realBound * den

def exponentPart : Reader Unit := do
  let _ ← satisfy fun c => c == 'e' || c == 'E'
  sign
  digitRun Decimal.isDigit

def fractionPart : Reader Unit := char '.' *> digitRun Decimal.isDigit

/-- A number with a fraction or an exponent. One too great for 64 bits is refused, but not one
too far below zero. -/
def finiteReal : Reader (List Char) := do
  let cs ← taken do
    wholeNumber
    exponentPart <|> (do
      fractionPart
      let _ ← optional exponentPart)
  let body := withoutUnderscores cs
  match body with
  | '-' :: _ => return cs
  | _ =>
    let digits := match body with
      | '+' :: r => r
      | r => r
    require ((Scientific.read? digits).any belowRealBound)
    return cs

def specialReal : Reader (List Char) := taken do
  sign
  literal "inf" <|> literal "nan"

def real : Reader (List Char) := finiteReal <|> specialReal

/-! ### Dates and times -/

/-- A number of exactly so many digits. -/
def fixedDigits (n : Nat) : Reader Nat := do
  let ds ← (List.range n).mapM fun _ => satisfy Decimal.isDigit
  match Decimal.valueOf? 10 ds with
  | some v => return v
  | none => failure

def twoDigits (low high : Nat) : Reader Nat := do
  let v ← fixedDigits 2
  require (low ≤ v && v ≤ high)
  return v

def isLeapYear (y : Nat) : Bool := y % 4 == 0 && (y % 100 != 0 || y % 400 == 0)

def daysInMonth (y m : Nat) : Nat :=
  if m = 2 then (if isLeapYear y then 29 else 28)
  else if m = 4 ∨ m = 6 ∨ m = 9 ∨ m = 11 then 30
  else 31

def fullDate : Reader Unit := do
  let y ← fixedDigits 4
  char '-'
  let m ← twoDigits 1 12
  char '-'
  let _ ← twoDigits 1 (daysInMonth y m)

def partialTime : Reader Unit := do
  let _ ← twoDigits 0 23
  char ':'
  let _ ← twoDigits 0 59
  char ':'
  let _ ← twoDigits 0 60
  let _ ← optional (char '.' *> run1 Decimal.isDigit)

def timeOffset : Reader Unit :=
  discard (satisfy fun c => c == 'Z' || c == 'z') <|> (do
    char '+' <|> char '-'
    let _ ← twoDigits 0 23
    char ':'
    let _ ← twoDigits 0 59)

def moment : Reader (List Char) := taken <|
  (do
    fullDate
    let _ ← optional do
      let _ ← satisfy fun c => c == 'T' || c == 't' || c == ' '
      partialTime
      let _ ← optional timeOffset) <|> partialTime

/-! ### All of them -/

def truth : Reader Bool := (literal "true" *> pure true) <|> (literal "false" *> pure false)

/-- A value that holds no others. -/
def scalar : Reader Node :=
  (do return .text (String.ofList (← string))) <|>
  (do return .moment (String.ofList (← moment))) <|>
  (do return .real (String.ofList (← real))) <|>
  (do return .integer (← integer)) <|>
  (do return .truth (← truth))

end Microweb.Toml

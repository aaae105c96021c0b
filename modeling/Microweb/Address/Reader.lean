import Microweb.Address

/-!
Reading a socket address from the whole of a text.
-/

namespace Microweb.SocketAddress

/-- A reader takes what it reads off the front of a text, or fails. -/
abbrev Reader (α : Type) := List Char → Option (α × List Char)

namespace Reader

def char (c : Char) : Reader Unit
  | d :: r => if c = d then some ((), r) else none
  | [] => none

/-- The digits at the front of a text, at least one of them. -/
def digits (base : Nat) : Reader (List Char) := fun cs =>
  let ds := cs.takeWhile fun c => (Decimal.digitValue? base c).isSome
  if ds.isEmpty then none else some (ds, cs.drop ds.length)

/-- A number below `bound`. -/
def number (base bound : Nat) : Reader Nat := fun cs => do
  let (ds, r) ← digits base cs
  let n ← Decimal.valueOf? base ds
  if n < bound then some (n, r) else none

/-- A byte in decimal, of at most three digits and without leading zeros. -/
def octet : Reader UInt8 := fun cs => do
  let (ds, r) ← digits 10 cs
  if 3 < ds.length ∨ (1 < ds.length ∧ ds.head? = some '0') then none
  else do
    let n ← Decimal.valueOf? 10 ds
    if n < 256 then some (UInt8.ofNat n, r) else none

/-- Four bytes with dots between them. -/
def dotted : Reader (UInt8 × UInt8 × UInt8 × UInt8) := fun cs => do
  let (a, r) ← octet cs
  let (_, r) ← char '.' r
  let (b, r) ← octet r
  let (_, r) ← char '.' r
  let (c, r) ← octet r
  let (_, r) ← char '.' r
  let (d, r) ← octet r
  return ((a, b, c, d), r)

/-- A group of at most four hexadecimal digits. -/
def group : Reader UInt16 := fun cs => do
  let (ds, r) ← digits 16 cs
  if 4 < ds.length then none
  else do
    let n ← Decimal.valueOf? 16 ds
    return (UInt16.ofNat n, r)

/-- Reads with `p`, after a colon unless it is the first of a list. -/
def afterColon {α : Type} (first : Bool) (p : Reader α) : Reader α := fun cs =>
  if first then p cs
  else do
    let (_, r) ← char ':' cs
    p r

/-- At most `limit` groups with colons between them, the last two of which may be written as four
bytes with dots. Says whether they were. -/
def groups : Bool → Nat → List Char → (List UInt16 × Bool) × List Char
  | _, 0, cs => (([], false), cs)
  | first, limit + 1, cs =>
    match if 0 < limit then afterColon first dotted cs else none with
    | some ((a, b, c, d), r) =>
      (([UInt16.ofNat (a.toNat * 256 + b.toNat), UInt16.ofNat (c.toNat * 256 + d.toNat)], true), r)
    | none =>
      match afterColon first group cs with
      | some (g, r) =>
        let ((gs, mapped), r) := groups false limit r
        ((g :: gs, mapped), r)
      | none => (([], false), cs)

/-- Eight groups, or fewer around two colons that stand for at least one zero group. -/
def v6 : Reader (Vector UInt16 8) := fun cs => do
  let ((front, mapped), r) := groups true 8 cs
  if h : front.length = 8 then return (⟨⟨front⟩, by simpa using h⟩, r)
  else if mapped then none
  else do
    let (_, r) ← char ':' r
    let (_, r) ← char ':' r
    let ((back, _), r) := groups true (7 - front.length) r
    let all := front ++ List.replicate (8 - front.length - back.length) 0 ++ back
    if h : all.length = 8 then return (⟨⟨all⟩, by simpa using h⟩, r) else none

/-- A scope after a percent sign, or none. -/
def scope : List Char → UInt32 × List Char
  | '%' :: r =>
    match number 10 UInt32.size r with
    | some (n, r') => (UInt32.ofNat n, r')
    | none => (0, '%' :: r)
  | cs => (0, cs)

/-- A colon and a port, which may have leading zeros. -/
def port : Reader UInt16 := fun cs => do
  let (_, r) ← char ':' cs
  let (n, r) ← number 10 UInt16.size r
  return (UInt16.ofNat n, r)

def socketV4 : Reader SocketAddress := fun cs => do
  let ((a, b, c, d), r) ← dotted cs
  let (p, r) ← port r
  return (ofV4 a b c d p, r)

def socketV6 : Reader SocketAddress := fun cs => do
  let (_, r) ← char '[' cs
  let (groups, r) ← v6 r
  let (s, r) := scope r
  let (_, r) ← char ']' r
  let (p, r) ← port r
  return (⟨.v6 groups, s, p⟩, r)

end Reader

/-- The socket address with the given text. -/
def read (s : String) : Except AddressError SocketAddress :=
  match (Reader.socketV4 s.toList).orElse fun _ => Reader.socketV6 s.toList with
  | some (a, []) => .ok a
  | _ => .error .malformed

end Microweb.SocketAddress

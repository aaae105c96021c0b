import Microweb.Address

/-!
The text of a socket address. Groups are lower-case hexadecimal without leading zeros; the first
longest run of two or more zero groups becomes two colons, and a mapped four-byte address keeps
its dots.
-/

namespace Microweb

namespace HostAddress

def dotted (a b c d : UInt8) : List Char :=
  List.intercalate ['.'] ([a, b, c, d].map fun x => Decimal.digits x.toNat)

def group (g : UInt16) : List Char := Nat.toDigits 16 g.toNat

def groupList (gs : List UInt16) : List Char := List.intercalate [':'] (gs.map group)

/-- How many zero groups the list starts with. -/
def zeroRun (gs : List UInt16) : Nat := (gs.takeWhile (· == 0)).length

/-- The start and the length of the first longest run of zero groups. -/
def longestZeroRun (gs : List UInt16) : Nat × Nat :=
  (List.range gs.length).foldl
    (fun best i =>
      let n := zeroRun (gs.drop i)
      if best.2 < n then (i, n) else best)
    (0, 0)

def text : HostAddress → List Char
  | v4 a b c d => dotted a b c d
  | v6 groups =>
    let gs := groups.toList
    match gs with
    | [0, 0, 0, 0, 0, 0xFFFF, g, h] =>
      let byte (n : Nat) : UInt8 := UInt8.ofNat n
      "::ffff:".toList ++
        dotted (byte (g.toNat / 256)) (byte g.toNat) (byte (h.toNat / 256)) (byte h.toNat)
    | _ =>
      let (start, n) := longestZeroRun gs
      if 1 < n then groupList (gs.take start) ++ [':', ':'] ++ groupList (gs.drop (start + n))
      else groupList gs

end HostAddress

namespace SocketAddress

/-- Hosts with colons stand in brackets, with a scope that is not zero after a percent sign. -/
def text (a : SocketAddress) : String :=
  let port := ':' :: Decimal.digits a.port.toNat
  String.ofList <| match a.host with
    | .v4 .. => a.host.text ++ port
    | .v6 _ =>
      let scope := if a.scope = 0 then [] else '%' :: Decimal.digits a.scope.toNat
      ['['] ++ a.host.text ++ scope ++ [']'] ++ port

instance : ToString SocketAddress := ⟨text⟩

end SocketAddress

end Microweb

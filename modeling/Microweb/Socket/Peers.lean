import Microweb.Address

/-!
The pool of upgraded connections, the most recently active first. It holds one peer of a host at
most and never more than its capacity.
-/

namespace Microweb

/-- An upgraded connection with its handle, and the path it was opened on. -/
structure Peer (H : Type) where
  handle : H
  address : SocketAddress
  uri : String
  /-- Polls since the peer was admitted or last served, up to the greatest count there is. -/
  age : UInt32
deriving DecidableEq

/-- What a poll did to a peer. -/
inductive Activity where
  /-- A frame was served. -/
  | active
  /-- Nothing usable came. -/
  | idle
  /-- The peer closed, failed or was silent for too long. -/
  | evict
deriving DecidableEq, Repr

namespace Peer

variable {H : Type}

/-- A peer that was just upgraded. -/
def fresh (handle : H) (address : SocketAddress) (uri : String) : Peer H :=
  ⟨handle, address, uri, 0⟩

/-- A peer that was served. -/
def touch (p : Peer H) : Peer H × Activity := ({ p with age := 0 }, .active)

/-- A peer that was not: it ages, and goes once its age passes the limit. -/
def rest (p : Peer H) (limit : UInt32) : Peer H × Activity :=
  let age := if p.age.toNat + 1 < UInt32.size then p.age + 1 else p.age
  ({ p with age }, if limit < age then .evict else .idle)

end Peer

/-- The peers, the most recently active first. -/
structure Peers (H : Type) where
  list : List (Peer H)
  capacity : Nat
deriving DecidableEq

namespace Peers

variable {H : Type}

def empty (capacity : Nat) : Peers H := ⟨[], capacity⟩

def length (ps : Peers H) : Nat := ps.list.length

def isEmpty (ps : Peers H) : Bool := ps.list.isEmpty

/-- This very end point is a peer. -/
def contains (ps : Peers H) (a : SocketAddress) : Bool := ps.list.any fun p => p.address == a

/-- The peers that make room for a new one: those of its host, in order, and then as many of the
least active as it takes, the least active first. -/
def displaced (ps : Peers H) (host : HostAddress) : List (Peer H) :=
  let others := ps.list.filter fun p => p.address.host != host
  ps.list.filter (fun p => p.address.host == host) ++ (others.drop (ps.capacity - 1)).reverse

/-- Puts a peer in front. Also returns the peers that made room. -/
def enrol (ps : Peers H) (p : Peer H) : Peers H × List (Peer H) :=
  let others := ps.list.filter fun q => q.address.host != p.address.host
  ({ ps with list := p :: others.take (ps.capacity - 1) }, ps.displaced p.address.host)

/-- The peers with an outcome, outcomes that are missing being idle. -/
def withOutcome (ps : List (Peer H)) (outcomes : List Activity) (a : Activity) : List (Peer H) :=
  (ps.zipIdx.filter fun (_, i) => outcomes.getD i .idle == a).map Prod.fst

/-- Applies the outcomes of a round of polls, in order: an active peer moves to the front, so that
the last polled ends up first, and an evicted one leaves. Also returns those that left. -/
def settle (ps : Peers H) (outcomes : List Activity) : Peers H × List (Peer H) :=
  ({ ps with list :=
      (withOutcome ps.list outcomes .active).reverse ++ withOutcome ps.list outcomes .idle },
    withOutcome ps.list outcomes .evict)

end Peers

end Microweb

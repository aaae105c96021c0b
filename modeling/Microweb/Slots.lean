/-!
A fixed number of numbered slots, each free or holding one item.
-/

namespace Microweb

structure Slots (α : Type) where
  list : List (Option α)
deriving DecidableEq

namespace Slots

variable {α : Type}

/-- That many free slots. -/
def free (capacity : Nat) : Slots α := ⟨List.replicate capacity none⟩

def capacity (s : Slots α) : Nat := s.list.length

/-- The items, in the order of their slots. -/
def items (s : Slots α) : List α := s.list.filterMap id

def length (s : Slots α) : Nat := s.items.length

def isEmpty (s : Slots α) : Bool := s.list.all Option.isNone

def isFull (s : Slots α) : Bool := s.list.all Option.isSome

/-- The numbers of the slots that hold an item. -/
def occupied (s : Slots α) : List Nat :=
  (s.list.zipIdx.filter fun (slot, _) => slot.isSome).map Prod.snd

def get? (s : Slots α) (i : Nat) : Option α := (s.list[i]?).join

/-- Puts an item into a slot, whatever it held. -/
def set (s : Slots α) (i : Nat) (x : α) : Slots α := ⟨s.list.set i (some x)⟩

/-- Puts an item into the first free slot; none if there is no free slot. -/
def insert? (s : Slots α) (x : α) : Option (Nat × Slots α) :=
  (s.list.findIdx? Option.isNone).map fun i => (i, s.set i x)

/-- Frees a slot. Also returns what it held. -/
def remove (s : Slots α) (i : Nat) : Option α × Slots α := (s.get? i, ⟨s.list.set i none⟩)

/-- Frees all slots. Also returns the items. -/
def drain (s : Slots α) : List α × Slots α := (s.items, free s.capacity)

theorem isSome_insert?_iff (s : Slots α) (x : α) :
    (s.insert? x).isSome = true ↔ s.isFull = false := by
  simp [insert?, isFull, List.findIdx?_isSome]

end Slots

end Microweb

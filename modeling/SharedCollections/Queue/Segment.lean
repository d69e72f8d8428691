import SharedCollections.Slot
/-!
# Segments

A segment is a fixed block of slots of a queue. Writers reserve its slots in order by counting up,
takers claim them in order. Both counts may pass the size of the segment, so whoever reads them
takes `low` and `stop`, which stay within it.
-/

namespace SharedCollections

/-- The place of one value in a queue: the value while it is there, and its handshake word. -/
structure Cell (α : Type) where
  value : Option α
  slot : Slot
deriving Repr

structure Segment (α : Type) where
  index : Nat
  cells : Array (Cell α)
  /-- How many slots have been claimed. -/
  claimed : Nat
  /-- How many reservations have been tried; those past the last slot failed. -/
  reserved : Nat
  /-- The segment linked behind this one, by its number in the queue. -/
  next : Option Nat
deriving Repr

namespace Segment

variable {α : Type}

/-- The number of slots of a segment. -/
def size : Nat := 32

def empty (index : Nat) : Segment α := ⟨index, Array.replicate size ⟨none, .empty⟩, 0, 0, none⟩

/-- The first slot that has not been claimed. -/
def low (g : Segment α) : Nat := min g.claimed size

/-- The first slot that has not been reserved. -/
def stop (g : Segment α) : Nat := min g.reserved size

def isEmpty (g : Segment α) : Bool := g.stop ≤ g.low

/-- Whether every slot has been reserved. -/
def isFull (g : Segment α) : Bool := size ≤ g.reserved

def reserve (g : Segment α) : Segment α := { g with reserved := g.reserved + 1 }

def cell (i : Nat) (g : Segment α) : Cell α := g.cells.getD i ⟨none, .empty⟩

def modifyCell (i : Nat) (f : Cell α → Cell α) (g : Segment α) : Segment α :=
  { g with cells := g.cells.modify i f }

theorem low_le_size (g : Segment α) : g.low ≤ size := Nat.min_le_right _ _

theorem stop_le_size (g : Segment α) : g.stop ≤ size := Nat.min_le_right _ _

@[simp] theorem low_empty (index : Nat) : (empty index : Segment α).low = 0 := rfl

@[simp] theorem stop_empty (index : Nat) : (empty index : Segment α).stop = 0 := rfl

end Segment

end SharedCollections

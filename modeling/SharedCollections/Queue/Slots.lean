import SharedCollections.Queue.Dequeue
import SharedCollections.Queue.Snapshot
/-!
# The slots of one segment

What a thread can do with a segment by itself, without moving the ends of the queue: reserve, write,
take and read slots.
-/

namespace SharedCollections.Queue

variable {α : Type}

/-- Reserves the next slot of segment `g`; a full segment has none. -/
def reserve? (g : Nat) : Action (Queue α) (Option Nat) := do
  let s := (← get).segment g
  if s.isFull then return none
  modify (·.modifySegment g Segment.reserve)
  return if s.reserved < Segment.size then some s.reserved else none

/-- Writes a reserved slot. -/
def write (g i : Nat) (v : α) : Action (Queue α) Unit :=
  modify (·.modifyCell g i fun c => ⟨some v, c.slot.markWritten⟩)

/-- Reserves a slot and writes `v` there. -/
def place? (g : Nat) (v : α) : Action (Queue α) (Option Nat) := do
  match ← reserve? g with
  | none => return none
  | some i => write g i v; return some i

/-- Writes `f i` into each slot `i` that is left, and tells how many there were. -/
def fill (g : Nat) (f : Nat → α) : Action (Queue α) Nat := go Segment.size
where
  go : Nat → Action (Queue α) Nat
    | 0 => pure 0
    | room + 1 => do
      match ← reserve? g with
      | none => return 0
      | some i => write g i (f i); return (← go room) + 1

/-- Takes the oldest value of segment `g`, and tells whether it was in the last slot. -/
def remove? (g : Nat) : Action (Queue α) (Option (α × Bool)) :=
  alone (Removing.step g) 8 .readingLow

/-- Takes up to `n` values of segment `g`. -/
def removeMany (g : Nat) : (n : Nat) → Action (Queue α) (List (α × Bool))
  | 0 => pure []
  | n + 1 => do
    match ← remove? g with
    | none => return []
    | some x => return x :: (← removeMany g n)

/-- A copy of the value in slot `i` of segment `g`, unless it has been taken. -/
def read? (g i : Nat) : Action (Queue α) (Option α) := alone (Looking.step g i) 4 .awaiting

end SharedCollections.Queue

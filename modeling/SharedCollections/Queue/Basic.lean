import SharedCollections.Queue.Segment
import SharedCollections.Trace
/-!
# Queues

A queue is a chain of segments between a head and a tail. Segments are numbered in the order in
which they were made and stay where they are when the head moves on, because a reader may still be
on its way through them. `takers` counts the snapshots in progress: while there are any, a value is
moved out of its slot only after its readers have left.
-/

namespace SharedCollections

structure Queue (α : Type) where
  segments : Array (Segment α)
  head : Nat
  tail : Nat
  takers : Nat
  trace : Trace

namespace Queue

variable {α : Type}

/-- A queue whose first segment has the given index. -/
def startingAt (index : Nat) : Queue α := ⟨#[.empty index], 0, 0, 0, #[]⟩

def empty : Queue α := startingAt 0

def emit (e : Event) (q : Queue α) : Queue α := { q with trace := q.trace.push e }

def segment (g : Nat) (q : Queue α) : Segment α := q.segments.getD g (.empty 0)

def modifySegment (g : Nat) (f : Segment α → Segment α) (q : Queue α) : Queue α :=
  { q with segments := q.segments.modify g f }

def cell (g i : Nat) (q : Queue α) : Cell α := (q.segment g).cell i

def modifyCell (g i : Nat) (f : Cell α → Cell α) (q : Queue α) : Queue α :=
  q.modifySegment g (·.modifyCell i f)

/-- Runs one step on the handshake word of a slot. -/
def stepSlot {π ρ : Type} (g i : Nat) (step : Slot → Progress π ρ × Slot) (q : Queue α) :
    Progress π ρ × Queue α :=
  let (progress, slot) := step (q.cell g i).slot
  (progress, q.modifyCell g i ({ · with slot := slot }))

end Queue

end SharedCollections

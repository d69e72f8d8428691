import SharedCollections.Slot
import SharedCollections.Trace
/-!
# Stacks

A stack is a head and the memory of its nodes, each of which is linked to the node below it. A link
is written while its node belongs to one thread alone, and read by any number of threads later on.
Memory is not given back while a thread may look at it, so an address stands for one node only.
-/

namespace SharedCollections

/-- A node as a walk along the links finds it: its address and its value. -/
structure Node (α : Type) where
  id : Nat
  value : α
deriving DecidableEq, Repr

/-- What stands at the address of a node. -/
structure Stack.Cell (α : Type) where
  value : α
  next : Option Nat
  slot : Slot
deriving Repr

structure Stack (α : Type) where
  head : Option Nat
  /-- The nodes ever made, by address. -/
  cells : Array (Stack.Cell α)
  trace : Trace

namespace Stack

variable {α : Type}

def empty : Stack α := ⟨none, #[], #[]⟩

variable (s : Stack α)

def emit (e : Event) : Stack α := { s with trace := s.trace.push e }

/-! ## Nodes in memory -/

/-- Makes a node at the next address. -/
def alloc (v : α) (next : Option Nat) : Stack α :=
  { s with cells := s.cells.push ⟨v, next, .written⟩ }

def modifyCell (a : Nat) (f : Cell α → Cell α) : Stack α :=
  { s with cells := s.cells.modify a f }

def link (a : Nat) (next : Option Nat) : Stack α := s.modifyCell a ({ · with next })

/-- Goes on with the node at `a`. There is no node at an address that was never handed out. -/
def onCell {π ρ : Type} (a : Nat) (f : Cell α → Progress π ρ) : Progress π ρ × Stack α :=
  match s.cells[a]? with
  | some c => (f c, s)
  | none => (.fail .vacant, s)

/-- Runs one step on the handshake word of the node at `a`. -/
def stepSlot {π ρ : Type} (a : Nat) (step : Cell α → Progress π ρ × Slot) :
    Progress π ρ × Stack α :=
  match s.cells[a]? with
  | some c => ((step c).1, s.modifyCell a ({ · with slot := (step c).2 }))
  | none => (.fail .vacant, s)

/-! ## The chain -/

/-- The nodes from `start` down, at most `bound` of them. -/
def walk : (bound : Nat) → (start : Option Nat) → List (Node α)
  | 0, _ | _, none => []
  | bound + 1, some a =>
    match s.cells[a]? with
    | some c => ⟨a, c.value⟩ :: walk bound c.next
    | none => []

/-- The nodes from the head down. There are no more than were ever made. -/
def chain : List (Node α) := s.walk s.cells.size s.head

/-- The values from the top down. -/
def values : List α := s.chain.map Node.value

def isEmpty : Bool := s.head.isNone

/-- The number of nodes that a walk from the head down passes. -/
def size : Nat := s.chain.length

/-- Takes the whole chain off. Its nodes are not taken. -/
def detach : Stack α := { s with head := none }

end Stack

end SharedCollections

import SharedCollections.Stack.Basic
/-!
# Looking at a stack

A look at a value registers as a reader of its node, and finds nothing if the value has been taken.
A cursor is the address of the node to visit next. It loads the link of a node before it looks at
the node, and goes on along the links of the chain that it has captured, whatever became of that
chain since.
-/

namespace SharedCollections.Stack

variable {α : Type}

/-! ## The top -/

/-- Where a thread that looks at the top stands. -/
inductive Peeking (α : Type) where
  | loading
  | reading (a : Nat) (point : Slot.Reading α)
deriving Repr

/-- One step of a look at the top, which starts over if the node on top has been taken. -/
def Peeking.step : Peeking α → Stack α → Progress (Peeking α) (Option α) × Stack α
  | loading, s =>
    (match s.head with
      | none => .done none
      | some a => .next (reading a .arriving), s)
  | reading a point, s => s.stepSlot a fun c =>
    let (progress, slot) := point.step (.ok c.value) c.slot
    (progress.lift (reading a) fun
      | some v => .done (some v)
      | none => .next loading, slot)

def peek? : Action (Stack α) (Option α) := alone Peeking.step 4 .loading

/-! ## Cursors -/

/-- The node of a captured chain that is visited next. -/
abbrev Cursor := Option Nat

def cursor (s : Stack α) : Cursor := s.head

/-- Where a thread stands that visits the next value which nobody has taken. -/
inductive Visiting (α : Type) where
  | seeking (c : Cursor)
  | reading (a : Nat) (c : Cursor) (point : Slot.Reading α)
deriving Repr

def Visiting.step :
    Visiting α → Stack α → Progress (Visiting α) (Option α × Cursor) × Stack α
  | seeking none, s => (.done (none, none), s)
  | seeking (some a), s => s.onCell a fun c => .next (reading a c.next .arriving)
  | reading a next point, s => s.stepSlot a fun c =>
    let (progress, slot) := point.step (.ok c.value) c.slot
    (progress.lift (reading a next) fun
      | some v => .done (some v, next)
      | none => .next (seeking next), slot)

namespace Cursor

/-- The next value that nobody has taken, and the cursor behind it. Alone, a node costs at most four
steps, and there are no more nodes than were ever made. -/
def next? (c : Cursor) : Action (Stack α) (Option α × Cursor) := .mk fun s =>
  drive Visiting.step (4 * s.cells.size + 1) (.seeking c) s

/-- Up to `bound` further values of a cursor. -/
def collect : (bound : Nat) → Cursor → Action (Stack α) (List α × Cursor)
  | 0, c => pure ([], c)
  | bound + 1, c => do
    match ← c.next? with
    | (none, c) => return ([], c)
    | (some v, c) =>
      let (vs, c) ← c.collect bound
      return (v :: vs, c)

/-- All further values of a cursor. -/
def rest (c : Cursor) : Action (Stack α) (List α × Cursor) := do
  c.collect ((← get).cells.size + 1)

end Cursor

/-- The values from the top down. -/
def toList : Action (Stack α) (List α) := do
  return (← (← get).cursor.rest).1

/-! ## Showing -/

/-- The value of the node at `a`, unless it has been taken. The thread is registered as a reader of
the node while it looks. -/
def read? (a : Nat) : Action (Stack α) (Option α) := .mk fun s =>
  match s.cells[a]? with
  | none => .error .vacant s
  | some c =>
    match (Slot.readWith (pure c.value)).run c.slot with
    | .ok seen slot => .ok seen (s.modifyCell a ({ · with slot }))
    | .error f slot => .error f (s.modifyCell a ({ · with slot }))

/-- The link of the node at `a`. -/
def below (a : Nat) : Action (Stack α) (Option Nat) := do
  return ((← get).cells[a]?).bind Cell.next

/-- Shows node after node from `start` down, at most `bound` of them, but none that has been taken.
-/
def shown : (bound : Nat) → (start : Option Nat) → Action (Stack α) (List α)
  | 0, _ | _, none => pure []
  | bound + 1, some a => do
    let seen ← read? a
    let values ← shown bound (← below a)
    return seen.toList ++ values

/-- The values that are shown to a programmer, from the top down. -/
def displayed : Action (Stack α) (List α) := do
  shown (← get).cells.size (← get).head

end SharedCollections.Stack

import SharedCollections.Stack.Basic
import SharedCollections.Window
/-!
# Ranges of a stack

A range is pushed by building its own chain first and putting it on top with one exchange of the
head, and popped by moving the head down several nodes with one exchange. An exchange compares the
address of the node on top with the one seen before, so nodes are told apart even if their values
are equal.
-/

namespace SharedCollections.Stack

variable {α : Type}

/-! ## Pushing -/

/-- Where a thread that pushes stands. Its own nodes are linked from `top` down to `bottom`. -/
inductive Pushing (α : Type) where
  | starting (v : α) (rest : List α)
  | building (top bottom : Nat) (rest : List α)
  | loading (top bottom : Nat)
  | linking (top bottom : Nat) (seen : Option Nat)
  | exchanging (top bottom : Nat) (seen : Option Nat)
deriving Repr

def Pushing.step : Pushing α → Stack α → Progress (Pushing α) Unit × Stack α
  | starting v rest, s => (.next (building s.cells.size s.cells.size rest), s.alloc v none)
  | building top bottom (v :: rest), s =>
    (.next (building s.cells.size bottom rest), s.alloc v (some top))
  | building top bottom [], s => (.next (loading top bottom), s)
  | loading top bottom, s => (.next (linking top bottom s.head), s)
  | linking top bottom seen, s => (.next (exchanging top bottom seen), s.link bottom seen)
  | exchanging top bottom seen, s =>
    if s.head = seen then (.done (), { s with head := some top })
    else (.next (loading top bottom), s.emit (.retried .stackPush))

/-! ## Popping -/

/-- Where a thread that pops stands. -/
inductive Popping (α : Type) where
  | loading
  /-- `passed` nodes from `first` on have been seen, of which `last` is the last one. -/
  | walking (first last passed : Nat)
  | closing (first last passed : Nat)
  | exchanging (first passed : Nat) (below : Option Nat)
  /-- The values of `left` nodes from `current` on are still to be taken; `values` are taken, the
  last one first. -/
  | following (current : Option Nat) (left : Nat) (values : List α)
  | taking (a : Nat) (next : Option Nat) (left : Nat) (values : List α) (point : Slot.Taking)
  | moving (a : Nat) (next : Option Nat) (left : Nat) (values : List α)
deriving Repr

/-- One step of a pop of up to `count` values, `count` being at least one. -/
def Popping.step (count : Nat) : Popping α → Stack α → Progress (Popping α) (List α) × Stack α
  | loading, s =>
    (match s.head with
      | none => .done []
      | some a => .next (walking a a 1), s)
  | walking first last passed, s => s.onCell last fun c =>
    if passed < count then
      match c.next with
      | some a => .next (walking first a (passed + 1))
      | none => .next (closing first last passed)
    else .next (exchanging first passed c.next)
  | closing first last passed, s => s.onCell last fun c => .next (exchanging first passed c.next)
  | exchanging first passed below, s =>
    if s.head = some first then
      (.next (following (some first) passed []), { s with head := below })
    else (.next loading, s.emit (.retried .stackPop))
  | following _ 0 values, s => (.done values.reverse, s)
  | following none (_ + 1) _, s => (.fail .vacant, s)
  | following (some a) (left + 1) values, s => s.onCell a fun c =>
    .next (taking a c.next left values .marking)
  | taking a next left values point, s => s.stepSlot a fun c =>
    let (progress, slot) := point.step c.slot
    (progress.lift (taking a next left values) fun () => .next (moving a next left values), slot)
  | moving a next left values, s => s.onCell a fun c =>
    .next (following next left (c.value :: values))

/-! ## One thread alone -/

def push (v : α) : Action (Stack α) Unit := alone Pushing.step 5 (.starting v [])

/-- Pushes `values` as one unit, the last of them on top. -/
def pushRange : (values : List α) → Action (Stack α) Unit
  | [] => pure ()
  | v :: rest => alone Pushing.step (rest.length + 5) (.starting v rest)

/-- Pops up to `count` values as one unit, top first. Alone, a node costs one step of the walk and
three to take its value. -/
def popRange (count : Nat) : Action (Stack α) (List α) :=
  if count = 0 then pure [] else alone (Popping.step count) (4 * count + 4) .loading

def pop? : Action (Stack α) (Option α) := do
  return (← alone (Popping.step 1) 8 .loading).head?

/-- Pushes a window of `items` as one unit. -/
def pushSlice (items : List α) (start count : Nat) : Action (Stack α) (Except Misuse Unit) :=
  match checkWindow start count items.length with
  | .error m => pure (.error m)
  | .ok () => do
    pushRange (window items start count)
    return .ok ()

/-- Pops up to `count` values as one unit into the window of `buffer` from `start` on; gives how
many were popped, and the buffer afterwards. -/
def popRangeInto (buffer : List α) (start count : Nat) :
    Action (Stack α) (Except Misuse Nat × List α) :=
  match checkWindow start count buffer.length with
  | .error m => pure (.error m, buffer)
  | .ok () => do
    let values ← popRange count
    return (.ok values.length, overwrite buffer start values)

def clear : Action (Stack α) Unit := modify detach

end SharedCollections.Stack

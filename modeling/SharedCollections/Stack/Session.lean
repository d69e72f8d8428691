import SharedCollections.Payload
import SharedCollections.Sequence
import SharedCollections.Stack.Range
import SharedCollections.Stack.Snapshot
/-!
# Sessions on a stack

A stack is a sequence whose values come from the top; besides, it moves ranges as one unit.
-/

namespace SharedCollections.Stack

variable {α : Type}

instance : Sequence (Stack α) α Cursor where
  empty := empty
  put := push
  take? := pop?
  peek? := peek?
  isEmpty := do return (← get).isEmpty
  size := do return (← get).size
  toList := toList
  display := displayed
  extend := pushRange
  openCursor := do return (← get).cursor
  next? c := c.next?
  rest c := c.rest
  closeCursor _ := pure ()
  trace s := s.trace
  forgetTrace s := { s with trace := #[] }

/-- The steps that only a stack has. -/
inductive Special (α : Type) where
  | pushRange (items : List α)
  | pushSlice (items : List α) (start count : Nat)
  | popRange (count : Nat)
  | popRangeInto (buffer : List α) (start count : Nat)
  | clear

def Special.run : Special α → Action (Stack α) (Reply α)
  | pushRange items => do Stack.pushRange items; return .done
  | pushSlice items start count => do return .ofUnit (← Stack.pushSlice items start count)
  | popRange count => do return .values (← Stack.popRange count)
  | popRangeInto buffer start count => do
    let (popped, buffer) ← Stack.popRangeInto buffer start count
    return .filled popped buffer
  | clear => do Stack.clear; return .done

end SharedCollections.Stack

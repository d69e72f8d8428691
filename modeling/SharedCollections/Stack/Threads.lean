import SharedCollections.Crew
import SharedCollections.Stack.Range
import SharedCollections.Stack.Snapshot
/-!
# Threads on a stack

The operations that several threads may run on one stack at a time, in steps that each read or write
one word of its memory: the head, the link of a node or the handshake word of a node. A traversal
captures the head and then visits one value at a time.
-/

namespace SharedCollections.Stack

variable {α : Type}

inductive Operation (α : Type) where
  /-- Pushes values as one unit, the last one on top. -/
  | push (values : List α)
  /-- Pops up to `count` values as one unit. -/
  | pop (count : Nat)
  | peek
  | clear
  | capture
  | visit (c : Cursor)
deriving Repr

inductive Outcome (α : Type) where
  | done
  | popped (values : List α)
  | seen (v : Option α)
  | captured (c : Cursor)
  | visited (v : Option α) (c : Cursor)
deriving Repr

/-- Where a thread stands in an operation. -/
inductive Point (α : Type) where
  /-- Nothing is left to do. -/
  | ready (o : Outcome α)
  | pushing (values : List α) (point : Pushing α)
  | popping (count : Nat) (point : Popping α)
  | peeking (point : Peeking α)
  | clearing
  | capturing
  | visiting (point : Visiting α)
deriving Repr

def Operation.begin : Operation α → Point α
  | push [] => .ready .done
  | push (v :: values) => .pushing (v :: values) (.starting v values)
  | pop 0 => .ready (.popped [])
  | pop (count + 1) => .popping (count + 1) .loading
  | peek => .peeking .loading
  | clear => .clearing
  | capture => .capturing
  | visit c => .visiting (.seeking c)

def Point.step : Point α → Stack α → Progress (Point α) (Outcome α) × Stack α
  | ready o, s => (.done o, s)
  | pushing values point, s =>
    let (progress, s) := point.step s
    (progress.lift (pushing values) fun () => .done .done, s)
  | popping count point, s =>
    let (progress, s) := point.step count s
    (progress.lift (popping count) fun values => .done (.popped values), s)
  | peeking point, s =>
    let (progress, s) := point.step s
    (progress.lift peeking fun v => .done (.seen v), s)
  | clearing, s => (.done .done, s.detach)
  | capturing, s => (.done (.captured s.head), s)
  | visiting point, s =>
    let (progress, s) := point.step s
    (progress.lift visiting fun (v, c) => .done (.visited v c), s)

def machine : Machine (Stack α) (Operation α) (Point α) (Outcome α) :=
  ⟨Operation.begin, Point.step⟩

end SharedCollections.Stack

import SharedCollections.Crew
import SharedCollections.Queue.Dequeue
import SharedCollections.Queue.Enqueue
import SharedCollections.Queue.Snapshot
/-!
# Threads on a queue

The operations that several threads may run on one queue at a time. A cursor is opened, moved on and
closed by operations of their own, between which its thread may do something else.
-/

namespace SharedCollections.Queue

variable {α : Type}

inductive Operation (α : Type) where
  | enqueue (v : α)
  | dequeue
  | peek
  | probe
  | survey
  | openCursor
  | next (c : Cursor)
  | closeCursor
deriving Repr

inductive Outcome (α : Type) where
  | done
  | taken (v : Option α)
  | seen (v : Option α)
  | probed (empty : Bool)
  | surveyed (x : Extent)
  | opened (c : Cursor)
  | visited (v : Option α) (c : Cursor)
deriving Repr

/-- Where a thread stands in an operation. -/
inductive Point (α : Type) where
  | enqueuing (v : α) (point : Enqueuing)
  | dequeuing (point : Dequeuing α)
  | peeking (point : Peeking α)
  | probing (point : Probing)
  | surveying (point : Surveying)
  /-- Registers the snapshot of a cursor. -/
  | raising
  | opening (point : Surveying)
  | iterating (point : Iterating α)
  | closing
deriving Repr

def Operation.begin : Operation α → Point α
  | enqueue v => .enqueuing v .loadingTail
  | dequeue => .dequeuing .loadingHead
  | peek => .peeking .raising
  | probe => .probing .loadingHead
  | survey => .surveying .loadingHead
  | openCursor => .raising
  | next c => .iterating (.scanning c)
  | closeCursor => .closing

def Point.step : Point α → Queue α → Progress (Point α) (Outcome α) × Queue α
  | enqueuing v point, q =>
    let (progress, q) := point.step v q
    (progress.lift (enqueuing v) fun () => .done .done, q)
  | dequeuing point, q =>
    let (progress, q) := point.step q
    (progress.lift dequeuing fun v => .done (.taken v), q)
  | peeking point, q =>
    let (progress, q) := point.step q
    (progress.lift peeking fun v => .done (.seen v), q)
  | probing point, q =>
    let (progress, q) := point.step q
    (progress.lift probing fun b => .done (.probed b), q)
  | surveying point, q =>
    let (progress, q) := point.step q
    (progress.lift surveying fun x => .done (.surveyed x), q)
  | raising, q => (.next (opening .loadingHead), { q with takers := q.takers + 1 })
  | opening point, q =>
    let (progress, q) := point.step q
    (progress.lift opening fun x => .done (.opened (.ofExtent x)), q)
  | iterating point, q =>
    let (progress, q) := point.step q
    (progress.lift iterating fun (v, c) => .done (.visited v c), q)
  | closing, q => (.done .done, { q with takers := q.takers - 1 })

def machine : Machine (Queue α) (Operation α) (Point α) (Outcome α) := ⟨Operation.begin, Point.step⟩

end SharedCollections.Queue

import SharedCollections.Production
import SharedCollections.Queue.Threads
/-!
# Workloads on a queue

Producers enqueue values while consumers dequeue them and observers walk cursors. Every consumer,
and every observer, meets the values of each producer in the order in which they were made.
-/

namespace SharedCollections.Queue

structure Workload where
  producers : Nat
  consumers : Nat
  observers : Nat
  /-- The number of values of every producer. -/
  per : Nat
  /-- The number of values that stay in the queue. -/
  leave : Nat

/-- What a thread has left to do, and what it has found. -/
inductive Job where
  | produce (values : List Nat)
  /-- The values taken, the last one first. -/
  | consume (quota : Nat) (taken : List Nat)
  /-- The views are those of closed cursors; `seen` are the values of the current one. -/
  | observe (rounds : Nat) (cursor : Option Cursor) (seen : List Nat) (views : List (List Nat))
  /-- An observer that is about to close its cursor. -/
  | leaving (rounds : Nat) (views : List (List Nat))

namespace Job

def next? : Job → Option (Operation Nat)
  | produce (v :: _) => some (.enqueue v)
  | consume (_ + 1) _ => some .dequeue
  | observe (_ + 1) none _ _ => some .openCursor
  | observe (_ + 1) (some c) _ _ => some (.next c)
  | leaving _ _ => some .closeCursor
  | _ => none

/-- A look for a value that finds nothing is tried again. -/
def record : Except Fault (Outcome Nat) → Job → Job
  | .ok .done, produce (_ :: values) => produce values
  | .ok (.taken (some v)), consume (quota + 1) taken => consume quota (v :: taken)
  | .ok (.opened c), observe rounds _ _ views => observe rounds (some c) [] views
  | .ok (.visited (some v) c), observe rounds _ seen views =>
    observe rounds (some c) (v :: seen) views
  | .ok (.visited none _), observe (rounds + 1) _ seen views =>
    leaving rounds (seen.reverse :: views)
  | .ok .done, leaving rounds views => observe rounds none [] views
  | _, job => job

def program : Program (Operation Nat) (Outcome Nat) Job := ⟨next?, record⟩

def taken : Job → List Nat
  | consume _ taken => taken.reverse
  | _ => []

def views : Job → List (List Nat)
  | observe _ _ _ views | leaving _ views => views
  | _ => []

end Job

namespace Workload

variable (w : Workload)

def jobs : List Job :=
  (List.range w.producers).map (fun p => .produce (Production.run p 0 w.per))
  ++ (Production.shares (w.producers * w.per - w.leave) w.consumers).map (.consume · [])
  ++ List.replicate w.observers (.observe 3 none [] [])

/-- More rounds than any schedule in a circle needs. -/
def bound : Nat := 1000 * (w.producers * w.per + w.observers + 10)

def run : Crew (Queue Nat) (Point Nat) Job :=
  (Crew.idle Queue.empty w.jobs).finish machine Job.program w.bound

/-- What came of a workload. -/
structure Report where
  taken : Nat
  left : Nat
  /-- All values that were enqueued, in ascending order. -/
  all : List Nat
  /-- Whether every consumer, and what is left, has the values of each producer in order. -/
  inOrder : Bool
  viewsInOrder : Bool
  tally : Tally
  isEmpty : Bool

/-- Looks at the queue once all threads are done. -/
def inspect : Action (Queue Nat) (List Nat × Bool) := do return (← toList, ← isEmpty)

def report : Except Fault Report :=
  let c := w.run
  let taken := c.memories.map Job.taken
  let views := c.memories.flatMap Job.views
  match inspect.run c.shared with
  | .error f _ => .error f
  | .ok (left, isEmpty) q => .ok
    { taken := taken.flatten.length
      left := left.length
      all := (taken.flatten ++ left).mergeSort
      inOrder := (left :: taken).all (Production.inOrder w.producers)
      viewsInOrder := views.all (Production.inOrder w.producers)
      tally := .ofEvents q.trace.toList
      isEmpty }

end Workload

end SharedCollections.Queue

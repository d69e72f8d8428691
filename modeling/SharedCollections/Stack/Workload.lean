import SharedCollections.Production
import SharedCollections.Stack.Threads
/-!
# Workloads on a stack

Producers push chunks of values while consumers pop ranges of the same size and observers traverse
the stack. A chunk goes on as one unit and comes off as one unit, so every range popped is a whole
chunk, and a traversal finds the values of each producer newest first.
-/

namespace SharedCollections.Stack

structure Workload where
  producers : Nat
  consumers : Nat
  observers : Nat
  /-- The number of chunks of every producer. -/
  per : Nat
  chunk : Nat
  /-- The number of chunks that stay on the stack. -/
  leave : Nat

/-- What a thread has left to do, and what it has found. -/
inductive Job where
  | produce (chunks : List (List Nat))
  | consume (quota chunk : Nat) (ranges : List (List Nat))
  /-- The views are those of finished traversals; `seen` are the values of the current one. -/
  | observe (rounds : Nat) (cursor : Option Cursor) (seen : List Nat)
    (views : List (List Nat))

namespace Job

def next? : Job → Option (Operation Nat)
  | produce (c :: _) => some (.push c)
  | consume (_ + 1) chunk _ => some (.pop chunk)
  | observe (_ + 1) none _ _ => some .capture
  | observe (_ + 1) (some c) _ _ => some (.visit c)
  | _ => none

/-- A pop that finds nothing is tried again. -/
def record : Except Fault (Outcome Nat) → Job → Job
  | .ok .done, produce (_ :: chunks) => produce chunks
  | .ok (.popped (v :: values)), consume (quota + 1) chunk ranges =>
    consume quota chunk ((v :: values) :: ranges)
  | .ok (.captured c), observe rounds _ _ views => observe rounds (some c) [] views
  | .ok (.visited (some v) c), observe rounds _ seen views =>
    observe rounds (some c) (v :: seen) views
  | .ok (.visited none _), observe (rounds + 1) _ seen views =>
    observe rounds none [] (seen.reverse :: views)
  | _, job => job

def program : Program (Operation Nat) (Outcome Nat) Job := ⟨next?, record⟩

/-- The ranges a consumer has popped, the first one first. -/
def ranges : Job → List (List Nat)
  | consume _ _ ranges => ranges.reverse
  | _ => []

def views : Job → List (List Nat)
  | observe _ _ _ views => views
  | _ => []

end Job

namespace Workload

variable (w : Workload)

/-- How many ranges are popped. -/
def rangeCount : Nat := if w.chunk = 0 then 0 else w.producers * w.per - w.leave

def jobs : List Job :=
  (List.range w.producers).map (fun p =>
    .produce ((List.range w.per).map fun i => Production.run p (i * w.chunk) w.chunk))
  ++ (Production.shares w.rangeCount w.consumers).map (.consume · w.chunk [])
  ++ List.replicate w.observers (.observe 3 none [] [])

/-- More rounds than any schedule in a circle needs. -/
def bound : Nat := 100 * (w.chunk + 10) * (w.producers * w.per + w.observers + 10)

def run : Crew (Stack Nat) (Point Nat) Job :=
  (Crew.idle Stack.empty w.jobs).finish machine Job.program w.bound

/-- Whether a range is one whole chunk, top first. -/
def isChunk (range : List Nat) : Bool :=
  match range.getLast? with
  | none => false
  | some first =>
    first % Production.capacity % w.chunk = 0 ∧ range = (List.range' first w.chunk).reverse

/-- What came of a workload. -/
structure Report where
  popped : Nat
  left : Nat
  /-- All values that were pushed, in ascending order. -/
  all : List Nat
  /-- Whether every range popped was a chunk. -/
  atomic : Bool
  viewsInOrder : Bool
  tally : Tally

def report : Report :=
  let c := w.run
  let ranges := c.memories.flatMap Job.ranges
  let views := c.memories.flatMap Job.views
  let popped := ranges.flatten
  let left := c.shared.values
  { popped := popped.length
    left := left.length
    all := (popped ++ left).mergeSort
    atomic := ranges.all w.isChunk
    viewsInOrder := views.all fun view => Production.inOrder w.producers view.reverse
    tally := .ofEvents c.shared.trace.toList }

end Workload

end SharedCollections.Stack

import SharedCollections.Queue.Basic
/-!
# Putting values at the tail

A writer reserves a slot of the tail segment by counting up, writes its value there, and marks the
slot as written. Whoever gets the last slot links the next segment and moves the tail on to it;
until that is done, others find the segment full and try again.
-/

namespace SharedCollections.Queue

variable {α : Type}

/-- Where a writer stands. Segments are named by `g`, slots by `i`. -/
inductive Enqueuing where
  | loadingTail
  | checking (g : Nat)
  | reserving (g : Nat)
  | writing (g i : Nat)
  | publishing (g i : Nat)
  | linking (g : Nat)
  | swinging (g : Nat)
  | reporting (g : Nat)
deriving DecidableEq, Repr

def Enqueuing.step (v : α) : Enqueuing → Queue α → Progress Enqueuing Unit × Queue α
  | loadingTail, q => (.next (checking q.tail), q)
  | checking g, q =>
    if (q.segment g).isFull then (.next loadingTail, q.emit (.retried .queueEnqueue))
    else (.next (reserving g), q)
  | reserving g, q =>
    let i := (q.segment g).reserved
    let q := q.modifySegment g Segment.reserve
    if i < Segment.size then (.next (writing g i), q)
    else (.next loadingTail, q.emit (.retried .queueEnqueue))
  | writing g i, q => (.next (publishing g i), q.modifyCell g i ({ · with value := some v }))
  | publishing g i, q =>
    (if i + 1 = Segment.size then .next (linking g) else .done (),
      q.modifyCell g i fun c => { c with slot := c.slot.markWritten })
  | linking g, q =>
    let new := q.segments.size
    let index := (q.segment g).index + 1
    let q := q.modifySegment g ({ · with next := some new })
    (.next (swinging new), { q with segments := q.segments.push (.empty index) })
  | swinging g, q => (.next (reporting g), { q with tail := g })
  | reporting g, q =>
    let index := (q.segment g).index
    (.done (), (q.emit (.grown index)).emit (.logged (.segmentAppended index)))

/-- Puts `v` at the tail. Alone, a writer never has to try again, and the longest way is the one
that links a segment. -/
def enqueue (v : α) : Action (Queue α) Unit := alone (Enqueuing.step v) 8 .loadingTail

def enqueueAll : List α → Action (Queue α) Unit
  | [] => pure ()
  | v :: vs => do enqueue v; enqueueAll vs

end SharedCollections.Queue

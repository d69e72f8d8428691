import SharedCollections.Queue.Basic
/-!
# Taking values from the head

A taker claims the first slot of the head segment that nobody has claimed, by comparing and
exchanging the count of claims. It waits until the value is there, waits for its readers if any
snapshot is in progress, and moves the value out. Whoever claims the last slot of a segment moves
the head on once the next segment is linked and the tail has left.
-/

namespace SharedCollections.Queue

variable {α : Type}

/-- Where a taker of a slot of one segment stands. -/
inductive Removing where
  | readingLow
  | readingStop (low : Nat)
  | claiming (low : Nat)
  | awaiting (i : Nat)
  | asking (i : Nat)
  | taking (i : Nat) (point : Slot.Taking)
  | moving (i : Nat)
deriving DecidableEq, Repr

/-- One step of taking a value from segment `g`. The result tells whether the value was in the last
slot. -/
def Removing.step (g : Nat) :
    Removing → Queue α → Progress Removing (Option (α × Bool)) × Queue α
  | readingLow, q => (.next (readingStop (q.segment g).low), q)
  | readingStop low, q =>
    (if low < (q.segment g).stop then .next (claiming low) else .done none, q)
  | claiming low, q =>
    if (q.segment g).claimed = low then
      (.next (awaiting low), q.modifySegment g ({ · with claimed := low + 1 }))
    else (.next readingLow, q.emit (.retried .queueDequeue))
  | awaiting i, q => (.next (if (q.cell g i).slot.isWritten then asking i else awaiting i), q)
  | asking i, q => (.next (if q.takers = 0 then moving i else taking i .marking), q)
  | taking i point, q =>
    let (progress, q) := q.stepSlot g i point.step
    (progress.lift (taking i) fun _ => .next (moving i), q)
  | moving i, q =>
    match (q.cell g i).value with
    | some v =>
      (.done (some (v, i + 1 = Segment.size)), q.modifyCell g i ({ · with value := none }))
    | none => (.fail .vacant, q)

/-- Where a taker stands. -/
inductive Dequeuing (α : Type) where
  | loadingHead
  | removing (g : Nat) (point : Removing)
  | checkingNext (g : Nat)
  | awaitingNext (g : Nat) (v : α)
  | awaitingTail (g next : Nat) (v : α)
  | advancing (next : Nat) (v : α)
deriving Repr

def Dequeuing.step : Dequeuing α → Queue α → Progress (Dequeuing α) (Option α) × Queue α
  | loadingHead, q => (.next (removing q.head .readingLow), q)
  | removing g point, q =>
    let (progress, q) := point.step g q
    (progress.lift (removing g) fun
      | none => .next (checkingNext g)
      | some (v, false) => .done (some v)
      | some (v, true) => .next (awaitingNext g v), q)
  | checkingNext g, q =>
    (if (q.segment g).next.isNone then .done none else .next loadingHead, q)
  | awaitingNext g v, q =>
    match (q.segment g).next with
    | none => (.next (awaitingNext g v), q)
    | some next => (.next (awaitingTail g next v), q)
  | awaitingTail g next v, q =>
    (.next (if q.tail = g then awaitingNext g v else advancing next v), q)
  | advancing next v, q => (.done (some v), { q with head := next })

/-- Takes the value at the head. Alone, a taker never waits, and the longest way is the one that
takes a value from the last slot of a segment while a snapshot is in progress. -/
def dequeue? : Action (Queue α) (Option α) := alone Dequeuing.step 12 .loadingHead

end SharedCollections.Queue

import SharedCollections.Queue.Basic
/-!
# Looking at a queue while others change it

A look at a value registers as a snapshot first, so that takers wait for it. A survey reads the
head, the tail and their cursors until two passes agree; a cursor then walks the surveyed extent
and skips what has been taken meanwhile.
-/

namespace SharedCollections.Queue

variable {α : Type}

/-! ## One slot -/

/-- Where a reader of one slot stands. -/
inductive Looking (α : Type) where
  | awaiting
  | reading (point : Slot.Reading α)
deriving Repr

/-- What a look into a slot finds there. -/
def content (g i : Nat) (q : Queue α) : Except Fault α :=
  match (q.cell g i).value with
  | some v => .ok v
  | none => .error .vacant

/-- One step of reading slot `i` of segment `g`, which has been reserved. -/
def Looking.step (g i : Nat) :
    Looking α → Queue α → Progress (Looking α) (Option α) × Queue α
  | awaiting, q =>
    (.next (if (q.cell g i).slot.isWritten then reading .arriving else awaiting), q)
  | reading point, q =>
    let (progress, q) := q.stepSlot g i (point.step (q.content g i))
    (progress.lift reading .done, q)

/-! ## The value at the head -/

/-- Where a thread that looks at the head stands. -/
inductive Peeking (α : Type) where
  | raising
  | loadingHead
  | readingLow (g : Nat)
  | readingStop (g low : Nat)
  | looking (g i : Nat) (point : Looking α)
  | checkingNext (g : Nat)
  | lowering (seen : Option α)
deriving Repr

def Peeking.step : Peeking α → Queue α → Progress (Peeking α) (Option α) × Queue α
  | raising, q => (.next loadingHead, { q with takers := q.takers + 1 })
  | loadingHead, q => (.next (readingLow q.head), q)
  | readingLow g, q => (.next (readingStop g (q.segment g).low), q)
  | readingStop g low, q =>
    (.next (if low < (q.segment g).stop then looking g low .awaiting else checkingNext g), q)
  | looking g i point, q =>
    let (progress, q) := point.step g i q
    (progress.lift (looking g i) fun
      | some v => .next (lowering (some v))
      | none => .next loadingHead, q)
  | checkingNext g, q =>
    (.next (if (q.segment g).next.isNone then lowering none else loadingHead), q)
  | lowering seen, q => (.done seen, { q with takers := q.takers - 1 })

/-- A copy of the value at the head. Alone, a look takes nine steps at most. -/
def peek? : Action (Queue α) (Option α) := alone Peeking.step 9 .raising

/-! ## Emptiness -/

/-- Where a thread that asks whether the queue is empty stands. -/
inductive Probing where
  | loadingHead
  | readingLow (g : Nat)
  | readingStop (g low : Nat)
  | checkingNext (g : Nat)
deriving DecidableEq, Repr

def Probing.step : Probing → Queue α → Progress Probing Bool × Queue α
  | loadingHead, q => (.next (readingLow q.head), q)
  | readingLow g, q => (.next (readingStop g (q.segment g).low), q)
  | readingStop g low, q =>
    (if low < (q.segment g).stop then .done false else .next (checkingNext g), q)
  | checkingNext g, q =>
    (if (q.segment g).next.isNone then .done true else .next loadingHead, q)

def isEmpty : Action (Queue α) Bool := alone Probing.step 4 .loadingHead

/-! ## Surveys -/

/-- Both ends of a queue: the first slot of the head that is not claimed and the first slot of the
tail that is not reserved. -/
structure Extent where
  head : Nat
  tail : Nat
  low : Nat
  stop : Nat
deriving DecidableEq, Repr

/-- Where a survey stands. The second pass compares what the first one has read. -/
inductive Surveying where
  | loadingHead
  | loadingTail (head : Nat)
  | readingLow (head tail : Nat)
  | readingStop (head tail low : Nat)
  | checkingHead (x : Extent)
  | checkingTail (x : Extent)
  | checkingLow (x : Extent)
  | checkingStop (x : Extent)
deriving DecidableEq, Repr

/-- Starts a survey over whose passes disagree. -/
def resurvey {ρ : Type} (q : Queue α) : Progress Surveying ρ × Queue α :=
  (.next .loadingHead, q.emit (.retried .queueSnapshot))

def Surveying.step : Surveying → Queue α → Progress Surveying Extent × Queue α
  | loadingHead, q => (.next (loadingTail q.head), q)
  | loadingTail head, q => (.next (readingLow head q.tail), q)
  | readingLow head tail, q => (.next (readingStop head tail (q.segment head).low), q)
  | readingStop head tail low, q =>
    (.next (checkingHead ⟨head, tail, low, (q.segment tail).stop⟩), q)
  | checkingHead x, q => if x.head = q.head then (.next (checkingTail x), q) else resurvey q
  | checkingTail x, q => if x.tail = q.tail then (.next (checkingLow x), q) else resurvey q
  | checkingLow x, q =>
    if x.low = (q.segment x.head).low then (.next (checkingStop x), q) else resurvey q
  | checkingStop x, q =>
    if x.stop = (q.segment x.tail).stop ∧ (q.segment x.head).index ≤ (q.segment x.tail).index then
      (.done x, q)
    else resurvey q

/-- Surveys both ends. Alone, the first two passes agree. -/
def survey : Action (Queue α) Extent := alone Surveying.step 8 .loadingHead

/-- The number of values in an extent of `q`. Indices of segments never change, so this may be
worked out after the survey. -/
def Extent.size (x : Extent) (q : Queue α) : Nat :=
  if x.head = x.tail then x.stop - x.low
  else
    Segment.size - x.low +
      Segment.size * ((q.segment x.tail).index - (q.segment x.head).index - 1) + x.stop

def size : Action (Queue α) Nat := do
  let x ← survey
  return x.size (← get)

/-! ## Cursors -/

/-- A live snapshot: the slot to visit next and the extent's end. A cursor without a segment is
exhausted. -/
structure Cursor where
  segment : Option Nat
  slot : Nat
  tail : Nat
  stop : Nat
deriving DecidableEq, Repr

namespace Cursor

def ofExtent (x : Extent) : Cursor := ⟨some x.head, x.low, x.tail, x.stop⟩

/-- Where the slots to visit end in segment `g`. -/
def last (c : Cursor) (g : Nat) : Nat := if g = c.tail then c.stop else Segment.size

end Cursor

/-- Where a cursor that looks for its next value stands. -/
inductive Iterating (α : Type) where
  | scanning (c : Cursor)
  | looking (c : Cursor) (g i : Nat) (point : Looking α)
  | hopping (c : Cursor) (g : Nat)
deriving Repr

def Iterating.step :
    Iterating α → Queue α → Progress (Iterating α) (Option α × Cursor) × Queue α
  | scanning c, q =>
    match c.segment with
    | none => (.done (none, c), q)
    | some g =>
      if c.slot < c.last g then
        (.next (looking { c with slot := c.slot + 1 } g c.slot .awaiting), q)
      else if g = c.tail then (.done (none, { c with segment := none }), q)
      else (.next (hopping c g), q)
  | looking c g i point, q =>
    let (progress, q) := point.step g i q
    (progress.lift (looking c g i) fun
      | some v => .done (some v, c)
      | none => .next (scanning c), q)
  | hopping c g, q => (.next (scanning { c with segment := (q.segment g).next, slot := 0 }), q)

/-- Opens a cursor, which is a snapshot in progress until it is closed. -/
def openCursor : Action (Queue α) Cursor := do
  modify fun q => { q with takers := q.takers + 1 }
  return .ofExtent (← survey)

def closeCursor : Action (Queue α) Unit := modify fun q => { q with takers := q.takers - 1 }

/-- The next value of a cursor. Alone, every slot costs at most five steps, and so does moving on to
another segment. -/
def Cursor.next? (c : Cursor) : Action (Queue α) (Option α × Cursor) := .mk fun q =>
  drive Iterating.step (5 * (Segment.size + 1) * (q.segments.size + 1)) (.scanning c) q

/-- Up to `bound` further values of a cursor. -/
def Cursor.collect : (bound : Nat) → Cursor → Action (Queue α) (List α × Cursor)
  | 0, c => pure ([], c)
  | bound + 1, c => do
    match ← c.next? with
    | (none, c) => return ([], c)
    | (some v, c) =>
      let (vs, c) ← c.collect bound
      return (v :: vs, c)

/-- All further values of a cursor. There are no more than slots. -/
def Cursor.rest (c : Cursor) : Action (Queue α) (List α × Cursor) := do
  c.collect (Segment.size * (← get).segments.size + 1)

/-- The values from the head on. -/
def toList : Action (Queue α) (List α) := do
  let c ← openCursor
  let (vs, _) ← c.rest
  closeCursor
  return vs

end SharedCollections.Queue

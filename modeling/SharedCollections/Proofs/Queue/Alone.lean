import SharedCollections.Proofs.Drive
import SharedCollections.Proofs.Queue.Segment
import SharedCollections.Proofs.Slot
import SharedCollections.Queue.Dequeue
import SharedCollections.Queue.Enqueue
import SharedCollections.Queue.Snapshot
/-!
# One thread alone on a queue

What the operations come to when nobody else is busy with the queue. A look leaves it exactly as it
was. A value is put into and taken out of one slot, and only the last slot of a segment moves an
end.
-/

namespace SharedCollections

namespace Segment

variable {α : Type}

/-- The next slot is claimed and its value is moved out; the slot is marked as taken if `mark`
holds. -/
def vacate (mark : Prop) [Decidable mark] (s : Segment α) : Segment α :=
  { s with claimed := s.claimed + 1 }.modifyCell s.claimed
    fun c => ⟨none, if mark then c.slot.markTaken else c.slot⟩

/-- The next slot is reserved, and `v` is written there. -/
def fill (v : α) (s : Segment α) : Segment α :=
  s.reserve.modifyCell s.reserved fun c => ⟨some v, c.slot.markWritten⟩

/-- Segment `g` is linked behind this one. -/
def linkTo (g : Nat) (s : Segment α) : Segment α := { s with next := some g }

variable {s : Segment α} {g i : Nat} {v : α}

@[simp] theorem index_linkTo : (s.linkTo g).index = s.index := rfl

@[simp] theorem cells_linkTo : (s.linkTo g).cells = s.cells := rfl

@[simp] theorem claimed_linkTo : (s.linkTo g).claimed = s.claimed := rfl

@[simp] theorem reserved_linkTo : (s.linkTo g).reserved = s.reserved := rfl

@[simp] theorem next_linkTo : (s.linkTo g).next = some g := rfl

@[simp] theorem size_cells_fill : (s.fill v).cells.size = s.cells.size := size_modifyCell _ _

@[simp] theorem index_fill : (s.fill v).index = s.index := rfl

@[simp] theorem claimed_fill : (s.fill v).claimed = s.claimed := rfl

@[simp] theorem reserved_fill : (s.fill v).reserved = s.reserved + 1 := rfl

@[simp] theorem next_fill : (s.fill v).next = s.next := rfl

theorem cell_fill_self (reserved : s.reserved = i) (hi : i < s.cells.size) :
    (s.fill v).cell i = ⟨some v, (s.cell i).slot.markWritten⟩ := by
  subst reserved
  exact cell_modifyCell_self _ hi

theorem cell_fill_of_ne (other : s.reserved ≠ i) : (s.fill v).cell i = s.cell i :=
  cell_modifyCell_of_ne _ other

variable {mark : Prop} [Decidable mark]

@[simp] theorem size_cells_vacate : (s.vacate mark).cells.size = s.cells.size :=
  size_modifyCell _ _

@[simp] theorem claimed_vacate : (s.vacate mark).claimed = s.claimed + 1 := rfl

@[simp] theorem reserved_vacate : (s.vacate mark).reserved = s.reserved := rfl

@[simp] theorem next_vacate : (s.vacate mark).next = s.next := rfl

theorem cell_vacate_self (claimed : s.claimed = i) (hi : i < s.cells.size) :
    (s.vacate mark).cell i =
      ⟨none, if mark then (s.cell i).slot.markTaken else (s.cell i).slot⟩ := by
  subst claimed
  exact cell_modifyCell_self _ hi

theorem cell_vacate_of_ne (other : s.claimed ≠ i) : (s.vacate mark).cell i = s.cell i :=
  cell_modifyCell_of_ne _ other

end Segment

namespace Queue

variable {α : Type} {q : Queue α} {g i : Nat} {v : α}

/-! ## Looking into a slot -/

/-- A reader has arrived at slot `i` of segment `g`. -/
def arrive (g i : Nat) (q : Queue α) : Queue α :=
  q.modifyCell g i ({ · with slot := (q.cell g i).slot.arrive })

section

variable (hg : g < q.segments.size) (hi : i < (q.segment g).cells.size)

include hg hi

theorem cell_arrive :
    (q.arrive g i).cell g i = { q.cell g i with slot := (q.cell g i).slot.arrive } :=
  cell_modifyCell_self _ hg hi

/-- A reader that leaves puts everything back as it was. -/
theorem step_leaving (x : Option α) :
    Looking.step g i (.reading (.leaving (.ok x))) (q.arrive g i) = (.done x, q) := by
  have here := cell_arrive hg hi
  simp only [Looking.step, stepSlot, Slot.Reading.step, here, Slot.arrive_leave,
    Progress.lift_done]
  rw [arrive, modifyCell_modifyCell, modifyCell_eq_self rfl]

/-- Nothing is seen in a slot that is marked as taken. -/
theorem drive_looking_of_marked (cell : q.cell g i = ⟨none, Slot.written.markTaken⟩) :
    drive (Looking.step g i) 3 .awaiting q = .ok none q := by
  have ready : Looking.step g i .awaiting q = (.next (.reading .arriving), q) := by
    rw [Looking.step, cell, if_pos ((Slot.isWritten_markTaken _).trans Slot.isWritten_written)]
  have arrive : Looking.step g i (.reading .arriving) q =
      (.next (.reading (.leaving (.ok none))), q.arrive g i) := by
    simp [Looking.step, stepSlot, Slot.Reading.step, Queue.arrive, cell, Slot.isTaken_markTaken]
  rw [drive_succ_next _ ready, drive_succ_next _ arrive,
    drive_succ_done _ (step_leaving hg hi none)]

/-- A value that is in its slot is seen there. -/
theorem drive_looking_of_written (cell : q.cell g i = ⟨some v, .written⟩) :
    drive (Looking.step g i) 4 .awaiting q = .ok (some v) q := by
  have ready : Looking.step g i .awaiting q = (.next (.reading .arriving), q) := by
    rw [Looking.step, cell, if_pos Slot.isWritten_written]
  have arrive : Looking.step g i (.reading .arriving) q =
      (.next (.reading .looking), q.arrive g i) := by
    simp [Looking.step, stepSlot, Slot.Reading.step, Queue.arrive, cell, Slot.isTaken_written]
  have look : Looking.step g i (.reading .looking) (q.arrive g i) =
      (.next (.reading (.leaving (.ok (some v)))), q.arrive g i) := by
    have here := cell_arrive hg hi
    simp only [Looking.step, stepSlot, Slot.Reading.step, content, here, cell, Except.map,
      Progress.lift_next]
    rw [modifyCell_eq_self (by rw [here, cell])]
  rw [drive_succ_next _ ready, drive_succ_next _ arrive, drive_succ_next _ look,
    drive_succ_done _ (step_leaving hg hi (some v))]

end

/-! ## Taking a value out of a segment -/

section

variable (hg : g < q.segments.size) (hi : i < (q.segment g).cells.size)
  (cell : q.cell g i = ⟨some v, .written⟩)

include hg hi cell

/-- The slot is marked while a snapshot is in progress, and the value is moved out. -/
theorem drive_asking : drive (Removing.step g) 3 (.asking i) q =
    .ok (some (v, i + 1 = Segment.size))
      (q.modifyCell g i fun c => ⟨none, if q.takers ≠ 0 then c.slot.markTaken else c.slot⟩) := by
  by_cases takers : q.takers = 0
  · have ask : Removing.step g (.asking i) q = (.next (.moving i), q) := by
      rw [Removing.step, if_pos takers]
    have move : Removing.step g (.moving i) q =
        (.done (some (v, i + 1 = Segment.size)), q.modifyCell g i ({ · with value := none })) := by
      simp only [Removing.step, cell]
    simp only [drive_succ_next _ ask, drive_succ_done _ move, takers, ne_eq, not_true_eq_false,
      if_false]
  · let marked := q.modifyCell g i ({ · with slot := Slot.written.markTaken })
    have there : marked.cell g i = ⟨some v, Slot.written.markTaken⟩ := by
      rw [cell_modifyCell_self _ hg hi, cell]
    have ask : Removing.step g (.asking i) q = (.next (.taking i .marking), q) := by
      rw [Removing.step, if_neg takers]
    have mark : Removing.step g (.taking i .marking) q = (.next (.moving i), marked) := by
      simp [Removing.step, stepSlot, Slot.Taking.step, cell, Slot.isRead_written, marked]
    have move : Removing.step g (.moving i) marked =
        (.done (some (v, i + 1 = Segment.size)),
          marked.modifyCell g i ({ · with value := none })) := by
      simp only [Removing.step, there]
    rw [drive_succ_next _ ask, drive_succ_next _ mark, drive_succ_done _ move,
      modifyCell_modifyCell, modifyCell_congr]
    rw [cell, if_pos takers]

/-- The value in the next slot that can be claimed is taken out. -/
theorem drive_removing (claimed : (q.segment g).claimed = i) (left : i < (q.segment g).stop) :
    drive (Removing.step g) 7 .readingLow q =
      .ok (some (v, i + 1 = Segment.size))
        (q.modifySegment g (Segment.vacate (q.takers ≠ 0))) := by
  have low : (q.segment g).low = i := by
    rw [Segment.low, claimed]
    exact Nat.min_eq_left (Nat.le_trans (Nat.le_of_lt left) (Segment.stop_le_size _))
  let q' := q.modifySegment g ({ · with claimed := i + 1 })
  have segment : q'.segment g = { q.segment g with claimed := i + 1 } :=
    segment_modifySegment_self _ hg
  have here : q'.cell g i = ⟨some v, .written⟩ := by
    rw [Queue.cell, segment]
    exact cell
  have read : Removing.step g .readingLow q = (.next (.readingStop i), q) := by
    rw [Removing.step, low]
  have compare : Removing.step g (.readingStop i) q = (.next (.claiming i), q) := by
    rw [Removing.step, if_pos left]
  have claim : Removing.step g (.claiming i) q = (.next (.awaiting i), q') := by
    rw [Removing.step, if_pos claimed]
  have await : Removing.step g (.awaiting i) q' = (.next (.asking i), q') := by
    rw [Removing.step, here, if_pos Slot.isWritten_written]
  have taken := drive_asking (by simpa [q'] using hg) (by rwa [segment]) here
  rw [drive_succ_next _ read, drive_succ_next _ compare, drive_succ_next _ claim,
    drive_succ_next _ await, taken, modifyCell, modifySegment_modifySegment, modifySegment_congr]
  rw [Segment.vacate, claimed]
  rfl

end

/-- Nothing is taken out of a segment of which no slot is left. -/
theorem drive_removing_of_le (none : (q.segment g).stop ≤ (q.segment g).low) :
    drive (Removing.step g) 2 .readingLow q = .ok .none q := by
  have read : Removing.step g .readingLow q = (.next (.readingStop (q.segment g).low), q) := rfl
  have compare : Removing.step g (.readingStop (q.segment g).low) q = (.done .none, q) := by
    rw [Removing.step, if_neg (Nat.not_lt.mpr none)]
  rw [drive_succ_next _ read, drive_succ_done _ compare]

/-! ## Taking the value at the head -/

theorem run_dequeue?_of_none (none : (q.segment q.head).stop ≤ (q.segment q.head).low)
    (last : (q.segment q.head).next = .none) :
    (dequeue? : Action (Queue α) (Option α)).run q = .ok .none q := by
  have load : Dequeuing.step .loadingHead q =
      (.next (.removing q.head .readingLow : Dequeuing α), q) := rfl
  have check : Dequeuing.step (.checkingNext q.head) q =
      (.done .none, q) := by
    rw [Dequeuing.step, last]
    rfl
  have removed := drive_removing_of_le none
  rw [dequeue?, run_alone, drive_succ_next _ load]
  refine drive_mono (drive_lift (b := 1) (fun _ _ => rfl) removed ?_) (by decide)
  exact drive_succ_done 0 check

section

variable (hg : q.head < q.segments.size) (hi : i < (q.segment q.head).cells.size)
  (cell : q.cell q.head i = ⟨some v, .written⟩)
  (claimed : (q.segment q.head).claimed = i) (left : i < (q.segment q.head).stop)

include hg hi cell claimed left

theorem run_dequeue?_of_ne (inside : i + 1 ≠ Segment.size) :
    dequeue?.run q = .ok (some v) (q.modifySegment q.head (Segment.vacate (q.takers ≠ 0))) := by
  have load : Dequeuing.step .loadingHead q =
      (.next (.removing q.head .readingLow : Dequeuing α), q) := rfl
  have removed := drive_removing hg hi cell claimed left
  rw [decide_eq_false inside] at removed
  rw [dequeue?, run_alone, drive_succ_next _ load]
  exact drive_mono (drive_lift (b := 0) (fun _ _ => rfl) removed rfl) (by decide)

/-- The value in the last slot of a segment takes the head along. -/
theorem run_dequeue?_of_eq (last : i + 1 = Segment.size) {next : Nat}
    (linked : (q.segment q.head).next = some next) (tail : q.tail ≠ q.head) :
    dequeue?.run q = .ok (some v)
      { q.modifySegment q.head (Segment.vacate (q.takers ≠ 0)) with head := next } := by
  have load : Dequeuing.step .loadingHead q =
      (.next (.removing q.head .readingLow : Dequeuing α), q) := rfl
  have removed := drive_removing hg hi cell claimed left
  rw [decide_eq_true last] at removed
  let q' := q.modifySegment q.head (Segment.vacate (q.takers ≠ 0))
  have next' : (q'.segment q.head).next = some next := by
    rw [segment_modifySegment_self _ hg]
    exact linked
  have tail' : q'.tail ≠ q.head := tail
  have await : Dequeuing.step (.awaitingNext q.head v) q' =
      (.next (.awaitingTail q.head next v), q') := by
    rw [Dequeuing.step, next']
  have swing : Dequeuing.step (.awaitingTail q.head next v) q' =
      (.next (.advancing next v), q') := by
    rw [Dequeuing.step, if_neg tail']
  rw [dequeue?, run_alone, drive_succ_next _ load]
  refine drive_mono (drive_lift (b := 3) (fun _ _ => rfl) removed ?_) (by decide)
  rw [resume_next, drive_succ_next _ await, drive_succ_next _ swing]
  rfl

end

/-! ## Looking at the head -/

/-- A look at the head comes to the cursors of the head segment. -/
theorem run_peek? : (peek? : Action (Queue α) (Option α)).run q =
    drive Peeking.step 6 (.readingStop q.head (q.segment q.head).low)
      { q with takers := q.takers + 1 } := rfl

theorem run_peek?_of_none (none : (q.segment q.head).stop ≤ (q.segment q.head).low)
    (last : (q.segment q.head).next = .none) :
    (peek? : Action (Queue α) (Option α)).run q = .ok .none q := by
  let q₁ : Queue α := { q with takers := q.takers + 1 }
  have compare : Peeking.step (.readingStop q.head (q.segment q.head).low) q₁ =
      (.next (.checkingNext q.head : Peeking α), q₁) :=
    congrArg (Progress.next ·, q₁) (if_neg (Nat.not_lt.mpr none))
  have check : Peeking.step (.checkingNext q.head) q₁ = (.next (.lowering .none), q₁) :=
    congrArg (Progress.next ·, q₁) (if_pos (Option.isNone_iff_eq_none.mpr last))
  rw [run_peek?, drive_succ_next _ compare, drive_succ_next _ check]
  rfl

theorem run_peek?_of_some (hg : q.head < q.segments.size)
    (hi : (q.segment q.head).low < (q.segment q.head).cells.size)
    (left : (q.segment q.head).low < (q.segment q.head).stop)
    (cell : q.cell q.head (q.segment q.head).low = ⟨some v, .written⟩) :
    (peek? : Action (Queue α) (Option α)).run q = .ok (some v) q := by
  let q₁ : Queue α := { q with takers := q.takers + 1 }
  have compare : Peeking.step (.readingStop q.head (q.segment q.head).low) q₁ =
      (.next (.looking q.head (q.segment q.head).low .awaiting : Peeking α), q₁) :=
    congrArg (Progress.next ·, q₁) (if_pos left)
  have seen := drive_looking_of_written (q := q₁) hg hi cell
  rw [run_peek?, drive_succ_next _ compare]
  exact drive_mono (drive_lift (b := 1) (fun _ _ => rfl) seen rfl) (by decide)

/-! ## Both ends -/

theorem run_isEmpty_of_some (left : (q.segment q.head).low < (q.segment q.head).stop) :
    (isEmpty : Action (Queue α) Bool).run q = .ok false q := by
  have compare : Probing.step (.readingStop q.head (q.segment q.head).low) q =
      (.done false, q) := by
    rw [Probing.step, if_pos left]
  rw [isEmpty, run_alone, drive_succ_next _ rfl, drive_succ_next _ rfl, drive_succ_done _ compare]

theorem run_isEmpty_of_none (none : (q.segment q.head).stop ≤ (q.segment q.head).low)
    (last : (q.segment q.head).next = .none) :
    (isEmpty : Action (Queue α) Bool).run q = .ok true q := by
  have compare : Probing.step (.readingStop q.head (q.segment q.head).low) q =
      (.next (.checkingNext q.head), q) := by
    rw [Probing.step, if_neg (Nat.not_lt.mpr none)]
  have check : Probing.step (.checkingNext q.head) q = (.done true, q) := by
    rw [Probing.step, last]
    rfl
  rw [isEmpty, run_alone, drive_succ_next _ rfl, drive_succ_next _ rfl, drive_succ_next _ compare,
    drive_succ_done _ check]

/-- Where a queue begins and ends. -/
def extent (q : Queue α) : Extent :=
  ⟨q.head, q.tail, (q.segment q.head).low, (q.segment q.tail).stop⟩

theorem run_survey (ordered : (q.segment q.head).index ≤ (q.segment q.tail).index) :
    (survey : Action (Queue α) Extent).run q = .ok q.extent q := by
  have head : Surveying.step (.checkingHead q.extent) q = (.next (.checkingTail q.extent), q) :=
    if_pos rfl
  have tail : Surveying.step (.checkingTail q.extent) q = (.next (.checkingLow q.extent), q) :=
    if_pos rfl
  have low : Surveying.step (.checkingLow q.extent) q = (.next (.checkingStop q.extent), q) :=
    if_pos rfl
  have stop : Surveying.step (.checkingStop q.extent) q = (.done q.extent, q) :=
    if_pos ⟨rfl, ordered⟩
  have first : (survey : Action (Queue α) Extent).run q =
      drive Surveying.step 4 (.checkingHead q.extent) q := rfl
  rw [first, drive_succ_next _ head, drive_succ_next _ tail, drive_succ_next _ low,
    drive_succ_done _ stop]

/-! ## Putting a value at the tail -/

/-- A segment with the next index is linked behind the tail, which moves on to it. -/
def append (q : Queue α) : Queue α :=
  let index := (q.segment q.tail).index + 1
  let linked := q.modifySegment q.tail (Segment.linkTo q.segments.size)
  { linked with
    segments := linked.segments.push (.empty index)
    tail := q.segments.size
    trace := (q.trace.push (.grown index)).push (.logged (.segmentAppended index)) }

section

variable {q' : Queue α} {s : Segment α} (longer : q'.segments = q.segments.push s)

include longer

theorem segment_push : q'.segment q.segments.size = s := by
  simp [segment, longer, Array.getD_eq_getD_getElem?]

theorem segment_push_of_lt (hg : g < q.segments.size) : q'.segment g = q.segment g := by
  simp [segment, longer, Array.getD_eq_getD_getElem?, Array.getElem?_push, Nat.ne_of_lt hg]

end

@[simp] theorem size_append : q.append.segments.size = q.segments.size + 1 := by
  simp [append]

theorem toList_trace_append : q.append.trace.toList = q.trace.toList ++
    [.grown ((q.segment q.tail).index + 1),
      .logged (.segmentAppended ((q.segment q.tail).index + 1))] := by
  simp [append]

theorem segment_append_tail (hg : q.tail < q.segments.size) :
    q.append.segment q.tail = (q.segment q.tail).linkTo q.segments.size := by
  rw [← segment_modifySegment_self (Segment.linkTo q.segments.size) hg]
  exact segment_push_of_lt rfl (by simpa using hg)

theorem segment_append_of_ne (hg : g < q.segments.size) (other : q.tail ≠ g) :
    q.append.segment g = q.segment g := by
  refine Eq.trans ?_ (segment_modifySegment_of_ne (Segment.linkTo q.segments.size) other)
  exact segment_push_of_lt rfl (by simpa using hg)

theorem segment_append_new :
    q.append.segment q.segments.size = .empty ((q.segment q.tail).index + 1) := by
  let linked := q.modifySegment q.tail (Segment.linkTo q.segments.size)
  have size : linked.segments.size = q.segments.size := size_modifySegment _ _
  have new : q.append.segment linked.segments.size = .empty ((q.segment q.tail).index + 1) :=
    segment_push rfl
  rwa [size] at new

theorem drive_append (tail : q.tail = g) :
    drive (Enqueuing.step v) 3 (.linking g) q = .ok () q.append := by
  subst tail
  let index := (q.segment q.tail).index + 1
  let linked := q.modifySegment q.tail (Segment.linkTo q.segments.size)
  let longer : Queue α := { linked with segments := linked.segments.push (.empty index) }
  have link : Enqueuing.step v (.linking q.tail) q = (.next (.swinging q.segments.size), longer) :=
    rfl
  have swing : Enqueuing.step v (.swinging q.segments.size) longer =
      (.next (.reporting q.segments.size), { longer with tail := q.segments.size }) := rfl
  have last : (longer.segment q.segments.size).index = index := by
    have size : linked.segments.size = q.segments.size := size_modifySegment _ _
    rw [← size]
    exact congrArg Segment.index (segment_push (q := linked) (s := .empty index) rfl)
  have report : Enqueuing.step v (.reporting q.segments.size)
      { longer with tail := q.segments.size } = (.done (), q.append) := by
    have read : ((segment q.segments.size { longer with tail := q.segments.size }).index) = index :=
      last
    simp only [Enqueuing.step, read]
    rfl
  rw [drive_succ_next _ link, drive_succ_next _ swing, drive_succ_done _ report]

/-- A value goes into the next slot of the tail, and the last slot takes the tail along. -/
theorem run_enqueue (reserved : (q.segment q.tail).reserved = i) (room : i < Segment.size) :
    (enqueue v).run q = .ok ()
      (if i + 1 = Segment.size then (q.modifySegment q.tail (Segment.fill v)).append
      else q.modifySegment q.tail (Segment.fill v)) := by
  let q₁ := q.modifySegment q.tail Segment.reserve
  let q₂ := q₁.modifyCell q.tail i ({ · with value := some v })
  let q₃ := q.modifySegment q.tail (Segment.fill v)
  have load : Enqueuing.step v .loadingTail q = (.next (.checking q.tail), q) := rfl
  have check : Enqueuing.step v (.checking q.tail) q = (.next (.reserving q.tail), q) := by
    have room : (q.segment q.tail).isFull = false := by simp [Segment.isFull, reserved, room]
    simp [Enqueuing.step, room]
  have reserve : Enqueuing.step v (.reserving q.tail) q = (.next (.writing q.tail i), q₁) := by
    simp [Enqueuing.step, reserved, room, q₁]
  have write : Enqueuing.step v (.writing q.tail i) q₁ = (.next (.publishing q.tail i), q₂) := rfl
  have publish : Enqueuing.step v (.publishing q.tail i) q₂ =
      (if i + 1 = Segment.size then .next (.linking q.tail) else .done (), q₃) := by
    simp only [Enqueuing.step, Prod.mk.injEq, true_and]
    simp only [q₂, modifyCell_modifyCell]
    simp only [q₁, q₃, modifyCell, modifySegment_modifySegment]
    rw [modifySegment_congr]
    rw [Segment.fill, reserved]
  rw [enqueue, run_alone, drive_succ_next _ load, drive_succ_next _ check,
    drive_succ_next _ reserve, drive_succ_next _ write, drive_succ, publish]
  by_cases last : i + 1 = Segment.size
  · simp only [if_pos last, resume_next]
    exact drive_append (g := q.tail) (q := q₃) rfl
  · simp only [if_neg last, resume_done, q₃]

end Queue

end SharedCollections

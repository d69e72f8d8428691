import SharedCollections.Proofs.Queue.Interleaved
/-!
# Where snapshots stand

A snapshot looks only at slots that have been reserved and written (`Stands`). It registers before
it reads how many slots have been claimed, so it is beyond every slot that was claimed before
(`Beyond`), and stays so while it moves on.
-/

namespace SharedCollections.Queue

variable {α : Type} {q q' : Queue α} {l l' : Ledger α} {past : List (Nat × Deed α)}
  {t g i p r n : Nat}

/-! ## One slot -/

/-- What a reader of slot `i` of segment `g` can be sure of. -/
def Looking.Stands (q : Queue α) (g i : Nat) (point : Looking α) : Prop :=
  g < q.segments.size ∧ i < Segment.size ∧ match point with
    | .awaiting => True
    | .reading (.leaving (.error _)) => False
    | .reading _ => (q.place (Segment.size * g + i)).slot.isWritten = true

theorem Looking.Stands.mono {point : Looking α} (h : point.Stands q g i) (grows : Grows q l q' l') :
    point.Stands q' g i := by
  refine ⟨h.1.trans_le grows.size_le, h.2.1, ?_⟩
  have here := h.2.2
  split at here
  · trivial
  · exact here
  · exact grows.written _ here

/-- A look does not fail if the value is there. -/
theorem Looking.stands_step {point : Looking α} (stands : point.Stands q g i)
    (there : point = .reading .looking → (q.cell g i).value ≠ none) :
    (point.step g i q).1.Holds (Looking.Stands q g i) fun _ => True := by
  obtain ⟨hg, hi, here⟩ := stands
  cases point with
  | awaiting =>
    by_cases written : (q.cell g i).slot.isWritten = true
    · rw [Looking.step, if_pos written]
      exact ⟨hg, hi, cell_eq_place hi ▸ written⟩
    · rw [Looking.step, if_neg written]
      exact ⟨hg, hi, trivial⟩
  | reading point =>
    cases point with
    | arriving =>
      cases taken : (q.cell g i).slot.isTaken <;>
        simp only [Looking.step, stepSlot, Slot.Reading.step, taken] <;> exact ⟨hg, hi, here⟩
    | looking =>
      obtain ⟨v, value⟩ := Option.ne_none_iff_exists'.mp (there rfl)
      simp only [Looking.step, stepSlot, Slot.Reading.step, content, value]
      exact ⟨hg, hi, here⟩
    | leaving seen =>
      cases seen with
      | error => exact here.elim
      | ok => trivial

/-! ## The value at the head -/

def Peeking.Stands (q : Queue α) : Peeking α → Prop
  | readingLow g | readingStop g _ => g ≤ q.head
  | looking g i point => point.Stands q g i
  | _ => True

/-- The thread will not look at slot `p`, unless it reads the number of claims first. -/
def Peeking.Beyond (p : Nat) : Peeking α → Prop
  | readingStop g low => low < Segment.size → p < Segment.size * g + low
  | looking g i _ => p < Segment.size * g + i
  | _ => True

/-- Slots that have been claimed come before the first one that has not. -/
theorem Built.beyond (h : Built q r n) (le : g ≤ q.head) (claimed : p < n)
    (left : (q.segment g).low < Segment.size) : p < Segment.size * g + (q.segment g).low := by
  have fits := (h.fits g (le.trans_lt h.head_lt)).claimed
  have head_le := h.head_le
  simp only [Segment.low, Segment.size] at fits head_le left ⊢
  omega

theorem Peeking.stands_step {point : Peeking α} (h : Built q r n) (stands : point.Stands q)
    (there : ∀ g i, point = .looking g i (.reading .looking) → (q.cell g i).value ≠ none) :
    (point.step q).1.Holds
      (fun point' => point'.Stands q ∧ ∀ p < n, point.Beyond p → point'.Beyond p)
      fun _ => True := by
  cases point with
  | raising => exact ⟨trivial, fun _ _ _ => trivial⟩
  | loadingHead => exact ⟨Nat.le_refl _, fun _ _ _ => trivial⟩
  | readingLow g => exact ⟨stands, fun p claimed _ left => h.beyond stands claimed left⟩
  | readingStop g low =>
    by_cases left : low < (q.segment g).stop
    · have inside := left.trans_le (q.segment g).stop_le_size
      rw [Peeking.step, if_pos left]
      exact ⟨⟨Nat.lt_of_le_of_lt stands h.head_lt, inside, trivial⟩,
        fun p _ beyond => beyond inside⟩
    · rw [Peeking.step, if_neg left]
      exact ⟨trivial, fun _ _ _ => trivial⟩
  | looking g i point =>
    refine (Looking.stands_step stands fun here => there g i (by rw [here])).lift
      (fun point' stands' => ⟨stands', fun _ _ beyond => beyond⟩) fun seen _ => ?_
    cases seen <;> exact ⟨trivial, fun _ _ _ => trivial⟩
  | checkingNext g =>
    rw [Peeking.step]
    split <;> exact ⟨trivial, fun _ _ _ => trivial⟩
  | lowering => trivial

/-! ## Surveys -/

def Extent.Stands (q : Queue α) (x : Extent) : Prop :=
  x.head ≤ q.head ∧ x.low ≤ Segment.size ∧ x.stop ≤ Segment.size

def Surveying.Stands (q : Queue α) : Surveying → Prop
  | loadingHead => True
  | loadingTail head | readingLow head _ => head ≤ q.head
  | readingStop head _ low => head ≤ q.head ∧ low ≤ Segment.size
  | checkingHead x | checkingTail x | checkingLow x | checkingStop x => x.Stands q

/-- The extent will begin after slot `p`, unless the survey reads the number of claims first. Where
all slots of the head are claimed, that is known only once the head is read again. -/
def Surveying.Beyond (p : Nat) : Surveying → Prop
  | readingStop head _ low => low < Segment.size → p < Segment.size * head + low
  | checkingHead x => x.low < Segment.size → p < Segment.size * x.head + x.low
  | checkingTail x | checkingLow x | checkingStop x => p < Segment.size * x.head + x.low
  | _ => True

/-- What a cursor of a snapshot can be sure of. -/
structure Cursor.Within (q : Queue α) (c : Cursor) : Prop where
  segment_lt : ∀ g ∈ c.segment, g < q.segments.size
  slot_le : c.slot ≤ Segment.size
  stop_le : c.stop ≤ Segment.size

/-- The cursor has passed slot `p`. -/
def Cursor.Beyond (p : Nat) (c : Cursor) : Prop := ∀ g ∈ c.segment, p < Segment.size * g + c.slot

theorem Surveying.stands_step {point : Surveying} (h : Built q r n) (stands : point.Stands q) :
    (point.step q).1.Holds
      (fun point' => point'.Stands q ∧ ∀ p < n, point.Beyond p → point'.Beyond p)
      (fun x => (Cursor.ofExtent x).Within q ∧
        ∀ p < n, point.Beyond p → (Cursor.ofExtent x).Beyond p) := by
  cases point with
  | loadingHead => exact ⟨Nat.le_refl _, fun _ _ _ => trivial⟩
  | loadingTail head => exact ⟨stands, fun _ _ _ => trivial⟩
  | readingLow head tail =>
    exact ⟨⟨stands, Segment.low_le_size _⟩, fun p claimed _ left => h.beyond stands claimed left⟩
  | readingStop head tail low =>
    exact ⟨⟨stands.1, stands.2, Segment.stop_le_size _⟩, fun _ _ beyond => beyond⟩
  | checkingHead x =>
    rw [Surveying.step]
    split
    · next same =>
      refine ⟨stands, fun p claimed beyond => ?_⟩
      by_cases left : x.low < Segment.size
      · exact beyond left
      · -- no slot behind the segment at the head is claimed
        have le_head := h.le_head
        change p < Segment.size * x.head + x.low
        rw [same]
        omega
    · exact ⟨trivial, fun _ _ _ => trivial⟩
  | checkingTail x | checkingLow x =>
    rw [Surveying.step]
    split
    · exact ⟨stands, fun _ _ beyond => beyond⟩
    · exact ⟨trivial, fun _ _ _ => trivial⟩
  | checkingStop x =>
    rw [Surveying.step]
    split
    · refine ⟨⟨?_, stands.2.1, stands.2.2⟩, fun p _ beyond => ?_⟩
      · rintro g ⟨⟩
        exact Nat.lt_of_le_of_lt stands.1 h.head_lt
      · rintro g ⟨⟩
        exact beyond
    · exact ⟨trivial, fun _ _ _ => trivial⟩

/-! ## Cursors -/

def Iterating.Stands (q : Queue α) : Iterating α → Prop
  | scanning c => c.Within q
  | looking c g i point => c.Within q ∧ c.segment = some g ∧ c.slot = i + 1 ∧ point.Stands q g i
  | hopping c g => c.Within q ∧ c.segment = some g

/-- The thread will not look at slot `p`. -/
def Iterating.Beyond (p : Nat) : Iterating α → Prop
  | scanning c | hopping c _ => c.Beyond p
  | looking _ g i _ => p < Segment.size * g + i

theorem Iterating.stands_step {point : Iterating α} (h : Built q r n) (stands : point.Stands q)
    (there : ∀ c g i, point = .looking c g i (.reading .looking) → (q.cell g i).value ≠ none) :
    (point.step q).1.Holds
      (fun point' => point'.Stands q ∧ ∀ p < n, point.Beyond p → point'.Beyond p)
      (fun x => x.2.Within q ∧ ∀ p < n, point.Beyond p → x.2.Beyond p) := by
  cases point with
  | scanning c =>
    obtain ⟨segment_lt, slot_le, stop_le⟩ := stands
    cases segment : c.segment with
    | none =>
      simp only [Iterating.step, segment]
      exact ⟨⟨segment_lt, slot_le, stop_le⟩, fun _ _ beyond => beyond⟩
    | some g =>
      have hg := segment_lt g segment
      simp only [Iterating.step, segment]
      split
      · next left =>
        have last_le : c.last g ≤ Segment.size := by
          rw [Cursor.last]
          split
          · exact stop_le
          · exact le_rfl
        have inside := left.trans_le last_le
        refine ⟨⟨⟨?_, inside, stop_le⟩, rfl, rfl, hg, inside, trivial⟩,
          fun p _ beyond => beyond g segment⟩
        rintro _ ⟨⟩
        exact hg
      · split
        · refine ⟨⟨?_, slot_le, stop_le⟩, fun _ _ _ => ?_⟩ <;> rintro _ ⟨⟩
        · exact ⟨⟨⟨segment_lt, slot_le, stop_le⟩, segment⟩, fun _ _ beyond => beyond⟩
  | looking c g i point =>
    obtain ⟨cursor, segment, slot, here⟩ := stands
    -- the cursor stands behind the slot that is looked at
    have passed (p : Nat) (beyond : p < Segment.size * g + i) : c.Beyond p := by
      intro g' at_
      obtain rfl := Option.some.inj (segment.symm.trans at_)
      omega
    refine (Looking.stands_step here fun looks => there c g i (by rw [looks])).lift
      (fun point' here' => ⟨⟨cursor, segment, slot, here'⟩, fun _ _ beyond => beyond⟩)
      fun seen _ => ?_
    cases seen <;> exact ⟨cursor, fun p _ => passed p⟩
  | hopping c g =>
    obtain ⟨⟨segment_lt, slot_le, stop_le⟩, segment⟩ := stands
    have next := (h.fits g (segment_lt g segment)).next
    by_cases behind : g + 1 < q.segments.size
    · rw [if_pos behind] at next
      simp only [Iterating.step, next]
      refine ⟨⟨?_, Nat.zero_le _, stop_le⟩, fun p _ beyond => ?_⟩
      · rintro _ ⟨⟩
        exact behind
      · rintro _ ⟨⟩
        have before := beyond g segment
        simp only [Segment.size] at before slot_le ⊢
        omega
    · rw [if_neg behind] at next
      simp only [Iterating.step, next]
      refine ⟨⟨?_, Nat.zero_le _, stop_le⟩, fun _ _ _ => ?_⟩ <;> rintro _ ⟨⟩

/-! ## Threads -/

/-- A taker that waits for readers has set its flag. -/
def Removing.Stands (q : Queue α) (g : Nat) : Removing → Prop
  | taking i .waiting => (q.place (Segment.size * g + i)).slot.isTaken = true
  | _ => True

/-- What a thread can be sure of, apart from what belongs to it. -/
def Point.Stands (q : Queue α) : Point α → Prop
  | dequeuing (.removing g point) => point.Stands q g
  | peeking point => point.Stands q
  | surveying point | opening point => point.Stands q
  | iterating point => point.Stands q
  | _ => True

/-- If the thread is within a snapshot, it will not look at slot `p`. -/
def Point.Beyond (p : Nat) : Point α → Prop
  | peeking point => point.Beyond p
  | opening point => point.Beyond p
  | iterating point => point.Beyond p
  | _ => True

/-- The slot that a thread looks into, by segment, and where it stands there. -/
def Point.look? : Point α → Option (Nat × Nat × Looking α)
  | peeking (.looking g i look) | iterating (.looking _ g i look) => some (g, i, look)
  | _ => none

/-- The cursor that an operation leaves to its thread. -/
def Outcome.cursor? : Outcome α → Option Cursor
  | opened c | visited _ c => some c
  | _ => none

section

variable (grows : Grows q l q' l')

include grows

theorem Cursor.Within.mono {c : Cursor} (h : c.Within q) : c.Within q' :=
  ⟨fun g hg => (h.segment_lt g hg).trans_le grows.size_le, h.slot_le, h.stop_le⟩

theorem Extent.Stands.mono {x : Extent} (h : x.Stands q) : x.Stands q' :=
  ⟨h.1.trans grows.head_le, h.2⟩

theorem Peeking.Stands.mono {point : Peeking α} (h : point.Stands q) : point.Stands q' := by
  cases point with
  | readingLow | readingStop => exact Nat.le_trans h grows.head_le
  | looking => exact Looking.Stands.mono h grows
  | _ => trivial

theorem Surveying.Stands.mono {point : Surveying} (h : point.Stands q) : point.Stands q' := by
  cases point with
  | loadingHead => trivial
  | loadingTail | readingLow => exact Nat.le_trans h grows.head_le
  | readingStop => exact ⟨h.1.trans grows.head_le, h.2⟩
  | checkingHead | checkingTail | checkingLow | checkingStop => exact Extent.Stands.mono grows h

theorem Iterating.Stands.mono {point : Iterating α} (h : point.Stands q) : point.Stands q' := by
  cases point with
  | scanning => exact Cursor.Within.mono grows h
  | looking => exact ⟨h.1.mono grows, h.2.1, h.2.2.1, h.2.2.2.mono grows⟩
  | hopping => exact ⟨h.1.mono grows, h.2⟩

theorem Removing.Stands.mono {point : Removing} (h : point.Stands q g) : point.Stands q' g := by
  cases point with
  | taking i point =>
    cases point with
    | marking => trivial
    | waiting => exact grows.taken _ h
  | _ => trivial

theorem Point.Stands.mono {point : Point α} (h : point.Stands q) : point.Stands q' := by
  cases point with
  | dequeuing point =>
    cases point with
    | removing => exact Removing.Stands.mono grows h
    | _ => trivial
  | peeking => exact Peeking.Stands.mono grows h
  | surveying | opening => exact Surveying.Stands.mono grows h
  | iterating => exact Iterating.Stands.mono grows h
  | _ => trivial

end

/-- Where a thread at a point can be after a step. -/
inductive Point.Next (q : Queue α) : Point α → Point α → Prop where
  | enqueuing (v : α) (x x' : Enqueuing) : Next q (.enqueuing v x) (.enqueuing v x')
  | dequeuing {x x' : Dequeuing α} (step : (x.step q).1.point? = some x') :
      Next q (.dequeuing x) (.dequeuing x')
  | peeking {x x' : Peeking α} (step : (x.step q).1.point? = some x') :
      Next q (.peeking x) (.peeking x')
  | probing (x x' : Probing) : Next q (.probing x) (.probing x')
  | surveying (x x' : Surveying) : Next q (.surveying x) (.surveying x')
  | raising : Next q .raising (.opening .loadingHead)
  | opening (x x' : Surveying) : Next q (.opening x) (.opening x')
  | iterating {x x' : Iterating α} (step : (x.step q).1.point? = some x') :
      Next q (.iterating x) (.iterating x')

theorem Point.next {point point' : Point α} (step : (point.step q).1.point? = some point') :
    Next q point point' := by
  cases point with
  | enqueuing v x =>
    obtain ⟨x', -, rfl⟩ := Progress.lift_eq_next step
    exact .enqueuing v x x'
  | dequeuing x =>
    obtain ⟨x', inner, rfl⟩ := Progress.lift_eq_next step
    exact .dequeuing inner
  | peeking x =>
    obtain ⟨x', inner, rfl⟩ := Progress.lift_eq_next step
    exact .peeking inner
  | probing x =>
    obtain ⟨x', -, rfl⟩ := Progress.lift_eq_next step
    exact .probing x x'
  | surveying x =>
    obtain ⟨x', -, rfl⟩ := Progress.lift_eq_next step
    exact .surveying x x'
  | raising =>
    obtain ⟨⟩ := step
    exact .raising
  | opening x =>
    obtain ⟨x', -, rfl⟩ := Progress.lift_eq_next step
    exact .opening x x'
  | iterating x =>
    obtain ⟨x', inner, rfl⟩ := Progress.lift_eq_next step
    exact .iterating inner
  | closing => cases step

/-! ### Takers -/

/-- A taker moves a value out only if it has seen that there is no snapshot or no reader. -/
theorem Removing.moving_step {point : Removing}
    (step : (point.step g q).1.point? = some (.moving i)) :
    point = .asking i ∧ q.takers = 0 ∨
      ∃ phase, point = .taking i phase ∧ (q.cell g i).slot.isRead = false := by
  cases point with
  | asking i' =>
    simp only [Removing.step] at step
    split at step
    · next none =>
      obtain ⟨⟩ := step
      exact .inl ⟨rfl, none⟩
    · cases step
  | taking i' phase =>
    cases read : (q.cell g i').slot.isRead
    · cases phase <;> simp only [Removing.step, stepSlot, Slot.Taking.step, read] at step <;>
        obtain ⟨⟩ := step <;> exact .inr ⟨_, rfl, read⟩
    · cases phase <;> simp only [Removing.step, stepSlot, Slot.Taking.step, read] at step <;>
        cases step
  | readingLow => cases step
  | moving | claiming | readingStop | awaiting =>
    simp only [Removing.step] at step
    split at step <;> cases step

/-- A taker waits for the readers of a slot after it has set its flag there. -/
theorem Removing.waiting_step {point : Removing}
    (step : (point.step g q).1.point? = some (.taking i .waiting)) :
    ∃ phase, point = .taking i phase := by
  cases point with
  | taking i' phase =>
    refine ⟨phase, ?_⟩
    cases read : (q.cell g i').slot.isRead <;> cases phase <;>
      simp only [Removing.step, stepSlot, Slot.Taking.step, read] at step <;>
      obtain ⟨⟩ := step <;> rfl
  | readingLow => cases step
  | asking | moving | claiming | readingStop | awaiting =>
    simp only [Removing.step] at step
    split at step <;> cases step

/-- Where a taker was before. -/
theorem Point.removing_step {point : Point α} {x : Removing}
    (step : (point.step q).1.point? = some (.dequeuing (.removing g x))) :
    x = .readingLow ∨
      ∃ y, point = .dequeuing (.removing g y) ∧ (y.step g q).1.point? = some x := by
  cases Point.next step with
  | @dequeuing point _ inner =>
    cases point with
    | loadingHead =>
      obtain ⟨⟩ := inner
      exact .inl rfl
    | removing g' y =>
      rcases eq : y.step g' q with ⟨progress, q'⟩
      simp only [Dequeuing.step, eq] at inner
      cases progress with
      | next y' =>
        obtain ⟨⟩ := inner
        exact .inr ⟨y, rfl, by rw [eq]; rfl⟩
      | done x => rcases x with _ | ⟨v, _ | _⟩ <;> cases inner
      | fail => cases inner
    | checkingNext | awaitingNext | awaitingTail =>
      simp only [Dequeuing.step] at inner
      split at inner <;> cases inner
    | advancing => cases inner

theorem Change.taken {signal : Signal} (h : Laid q l) (change : Change t q l signal q' l')
    (mark : signal = .mark g i) : (q'.place (Segment.size * g + i)).slot.isTaken = true := by
  cases change with
  | mark mine =>
    obtain ⟨⟩ := mark
    obtain ⟨u, v, put⟩ := h.reserved_of_claimed mine.mine
    rw [h.place_modifyCell mine.slot_lt put, if_pos rfl]
    exact Slot.isTaken_markTaken _
  | _ => cases mark

/-- A taker has set its flag by its first step on the slot. -/
theorem Laid.taken_step (h : Laid q (ledger past)) {phase : Slot.Taking}
    (at_ : At q past t (some (.dequeuing (.removing g (.taking i phase)))))
    (stands : Point.Stands q (.dequeuing (.removing g (.taking i phase)) : Point α)) :
    (((Point.dequeuing (.removing g (.taking i phase))).step q).2.place
      (Segment.size * g + i)).slot.isTaken = true := by
  have change := (h.stepped at_).change
  cases phase with
  | marking => exact change.taken h rfl
  | waiting => exact (change.grows h).taken _ stands

/-! ### Steps -/

theorem Laid.stands_dequeuing (h : Laid q (ledger past)) {point x : Dequeuing α}
    (at_ : At q past t (some (.dequeuing point))) (stands : Point.Stands q (.dequeuing point))
    (step : ((Point.dequeuing point).step q).1.point? = some (.dequeuing x)) :
    Point.Stands ((Point.dequeuing point).step q).2 (.dequeuing x) := by
  cases x with
  | removing g x =>
    rcases Point.removing_step step with rfl | ⟨y, ⟨⟩, inner⟩
    · trivial
    · cases x with
      | taking i phase =>
        cases phase with
        | marking => trivial
        | waiting =>
          obtain ⟨phase, rfl⟩ := Removing.waiting_step inner
          exact h.taken_step at_ stands
      | _ => trivial
  | _ => trivial

theorem Probing.holds_step (point : Probing) :
    (point.step q).1.Holds (fun _ => True) fun _ => True := by
  cases point with
  | readingStop | checkingNext =>
    rw [Probing.step]
    split <;> trivial
  | _ => trivial

/-- A thread that looks where there is a value does not fail, it can be sure of as much after its
step, and it does not come back to slots that it has passed. -/
theorem Laid.stands_step (h : Laid q (ledger past)) {point : Point α}
    (at_ : At q past t (some point)) (stands : point.Stands q)
    (there : ∀ g i, point.look? = some (g, i, .reading .looking) → (q.cell g i).value ≠ none) :
    (point.step q).1.Holds
      (fun point' => point'.Stands (point.step q).2 ∧
        ∀ p < (ledger past).claims.length, point.Beyond p → point'.Beyond p)
      (fun outcome => ∀ c ∈ outcome.cursor?, c.Within (point.step q).2 ∧
        ∀ p < (ledger past).claims.length, point.Beyond p → c.Beyond p) := by
  obtain ⟨change, right, -⟩ := h.stepped at_
  have grows := change.grows h
  cases point with
  | enqueuing v point =>
    rcases eq : point.step v q with ⟨progress, q'⟩
    simp only [Point.deed, Point.step, eq] at right ⊢
    cases progress with
    | next => exact ⟨trivial, fun _ _ _ => trivial⟩
    | done => rintro _ ⟨⟩
    | fail f => exact right (.failed f) (by simp [Point.deedOf])
  | dequeuing point =>
    have stands' := fun x => h.stands_dequeuing (x := x) at_ stands
    rcases eq : point.step q with ⟨progress, q'⟩
    simp only [Point.deed, Point.step, eq] at right stands' ⊢
    cases progress with
    | next x => exact ⟨stands' x rfl, fun _ _ _ => trivial⟩
    | done => rintro _ ⟨⟩
    | fail f => exact right (.failed f) (by simp [Point.deedOf])
  | peeking point =>
    refine (Peeking.stands_step h.toBuilt stands fun g i here => there g i (by rw [here]; rfl)).lift
      (fun point' here => ⟨here.1.mono grows, here.2⟩) fun _ _ => ?_
    rintro _ ⟨⟩
  | probing point =>
    refine point.holds_step.lift (fun _ _ => ⟨trivial, fun _ _ _ => trivial⟩) fun _ _ => ?_
    rintro _ ⟨⟩
  | surveying point =>
    refine (Surveying.stands_step h.toBuilt stands).lift
      (fun point' here => ⟨here.1.mono grows, fun _ _ _ => trivial⟩) fun _ _ => ?_
    rintro _ ⟨⟩
  | raising => exact ⟨trivial, fun _ _ _ => trivial⟩
  | opening point =>
    refine (Surveying.stands_step h.toBuilt stands).lift
      (fun point' here => ⟨here.1.mono grows, here.2⟩) fun x here => ?_
    rintro _ ⟨⟩
    exact ⟨here.1.mono grows, here.2⟩
  | iterating point =>
    refine (Iterating.stands_step h.toBuilt stands fun c g i here =>
      there g i (by rw [here]; rfl)).lift
      (fun point' here => ⟨here.1.mono grows, here.2⟩) fun x here => ?_
    rintro _ ⟨⟩
    exact ⟨here.1.mono grows, here.2⟩
  | closing => rintro _ ⟨⟩

end SharedCollections.Queue

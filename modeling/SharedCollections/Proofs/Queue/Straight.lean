import SharedCollections.Proofs.Queue.Built
import SharedCollections.Proofs.Queue.Run
import SharedCollections.Proofs.Straight
/-!
# Operations on a queue that run straight

On a queue with one user every slot between the ends is written and not taken, the tail has room,
and the head has a slot left unless it is the tail. So a writer finds room at once, a taker gets the
first slot that it sees and finds its value there, and a survey reads the same in both passes
(`Unhindered`). The cursors that are open meet written slots only, whatever was taken meanwhile.
-/

namespace SharedCollections.Queue

variable {α : Type} {q : Queue α} {g i : Nat} {v : α}

/-! ## Steps back -/

/-- A writer starts over. -/
def Enqueuing.back : Enqueuing → Enqueuing → Bool
  | _, loadingTail => true
  | _, _ => false

/-- A taker reads the cursors of its segment again, or waits for a writer or for readers. -/
def Removing.back : Removing → Removing → Bool
  | _, readingLow | awaiting _, awaiting _ | _, taking _ .waiting => true
  | _, _ => false

/-- A taker starts over, or waits for the tail to leave its segment. -/
def Dequeuing.back : Dequeuing α → Dequeuing α → Bool
  | removing _ p, removing _ p' => p.back p'
  | _, loadingHead | awaitingNext .., awaitingNext .. | awaitingTail .., awaitingNext .. => true
  | _, _ => false

/-- A reader waits for a writer. -/
def Looking.back : Looking α → Looking α → Bool
  | awaiting, awaiting => true
  | _, _ => false

/-- A thread that looks at the head starts over. -/
def Peeking.back : Peeking α → Peeking α → Bool
  | raising, _ => false
  | looking _ _ p, looking _ _ p' => p.back p'
  | _, loadingHead => true
  | _, _ => false

/-- A thread that asks for emptiness starts over. -/
def Probing.back : Probing → Probing → Bool
  | _, loadingHead => true
  | _, _ => false

/-- The passes of a survey disagree. -/
def Surveying.back : Surveying → Surveying → Bool
  | _, loadingHead => true
  | _, _ => false

/-- A cursor waits for a writer. It goes from slot to slot in a loop that ends with its extent. -/
def Iterating.back : Iterating α → Iterating α → Bool
  | looking _ _ _ p, looking _ _ _ p' => p.back p'
  | _, _ => false

/-! ## Writers -/

theorem straight_enqueue (room : (q.segment q.tail).reserved < Segment.size) (v : α) :
    Straight (Enqueuing.step v) Enqueuing.back .loadingTail q := by
  have check : Enqueuing.step v (.checking q.tail) q = (.next (.reserving q.tail), q) := by
    simp [Enqueuing.step, Segment.isFull, room]
  have reserve : Enqueuing.step v (.reserving q.tail) q =
      (.next (.writing q.tail (q.segment q.tail).reserved),
        q.modifySegment q.tail Segment.reserve) := by
    simp [Enqueuing.step, room]
  have link (q' : Queue α) : Straight (Enqueuing.step v) Enqueuing.back (.linking q.tail) q' := by
    refine .next rfl rfl (.next rfl rfl ?_)
    exact .done rfl
  refine .next rfl rfl (.next check rfl (.next reserve rfl (.next rfl rfl ?_)))
  by_cases last : (q.segment q.tail).reserved + 1 = Segment.size
  · refine .next (by rw [Enqueuing.step, if_pos last]) rfl ?_
    exact link _
  · exact .done (by rw [Enqueuing.step, if_neg last])

/-! ## Takers -/

/-- Segment `g` has a successor, and the tail has left it. -/
def Left (g : Nat) (q : Queue α) : Prop := (q.segment g).next.isSome ∧ q.tail ≠ g

/-- The value of a slot is there and nobody looks at it. -/
def Ready (g i : Nat) (q : Queue α) : Prop :=
  (q.cell g i).slot.isWritten = true ∧ (q.cell g i).slot.isRead = false

/-- The first slot of a segment that is left can be taken at once, and if it is the last one the
head can move on at once; and the queue ends with the segment if no slot is left. -/
structure Open (g : Nat) (q : Queue α) : Prop where
  claimed : (q.segment g).claimed = (q.segment g).low
  value : (q.segment g).low < (q.segment g).stop →
    ∃ v, q.cell g (q.segment g).low = ⟨some v, .written⟩
  last : (q.segment g).low < (q.segment g).stop → (q.segment g).low + 1 = Segment.size →
    Left g q
  drained : (q.segment g).stop ≤ (q.segment g).low → (q.segment g).next = none

theorem Open.ready (h : Open g q) (more : (q.segment g).low < (q.segment g).stop) :
    Ready g (q.segment g).low q := by
  obtain ⟨v, cell⟩ := h.value more
  rw [Ready, cell]
  exact ⟨Slot.isWritten_written, Slot.isRead_written⟩

/-- What a taker relies on where it stands. -/
def Dequeuing.Clear : Dequeuing α → Queue α → Prop
  | loadingHead, q => Open q.head q
  | removing g .readingLow, q => Open g q
  | removing g (.readingStop low), q => Open g q ∧ low = (q.segment g).low
  | removing g (.claiming low), q =>
    (q.segment g).claimed = low ∧ Ready g low q ∧ (low + 1 = Segment.size → Left g q)
  | removing g (.awaiting i), q => Ready g i q ∧ (i + 1 = Segment.size → Left g q)
  | removing g (.asking i), q | removing g (.taking i .marking), q =>
    (q.cell g i).slot.isRead = false ∧ (i + 1 = Segment.size → Left g q)
  | removing g (.moving i), q => i + 1 = Segment.size → Left g q
  | removing _ (.taking _ .waiting), _ => False
  | checkingNext g, q => (q.segment g).next = none
  | awaitingNext g _, q => Left g q
  | awaitingTail g .., q => q.tail ≠ g
  | advancing .., _ => True

theorem Left.modifySegment (h : Left g q) (f : Segment α → Segment α) (g' : Nat)
    (link : ∀ s, (f s).next = s.next) : Left g (q.modifySegment g' f) := by
  refine ⟨?_, h.2⟩
  rcases segment_modifySegment_cases (q := q) g' f g with same | changed
  · rw [same]
    exact h.1
  · rw [changed, link]
    exact h.1

theorem Left.modifyCell (h : Left g q) (f : Cell α → Cell α) : Left g (q.modifyCell g i f) :=
  h.modifySegment _ g fun _ => rfl

theorem Ready.modifySegment (h : Ready g i q) (f : Segment α → Segment α) (g' : Nat)
    (cells : ∀ s, (f s).cells = s.cells) : Ready g i (q.modifySegment g' f) := by
  have same : (q.modifySegment g' f).cell g i = q.cell g i := by
    rw [cell, cell]
    rcases segment_modifySegment_cases (q := q) g' f g with same | changed
    · rw [same]
    · rw [changed, Segment.cell, cells]
      rfl
  rwa [Ready, same]

theorem Dequeuing.Clear.step {p p' : Dequeuing α} {q' : Queue α} (h : p.Clear q)
    (step : p.step q = (.next p', q')) : p.back p' = false ∧ p'.Clear q' := by
  cases p with
  | loadingHead =>
    cases step
    exact ⟨rfl, h⟩
  | checkingNext g =>
    simp only [Dequeuing.step, show (q.segment g).next = none from h] at step
    cases step
  | awaitingNext g v =>
    obtain ⟨next, linked⟩ := Option.isSome_iff_exists.mp h.1
    simp only [Dequeuing.step, linked] at step
    cases step
    exact ⟨rfl, h.2⟩
  | awaitingTail g next v =>
    simp only [Dequeuing.step, if_neg (show q.tail ≠ g from h)] at step
    cases step
    exact ⟨rfl, trivial⟩
  | advancing next v => cases step
  | removing g p =>
    cases p with
    | readingLow =>
      cases step
      exact ⟨rfl, h, rfl⟩
    | readingStop low =>
      obtain ⟨free, rfl⟩ := h
      by_cases more : (q.segment g).low < (q.segment g).stop
      · simp only [Dequeuing.step, Removing.step, if_pos more] at step
        cases step
        exact ⟨rfl, free.claimed, free.ready more, free.last more⟩
      · simp only [Dequeuing.step, Removing.step, if_neg more] at step
        cases step
        exact ⟨rfl, free.drained (Nat.not_lt.mp more)⟩
    | claiming low =>
      obtain ⟨claimed, ready, last⟩ := h
      simp only [Dequeuing.step, Removing.step, if_pos claimed] at step
      cases step
      refine ⟨rfl, ready.modifySegment _ g fun _ => rfl, fun full => ?_⟩
      exact (last full).modifySegment _ g fun _ => rfl
    | awaiting i =>
      obtain ⟨⟨written, unread⟩, last⟩ := h
      simp only [Dequeuing.step, Removing.step, if_pos written] at step
      cases step
      exact ⟨rfl, unread, last⟩
    | asking i =>
      by_cases quiet : q.takers = 0
      · simp only [Dequeuing.step, Removing.step, if_pos quiet] at step
        cases step
        exact ⟨rfl, h.2⟩
      · simp only [Dequeuing.step, Removing.step, if_neg quiet] at step
        cases step
        exact ⟨rfl, h⟩
    | taking i point =>
      cases point with
      | waiting => cases h
      | marking =>
        obtain ⟨unread, last⟩ := h
        simp only [Dequeuing.step, Removing.step, stepSlot, Slot.Taking.step, unread] at step
        cases step
        exact ⟨rfl, fun full => (last full).modifyCell _⟩
    | moving i =>
      cases value : (q.cell g i).value with
      | none =>
        simp only [Dequeuing.step, Removing.step, value] at step
        cases step
      | some v =>
        by_cases full : i + 1 = Segment.size
        · simp only [Dequeuing.step, Removing.step, value, decide_eq_true full] at step
          cases step
          exact ⟨rfl, (h full).modifyCell _⟩
        · simp only [Dequeuing.step, Removing.step, value, decide_eq_false full] at step
          cases step

/-! ## Readers -/

/-- A value that is there is seen. -/
theorem straight_looking (cell : q.cell g i = ⟨some v, .written⟩)
    (hg : g < q.segments.size) (hi : i < (q.segment g).cells.size) :
    Straight Peeking.step Peeking.back (.looking g i .awaiting) q := by
  have ready : Peeking.step (.looking g i .awaiting) q =
      (.next (.looking g i (.reading .arriving)), q) := by
    simp [Peeking.step, Looking.step, cell, Slot.isWritten_written]
  have arrive : Peeking.step (.looking g i (.reading .arriving)) q =
      (.next (.looking g i (.reading .looking)), q.arrive g i) := by
    simp [Peeking.step, Looking.step, stepSlot, Slot.Reading.step, Queue.arrive, cell,
      Slot.isTaken_written]
  have look : (Peeking.step (.looking g i (.reading .looking)) (q.arrive g i)).1 =
      .next (.looking g i (.reading (.leaving (.ok (some v))))) := by
    simp [Peeking.step, Looking.step, stepSlot, Slot.Reading.step, content, cell_arrive hg hi, cell,
      Except.map]
  refine .next ready rfl (.next arrive rfl (.next (Prod.ext look rfl) rfl (.next rfl rfl ?_)))
  exact .done rfl

theorem straight_peek (h : Open q.head q) (hg : q.head < q.segments.size)
    (hi : (q.segment q.head).low < (q.segment q.head).cells.size) :
    Straight Peeking.step Peeking.back .raising q := by
  let q₁ : Queue α := { q with takers := q.takers + 1 }
  refine .next rfl rfl (.next rfl rfl (.next rfl rfl ?_))
  change Straight Peeking.step Peeking.back (.readingStop q.head (q.segment q.head).low) q₁
  by_cases more : (q₁.segment q.head).low < (q₁.segment q.head).stop
  · obtain ⟨v, cell⟩ := h.value more
    refine .next (by rw [Peeking.step, if_pos (by exact more)]) rfl ?_
    exact straight_looking (q := q₁) cell hg hi
  · have drained : (q₁.segment q.head).next = none := h.drained (Nat.not_lt.mp more)
    refine .next (by rw [Peeking.step, if_neg (by exact more)]) rfl ?_
    refine .next (by rw [Peeking.step, drained]) rfl ?_
    exact .done rfl

theorem straight_isEmpty (h : Open q.head q) :
    Straight Probing.step Probing.back .loadingHead q := by
  refine .next rfl rfl (.next rfl rfl ?_)
  by_cases more : (q.segment q.head).low < (q.segment q.head).stop
  · exact .done (by rw [Probing.step, if_pos more])
  · have drained := h.drained (Nat.not_lt.mp more)
    refine .next (by rw [Probing.step, if_neg more]) rfl ?_
    exact .done (by rw [Probing.step, drained]; rfl)

theorem straight_survey (ordered : (q.segment q.head).index ≤ (q.segment q.tail).index) :
    Straight Surveying.step Surveying.back .loadingHead q := by
  refine .next rfl rfl (.next rfl rfl (.next rfl rfl (.next rfl rfl ?_)))
  refine .next (if_pos rfl) rfl (.next (if_pos rfl) rfl (.next (if_pos rfl) rfl ?_))
  exact .done (if_pos ⟨rfl, ordered⟩)

/-! ## Cursors -/

/-- The slots that cursor `c` may come to are written, and its segments are linked. -/
structure Cursor.Clear (c : Cursor) (q : Queue α) : Prop where
  stop_le : c.stop ≤ Segment.size
  written : ∀ g ≤ c.tail, ∀ i < c.last g, (q.cell g i).slot.isWritten = true
  linked : ∀ g < c.tail, (q.segment g).next = some (g + 1)
  segment_le : ∀ g ∈ c.segment, g ≤ c.tail

/-- What a cursor that looks for its next value relies on where it stands. -/
def Iterating.Clear : Iterating α → Queue α → Prop
  | scanning c, q => c.Clear q
  | looking c g i .awaiting, q => c.Clear q ∧ (q.cell g i).slot.isWritten = true
  | looking c _ _ (.reading _), q => c.Clear q
  | hopping c g, q => c.Clear q ∧ g < c.tail

theorem Cursor.Clear.last_le {c : Cursor} (h : c.Clear q) (g : Nat) : c.last g ≤ Segment.size := by
  rw [Cursor.last]
  split
  · exact h.stop_le
  · exact Nat.le_refl _

/-- Readers that come and go hide no value from a cursor. -/
theorem Cursor.Clear.modifyCell {c : Cursor} (h : c.Clear q) {f : Cell α → Cell α}
    (kept : ∀ x, (f x).slot.isWritten = x.slot.isWritten) : c.Clear (q.modifyCell g i f) where
  stop_le := h.stop_le
  written g' hg' i' hi' := by
    have inside : i' < Segment.size := Nat.lt_of_lt_of_le hi' (h.last_le g')
    have here := h.written g' hg' i' hi'
    rw [cell_eq_place inside] at here ⊢
    rcases place_modifyCell_cases (q := q) g i f (Segment.size * g' + i') with same | changed
    · rwa [same]
    · rwa [changed, kept]
  linked g' hg' := by
    have next := h.linked g' hg'
    rcases segment_modifySegment_cases (q := q) g (·.modifyCell i f) g' with same | changed
    · rwa [Queue.modifyCell, same]
    · rwa [Queue.modifyCell, changed]
  segment_le := h.segment_le

/-- A reader that has found its slot written comes to it, looks at it, or leaves it. -/
theorem Looking.exists_step_eq (point : Slot.Reading α) : ∃ f : Cell α → Cell α,
    (∀ x, (f x).slot.isWritten = x.slot.isWritten) ∧
      (Looking.step g i (.reading point) q).2 = q.modifyCell g i f := by
  cases point with
  | arriving =>
    exact ⟨fun x => { x with slot := x.slot.arrive }, fun x => x.slot.isWritten_arrive,
      modifyCell_congr rfl⟩
  | looking => exact ⟨id, fun _ => rfl, modifyCell_congr rfl⟩
  | leaving seen =>
    refine ⟨fun x => { x with slot := x.slot.leave }, fun x => x.slot.isWritten_leave, ?_⟩
    cases seen <;> exact modifyCell_congr rfl

theorem Looking.eq_reading {point : Slot.Reading α} {p : Looking α} {q' : Queue α}
    (step : Looking.step g i (.reading point) q = (.next p, q')) : ∃ after, p = .reading after := by
  simp only [Looking.step] at step
  generalize stepSlot g i (point.step (q.content g i)) q = x at step
  obtain ⟨_ | _ | _, u⟩ := x <;> cases step
  exact ⟨_, rfl⟩

theorem Iterating.Clear.step {p p' : Iterating α} {q' : Queue α} (h : p.Clear q)
    (step : p.step q = (.next p', q')) : p.back p' = false ∧ p'.Clear q' := by
  cases p with
  | scanning c =>
    cases segment : c.segment with
    | none =>
      simp only [Iterating.step, segment] at step
      cases step
    | some g =>
      have inside := h.segment_le g segment
      by_cases more : c.slot < c.last g
      · rw [step_scanning_of_lt segment more] at step
        cases step
        exact ⟨rfl, ⟨h.stop_le, h.written, h.linked, h.segment_le⟩, h.written g inside _ more⟩
      · by_cases tail : g = c.tail
        · rw [step_scanning_of_tail segment more tail] at step
          cases step
        · rw [step_scanning_of_ne segment more tail] at step
          cases step
          exact ⟨rfl, h, Nat.lt_of_le_of_ne inside tail⟩
  | looking c g i point =>
    cases point with
    | awaiting =>
      simp only [Iterating.step, Looking.step, if_pos h.2] at step
      cases step
      exact ⟨rfl, h.1⟩
    | reading point =>
      obtain ⟨f, kept, eq⟩ := Looking.exists_step_eq (q := q) (g := g) (i := i) point
      have clear := Cursor.Clear.modifyCell (g := g) (i := i) (c := c) h kept
      rw [← eq] at clear
      simp only [Iterating.step] at step
      rcases seen : Looking.step g i (.reading point) q with ⟨_ | (_ | v) | _, u⟩
      all_goals simp only [seen] at step clear
      all_goals cases step
      · obtain ⟨after, rfl⟩ := Looking.eq_reading seen
        exact ⟨rfl, clear⟩
      · exact ⟨rfl, clear⟩
  | hopping c g =>
    obtain ⟨clear, before⟩ := h
    cases step
    refine ⟨rfl, clear.stop_le, clear.written, clear.linked, fun g' hg' => ?_⟩
    rw [clear.linked g before] at hg'
    cases hg'
    exact before

/-! ## Queues with one user -/

namespace Account

variable {r : Account α}

theorem open_head : Open r.layout.head r.layout := by
  have claimed : (r.layout.segment r.layout.head).claimed = r.taken % Segment.size := by
    rw [segment_layout_head, claimed_head]
  constructor
  case claimed => rw [claimed, low_head]
  case value =>
    intro more
    obtain ⟨v, front⟩ := exists_front (low_lt_stop_iff.mp more)
    rw [low_head]
    exact ⟨v, cell_head front⟩
  case last =>
    intro more full
    have left := low_lt_stop_iff.mp more
    rw [low_head] at full
    have before : r.taken / Segment.size < r.total / Segment.size := by
      simp only [Segment.size] at full ⊢
      omega
    refine ⟨?_, Nat.ne_of_gt before⟩
    rw [segment_layout_head, next_segment, if_pos before]
    rfl
  case drained =>
    intro drained
    have taken := r.taken_le_total
    refine next_head (Nat.le_antisymm taken (Nat.not_lt.mp fun left => ?_))
    exact Nat.not_le.mpr (low_lt_stop_iff.mpr left) drained

theorem isWritten_cell {p : Nat} (inside : p < r.total) : (r.cell p).slot.isWritten = true := by
  have value : r.values[p]? = some r.values[p] := List.getElem?_eq_getElem inside
  rw [cell, value]
  rcases r.marks[p]? with _ | _ | _
  · exact Slot.isWritten_written
  · exact Slot.isWritten_written
  · exact (Slot.isWritten_markTaken _).trans Slot.isWritten_written

theorem clear_of_stands {c : Cursor} {p e : Nat} (stands : c.Stands g p e) (hp : p ≤ e)
    (he : e ≤ r.total) : c.Clear r.layout := by
  have ends := Nat.div_add_mod e Segment.size
  have behind : e / Segment.size ≤ r.total / Segment.size := Nat.div_le_div_right he
  constructor
  case stop_le =>
    rw [stands.stop]
    exact Nat.le_of_lt (Nat.mod_lt _ (by decide))
  case written =>
    intro g' hg' i hi
    rw [Cursor.last, stands.tail, stands.stop] at hi
    rw [stands.tail] at hg'
    have inside : i < Segment.size ∧ Segment.size * g' + i < r.total := by
      split at hi
      · next tail =>
        subst tail
        exact ⟨Nat.lt_trans hi (Nat.mod_lt _ (by decide)), by omega⟩
      · next before =>
        simp only [Segment.size] at hi hg' before ends ⊢
        omega
    rw [cell_place rfl inside.1 inside.2]
    exact isWritten_cell inside.2
  case linked =>
    intro g' hg'
    rw [stands.tail] at hg'
    have before := Nat.lt_of_lt_of_le hg' behind
    rw [segment_layout (Nat.le_of_lt before), next_segment, if_pos before]
  case segment_le =>
    intro g' hg'
    obtain rfl : g = g' := Option.some.inj (stands.segment.symm.trans hg')
    have place := stands.place
    rw [stands.tail]
    simp only [Segment.size] at place ⊢
    omega

theorem Follows.straight {c : Cursor} {w : View} (h : r.Follows c w) :
    Straight Iterating.step Iterating.back (.scanning c) r.layout := by
  rcases h.place with ⟨spent, -⟩ | ⟨g, stands⟩
  · exact .done (by rw [Iterating.step, spent])
  · obtain ⟨c', run, -⟩ := h.run_next?
    exact .of_drive Iterating.Clear.step run (clear_of_stands stands h.position_le h.stop_le)

end Account

/-- Every operation on the queue runs straight, and so does a step of each of the cursors. -/
structure Unhindered (q : Queue α) (cursors : Opened Cursor) : Prop where
  enqueue : ∀ v, Straight (Enqueuing.step v) Enqueuing.back .loadingTail q
  dequeue : Straight Dequeuing.step Dequeuing.back .loadingHead q
  peek : Straight Peeking.step Peeking.back .raising q
  isEmpty : Straight Probing.step Probing.back .loadingHead q
  /-- A survey runs straight, also one that has registered as a snapshot. -/
  survey : ∀ takers, Straight Surveying.step Surveying.back .loadingHead { q with takers }
  next : ∀ i c, cursors.get? i = some c → Straight Iterating.step Iterating.back (.scanning c) q
  /-- Nobody has tried again so far. -/
  quiet : ∀ site, .retried site ∉ q.trace.toList

theorem Shows.unhindered {s : Run α} {r : Account α} {x : Ideal α} (h : Shows s r x) :
    Unhindered s.collection s.cursors := by
  obtain ⟨q, cursors⟩ := s
  obtain rfl : q = r.layout := h.collection
  have head := r.open_head
  constructor
  case enqueue =>
    refine straight_enqueue ?_
    rw [Account.segment_layout_tail, Account.reserved_tail]
    exact Nat.mod_lt _ (by decide)
  case dequeue => exact .of_drive Dequeuing.Clear.step Account.run_dequeue?_layout head
  case peek =>
    refine straight_peek head r.head_lt_size ?_
    rw [Account.low_head]
    exact r.low_lt_size
  case isEmpty => exact straight_isEmpty head
  case survey =>
    intro takers
    refine straight_survey ?_
    change (r.layout.segment r.layout.head).index ≤ (r.layout.segment r.layout.tail).index
    rw [Account.segment_layout_head, Account.segment_layout_tail]
    exact r.head_le_tail
  case next =>
    intro i c cursor
    cases view : x.views.get? i with
    | none =>
      rw [h.cursors.eq_none view] at cursor
      cases cursor
    | some w =>
      obtain ⟨c', cursor', follows⟩ := h.cursors.exists_of_some view
      obtain rfl : c = c' := Option.some.inj (cursor.symm.trans cursor')
      exact follows.straight
  case quiet =>
    intro site retried
    change _ ∈ Account.growth _ at retried
    simp [Account.growth] at retried

/-- Nobody ever waits or tries again who uses a queue alone. -/
theorem exists_follow_unhindered (moves : List (Move α)) : ∃ replies s,
    (follow move moves).run .start = .ok replies s ∧ Unhindered s.collection s.cursors := by
  obtain ⟨s, run, r, shows⟩ := exists_follow_ideal Shows.new moves
  exact ⟨_, s, run, shows.unhindered⟩

end SharedCollections.Queue

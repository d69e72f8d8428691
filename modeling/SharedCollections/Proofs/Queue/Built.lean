import SharedCollections.Proofs.Queue.Segment
import SharedCollections.Proofs.Slot
/-!
# Queues that fit

The slots of a queue are numbered through all segments (`place`). However many threads stand in the
middle of an operation, the segments and the ends of a queue fit the numbers of reservations and
claims made so far (`Built`): slots are reserved in the last segment and claimed in the segment at
the head, a segment is linked when the one before it is full, and the head moves on when all slots
of its segment are claimed.
-/

namespace SharedCollections

namespace Queue

variable {α : Type} {q q' : Queue α} {g i p : Nat}

/-! ## Slots by number -/

/-- The slot numbered `p`. -/
def place (p : Nat) (q : Queue α) : Cell α := q.cell (p / Segment.size) (p % Segment.size)

theorem cell_eq_place (hi : i < Segment.size) : q.cell g i = q.place (Segment.size * g + i) := by
  have segment : (Segment.size * g + i) / Segment.size = g := by
    simp only [Segment.size] at hi ⊢
    omega
  have slot : (Segment.size * g + i) % Segment.size = i := by
    simp only [Segment.size] at hi ⊢
    omega
  rw [place, segment, slot]

theorem place_empty (p : Nat) : (Queue.empty : Queue α).place p = ⟨none, .empty⟩ := by
  have segment (g : Nat) : (Queue.empty : Queue α).segment g = .empty 0 := by
    cases g <;> rfl
  rw [place, cell, segment, Segment.cell_empty]

theorem segment_of_le (beyond : q.segments.size ≤ g) : q.segment g = .empty 0 := by
  rw [segment, Array.getD_eq_getD_getElem?, Array.getElem?_eq_none beyond]
  rfl

theorem segment_modifySegment (hg : g < q.segments.size) (f : Segment α → Segment α) (g' : Nat) :
    (q.modifySegment g f).segment g' = if g = g' then f (q.segment g') else q.segment g' := by
  split
  · next same =>
    subst same
    exact segment_modifySegment_self f hg
  · next other => exact segment_modifySegment_of_ne f other

/-- What is read of a segment that may have been changed. -/
theorem segment_modifySegment_cases (g : Nat) (f : Segment α → Segment α) (g' : Nat) :
    (q.modifySegment g f).segment g' = q.segment g' ∨
      (q.modifySegment g f).segment g' = f (q.segment g') := by
  rcases Nat.lt_or_ge g q.segments.size with hg | beyond
  · rw [segment_modifySegment hg]
    split
    · exact .inr rfl
    · exact .inl rfl
  · left
    simp only [segment, modifySegment, Array.getD_eq_getD_getElem?, Array.getElem?_modify]
    split
    · next same =>
      subst same
      rw [Array.getElem?_eq_none beyond]
      rfl
    · rfl

/-- What is read of a slot that may have been changed. -/
theorem place_modifyCell_cases (g i : Nat) (f : Cell α → Cell α) (p : Nat) :
    (q.modifyCell g i f).place p = q.place p ∨ (q.modifyCell g i f).place p = f (q.place p) := by
  rcases segment_modifySegment_cases (q := q) g (·.modifyCell i f) (p / Segment.size)
    with same | changed
  · left
    rw [place, cell, modifyCell, same]
    rfl
  · rw [place, cell, modifyCell, changed]
    by_cases slot : i = p % Segment.size
    · rcases Nat.lt_or_ge i (q.segment (p / Segment.size)).cells.size with hi | beyond
      · right
        rw [← slot, Segment.cell_modifyCell_self f hi, place, cell, slot]
      · left
        rw [place, cell, ← slot]
        simp [Segment.cell, Segment.modifyCell, Array.getD_eq_getD_getElem?,
          Array.getElem?_modify, Array.getElem?_eq_none beyond]
    · left
      rw [Segment.cell_modifyCell_of_ne f slot]
      rfl

theorem place_modifyCell (hg : g < q.segments.size)
    (cells : (q.segment g).cells.size = Segment.size) (hi : i < Segment.size) (f : Cell α → Cell α)
    (p : Nat) :
    (q.modifyCell g i f).place p =
      if p = Segment.size * g + i then f (q.place p) else q.place p := by
  split
  · next here =>
    rw [here, ← cell_eq_place hi, ← cell_eq_place hi, cell_modifyCell_self f hg (cells ▸ hi)]
  · next other =>
    rw [place, cell, modifyCell, segment_modifySegment hg]
    split
    · next segment =>
      have slot : i ≠ p % Segment.size := by
        intro slot
        refine other ?_
        rw [segment, slot, Nat.div_add_mod]
      rw [Segment.cell_modifyCell_of_ne f slot]
      rfl
    · rfl

/-- A change of a segment that does not touch its slots. -/
theorem place_modifySegment (g : Nat) (f : Segment α → Segment α)
    (cells : ∀ s, (f s).cells = s.cells) (p : Nat) : (q.modifySegment g f).place p = q.place p := by
  rw [place, place, cell, cell]
  rcases segment_modifySegment_cases (q := q) g f (p / Segment.size) with same | changed
  · rw [same]
  · rw [changed, Segment.cell, cells]
    rfl

theorem place_reserve (g p : Nat) : (q.modifySegment g Segment.reserve).place p = q.place p :=
  place_modifySegment g Segment.reserve (fun _ => rfl) p

theorem place_claim (g p : Nat) :
    (q.modifySegment g fun s => { s with claimed := s.claimed + 1 }).place p = q.place p :=
  place_modifySegment g (fun s => { s with claimed := s.claimed + 1 }) (fun _ => rfl) p

theorem segment_push_eq (s : Segment α) (g : Nat) :
    ({ q with segments := q.segments.push s } : Queue α).segment g =
      if g = q.segments.size then s else q.segment g := by
  simp only [segment, Array.getD_eq_getD_getElem?, Array.getElem?_push]
  split <;> rfl

/-- A new segment is like one that is not there. -/
theorem place_push_empty (index p : Nat) :
    ({ q with segments := q.segments.push (.empty index) } : Queue α).place p = q.place p := by
  rw [place, place, cell, cell, segment_push_eq]
  split
  · next new => rw [segment_of_le (Nat.le_of_eq new.symm), Segment.cell_empty, Segment.cell_empty]
  · rfl

/-! ## What moves leave alone -/

/-- `q'` has the ends and the cursors of `q`. -/
structure SameFrame (q q' : Queue α) : Prop where
  size : q'.segments.size = q.segments.size
  head : q'.head = q.head
  tail : q'.tail = q.tail
  index : ∀ g, (q'.segment g).index = (q.segment g).index
  cells : ∀ g, (q'.segment g).cells.size = (q.segment g).cells.size
  stop : ∀ g, (q'.segment g).stop = (q.segment g).stop
  claimed : ∀ g, (q'.segment g).claimed = (q.segment g).claimed
  next : ∀ g, (q'.segment g).next = (q.segment g).next

theorem SameFrame.of_segments (segments : q'.segments = q.segments) (head : q'.head = q.head)
    (tail : q'.tail = q.tail) : SameFrame q q' := by
  have segment (g : Nat) : q'.segment g = q.segment g := by rw [segment, segments]; rfl
  refine ⟨congrArg Array.size segments, head, tail, ?_, ?_, ?_, ?_, ?_⟩
  all_goals
    intro g
    rw [segment]

theorem sameFrame_modifyCell (g i : Nat) (f : Cell α → Cell α) :
    SameFrame q (q.modifyCell g i f) := by
  have cases := segment_modifySegment_cases (q := q) g (·.modifyCell i f)
  constructor
  case size => exact size_modifySegment _ _
  case head | tail => rfl
  case cells =>
    intro g'
    rcases cases g' with same | changed
    · exact congrArg (·.cells.size) same
    · exact (congrArg (·.cells.size) changed).trans (Segment.size_modifyCell _ _)
  all_goals
    intro g'
    rcases cases g' with same | changed
    · rw [modifyCell, same]
    · rw [modifyCell, changed]
      rfl

/-- `q'` has the values of `q`, too. The same slots are written, and those that were taken still
are. -/
structure Alike (q q' : Queue α) : Prop extends SameFrame q q' where
  value : ∀ p, (q'.place p).value = (q.place p).value
  written : ∀ p, (q'.place p).slot.isWritten = (q.place p).slot.isWritten
  taken : ∀ p, (q.place p).slot.isTaken = true → (q'.place p).slot.isTaken = true

/-- A change of the handshake word of a slot that leaves its first flag as it is and does not clear
the other one. -/
theorem alike_modifyCell (g i : Nat) {f : Slot → Slot}
    (written : ∀ s, (f s).isWritten = s.isWritten)
    (taken : ∀ s, s.isTaken = true → (f s).isTaken = true) :
    Alike q (q.modifyCell g i fun c => { c with slot := f c.slot }) := by
  have cases := place_modifyCell_cases (q := q) g i (fun c => { c with slot := f c.slot })
  refine ⟨sameFrame_modifyCell g i _, fun p => ?_, fun p => ?_, fun p before => ?_⟩
  · rcases cases p with same | changed
    · rw [same]
    · rw [changed]
  · rcases cases p with same | changed
    · rw [same]
    · rw [changed]
      exact written _
  · rcases cases p with same | changed
    · rwa [same]
    · rw [changed]
      exact taken _ before

/-- `q'` has the same slots as `q`, too, and as many snapshots in progress. -/
structure Still (q q' : Queue α) : Prop extends SameFrame q q' where
  place : ∀ p, q'.place p = q.place p
  takers : q'.takers = q.takers

theorem Still.alike (h : Still q q') : Alike q q' :=
  ⟨h.toSameFrame, fun p => congrArg (·.value) (h.place p),
    fun p => congrArg (·.slot.isWritten) (h.place p),
    fun p taken => (congrArg (·.slot.isTaken) (h.place p)).trans taken⟩

/-- The trace is not part of what a queue does. -/
theorem still_emit (e : Event) : Still q (q.emit e) :=
  ⟨.of_segments rfl rfl rfl, fun _ => rfl, rfl⟩

theorem Still.refl : Still q q := ⟨.of_segments rfl rfl rfl, fun _ => rfl, rfl⟩

theorem Still.emit (h : Still q q') (e : Event) : Still q (q'.emit e) :=
  ⟨⟨h.size, h.head, h.tail, h.index, h.cells, h.stop, h.claimed, h.next⟩, h.place, h.takers⟩

/-- A reservation that fails does nothing. -/
theorem still_reserve (full : Segment.size ≤ (q.segment g).reserved) :
    Still q (q.modifySegment g Segment.reserve) := by
  have hg : g < q.segments.size := by
    by_contra beyond
    rw [segment_of_le (Nat.not_lt.mp beyond)] at full
    exact absurd full (by simp [Segment.empty, Segment.size])
  have segment := segment_modifySegment hg Segment.reserve
  refine ⟨⟨size_modifySegment _ _, rfl, rfl, ?_, ?_, ?_, ?_, ?_⟩, place_reserve g, rfl⟩
  case refine_3 =>
    intro g'
    rw [segment]
    split
    · next same =>
      subst same
      simp only [Segment.stop, Segment.reserve]
      omega
    · rfl
  all_goals
    intro g'
    rw [segment]
    split <;> rfl

/-- The queue after segment `g` got another one behind it. -/
def linked (g : Nat) (q : Queue α) : Queue α :=
  let behind : Queue α := q.modifySegment g ({ · with next := some q.segments.size })
  { behind with segments := behind.segments.push (.empty ((q.segment g).index + 1)) }

theorem size_linked : (q.linked g).segments.size = q.segments.size + 1 := by
  simp [linked, modifySegment]

theorem segment_linked (hg : g < q.segments.size) (g' : Nat) : (q.linked g).segment g' =
    if g' = q.segments.size then .empty ((q.segment g).index + 1)
    else if g = g' then { q.segment g' with next := some q.segments.size }
    else q.segment g' := by
  rw [linked, segment_push_eq, size_modifySegment, segment_modifySegment hg]

theorem place_linked (p : Nat) : (q.linked g).place p = q.place p := by
  rw [linked, place_push_empty, place_modifySegment]
  exact fun _ => rfl

/-! ## The layout while threads are at work -/

end Queue

/-- A segment fits `r` reservations and `c` claims as the one numbered `g` of a queue with `n`
segments. -/
structure Segment.Fits {α : Type} (s : Segment α) (g n r c : Nat) : Prop where
  cells : s.cells.size = size
  index : s.index = g
  stop : s.stop = min (r - size * g) size
  claimed : s.claimed = min (c - size * g) size
  next : s.next = if g + 1 < n then some (g + 1) else none

namespace Queue

variable {α : Type} {q q' : Queue α} {g i p r c : Nat}

/-- The segments and the ends of a queue fit `r` reservations and `c` claims. -/
structure Built (q : Queue α) (r c : Nat) : Prop where
  fits : ∀ g < q.segments.size, (q.segment g).Fits g q.segments.size r c
  /-- A segment is linked once all slots before it are reserved. -/
  size_le : Segment.size * q.segments.size ≤ r + Segment.size
  le_size : r ≤ Segment.size * q.segments.size
  head_le : Segment.size * q.head ≤ c
  le_head : c ≤ Segment.size * q.head + Segment.size
  claims_le : c ≤ r
  head_lt : q.head < q.segments.size
  tail_lt : q.tail < q.segments.size

namespace Built

theorem of_sameFrame (h : Built q r c) (same : SameFrame q q') : Built q' r c := by
  obtain ⟨fits, size_le, le_size, head_le, le_head, claims_le, head_lt, tail_lt⟩ := h
  rw [← same.size] at fits size_le le_size head_lt tail_lt
  rw [← same.head] at head_le le_head head_lt
  rw [← same.tail] at tail_lt
  refine ⟨fun g hg => ?_, size_le, le_size, head_le, le_head, claims_le, head_lt, tail_lt⟩
  obtain ⟨cells, index, stop, claimed, next⟩ := fits g hg
  exact ⟨(same.cells g).trans cells, (same.index g).trans index, (same.stop g).trans stop,
    (same.claimed g).trans claimed, (same.next g).trans next⟩

theorem empty : Built (Queue.empty : Queue α) 0 0 := by
  refine ⟨fun g hg => ?_, ?_, ?_, ?_, ?_, ?_, ?_, ?_⟩
  · obtain rfl : g = 0 := Nat.lt_one_iff.mp hg
    exact ⟨Segment.size_cells_empty 0, rfl, rfl, rfl, rfl⟩
  all_goals simp [Queue.empty, startingAt]

/-- Slots are reserved in the last segment only. -/
theorem reserved_eq (h : Built q r c) (hg : g < q.segments.size)
    (room : (q.segment g).reserved < Segment.size) :
    q.segments.size = g + 1 ∧ r = Segment.size * g + (q.segment g).reserved := by
  have stop := (h.fits g hg).stop
  have size_le := h.size_le
  have le_size := h.le_size
  simp only [Segment.stop, Segment.size] at stop size_le le_size room ⊢
  omega

theorem reserve (h : Built q r c) (hg : g < q.segments.size)
    (room : (q.segment g).reserved < Segment.size) :
    Built (q.modifySegment g Segment.reserve) (r + 1) c := by
  obtain ⟨last, here⟩ := h.reserved_eq hg room
  obtain ⟨fits, size_le, le_size, head_le, le_head, claims_le, head_lt, tail_lt⟩ := h
  rw [← size_modifySegment g Segment.reserve] at size_le le_size head_lt tail_lt
  refine ⟨fun g' hg' => ?_, ?_, ?_, head_le, le_head, ?_, head_lt, tail_lt⟩
  · rw [size_modifySegment] at hg'
    obtain ⟨cells, index, stop, claimed, next⟩ := fits g' hg'
    rw [segment_modifySegment hg, size_modifySegment]
    split
    · next same =>
      subst same
      refine ⟨cells, index, ?_, claimed, next⟩
      simp only [Segment.stop, Segment.reserve, Segment.size] at here room ⊢
      omega
    · next other =>
      refine ⟨cells, index, ?_, claimed, next⟩
      simp only [Segment.size] at here stop ⊢
      omega
  · omega
  · rw [size_modifySegment]
    simp only [Segment.size] at here room ⊢
    omega
  · omega

theorem link (h : Built q r c) (last : q.segments.size = g + 1)
    (full : Segment.size * g + Segment.size ≤ r) : Built (q.linked g) r c := by
  have hg : g < q.segments.size := by omega
  obtain ⟨fits, size_le, le_size, head_le, le_head, claims_le, head_lt, tail_lt⟩ := h
  refine ⟨fun g' hg' => ?_, ?_, ?_, head_le, le_head, claims_le, ?_, ?_⟩
  · rw [size_linked] at hg'
    rw [segment_linked hg, size_linked]
    split
    · next new =>
      -- nothing is reserved in the new segment
      rw [(fits g hg).index]
      simp only [Segment.size] at full le_size
      refine ⟨Segment.size_cells_empty _, by simp only [Segment.empty]; omega, ?_, ?_, ?_⟩
      · simp only [Segment.stop_empty, Segment.size]
        omega
      · simp only [Segment.empty, Segment.size]
        omega
      · rw [if_neg (by omega)]
        rfl
    · next old =>
      obtain ⟨cells, index, stop, claimed, next⟩ := fits g' (by omega)
      split
      · next same =>
        refine ⟨cells, index, stop, claimed, ?_⟩
        rw [if_pos (by omega)]
        exact congrArg some (by omega)
      · next other =>
        refine ⟨cells, index, stop, claimed, ?_⟩
        rw [if_pos (by omega)] at next
        rw [if_pos (by omega), next]
  all_goals rw [size_linked]
  · simp only [Segment.size] at full ⊢
    omega
  · exact le_size.trans (Nat.mul_le_mul_left _ (Nat.le_succ _))
  · exact Nat.lt_succ_of_lt head_lt
  · exact Nat.lt_succ_of_lt tail_lt

/-- A slot is claimed in the segment at the head only. -/
theorem claimed_eq (h : Built q r c) (le : g ≤ q.head)
    (left : (q.segment g).claimed < (q.segment g).stop) :
    q.head = g ∧ c = Segment.size * g + (q.segment g).claimed ∧ c < r := by
  obtain ⟨-, -, stop, claimed, -⟩ := h.fits g (le.trans_lt h.head_lt)
  have head_le := h.head_le
  have le_head := h.le_head
  rw [stop, claimed] at left
  rw [claimed]
  simp only [Segment.size] at left head_le le_head ⊢
  omega

theorem claim (h : Built q r c) (le : g ≤ q.head)
    (left : (q.segment g).claimed < (q.segment g).stop) :
    Built (q.modifySegment g fun s => { s with claimed := s.claimed + 1 }) r (c + 1) := by
  have hg : g < q.segments.size := le.trans_lt h.head_lt
  obtain ⟨head, here, more⟩ := h.claimed_eq le left
  have inside := (q.segment g).stop_le_size
  obtain ⟨fits, size_le, le_size, head_le, le_head, claims_le, head_lt, tail_lt⟩ := h
  refine ⟨fun g' hg' => ?_, ?_, ?_, head_le.trans (Nat.le_succ c), ?_, more, ?_, ?_⟩
  · rw [size_modifySegment] at hg'
    obtain ⟨cells, index, stop, claimed, next⟩ := fits g' hg'
    rw [segment_modifySegment hg, size_modifySegment]
    split
    · next same =>
      subst same
      refine ⟨cells, index, stop, ?_, next⟩
      simp only [Segment.size] at here inside ⊢
      omega
    · next other =>
      refine ⟨cells, index, stop, ?_, next⟩
      simp only [Segment.size] at here claimed inside ⊢
      omega
  · rwa [size_modifySegment]
  · rwa [size_modifySegment]
  · change c + 1 ≤ Segment.size * q.head + Segment.size
    rw [head]
    omega
  · rwa [size_modifySegment]
  · rwa [size_modifySegment]

theorem swing (h : Built q r c) (hg : g < q.segments.size) : Built { q with tail := g } r c :=
  ⟨h.fits, h.size_le, h.le_size, h.head_le, h.le_head, h.claims_le, h.head_lt, hg⟩

/-- The head moves on when the last slot of its segment has been claimed. -/
theorem advance (h : Built q r c) (full : Segment.size * q.head + Segment.size ≤ c)
    (behind : q.head + 1 < q.segments.size) : Built { q with head := q.head + 1 } r c := by
  have le_head := h.le_head
  refine ⟨h.fits, h.size_le, h.le_size, ?_, ?_, h.claims_le, behind, h.tail_lt⟩
  · exact full
  · change c ≤ Segment.size * (q.head + 1) + Segment.size
    exact le_head.trans (by simp only [Segment.size]; omega)

end Built

end Queue

end SharedCollections

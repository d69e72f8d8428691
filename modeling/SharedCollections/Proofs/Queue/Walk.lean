import SharedCollections.Proofs.Queue.Calls
/-!
# Cursors on a queue

A cursor is a place in the numbering of all values (`View`): it looks at the first value from there
on that has not been taken, as long as that one was there when the cursor was opened. It gets there
slot by slot. A slot that was emptied while the cursor was open is marked as taken, so the cursor
passes over it, and it finds its way through segments that the head has left behind.
-/

namespace SharedCollections.Queue

/-! ## Views -/

/-- A snapshot in progress, in terms of the numbers of values. -/
structure View where
  /-- The number of the value to be given next, unless it is taken before. -/
  position : Nat
  /-- How many values had been put in when the snapshot started. -/
  stop : Nat
deriving DecidableEq, Repr

/-- The number of the next value to be given after `taken` values were taken, and the view behind
it. -/
def View.next (taken : Nat) (w : View) : Option Nat × View :=
  if max w.position taken < w.stop then
    (some (max w.position taken), { w with position := max w.position taken + 1 })
  else (none, w)

/-- Cursor `c` stands in segment `g`, before the value numbered `p` of an extent that ends before
the value numbered `e`. -/
structure Cursor.Stands (c : Cursor) (g p e : Nat) : Prop where
  segment : c.segment = some g
  place : Segment.size * g + c.slot = p
  slot_le : c.slot ≤ Segment.size
  tail : c.tail = e / Segment.size
  stop : c.stop = e % Segment.size

namespace Account

variable {α : Type} {r : Account α} {c : Cursor} {g i p e : Nat} {v : α} {w : View}

/-- Cursor `c` is where view `w` says. -/
structure Follows (r : Account α) (c : Cursor) (w : View) : Prop where
  stop_le : w.stop ≤ r.total
  position_le : w.position ≤ w.stop
  /-- What was taken while the cursor was open is marked. -/
  marked : ∀ p, w.position ≤ p → p < r.taken → r.marks[p]? = some true
  place : (c.segment = none ∧ w.stop ≤ max w.position r.taken) ∨
    ∃ g, c.Stands g w.position w.stop

/-! ## One slot -/

section

variable (place : Segment.size * g + i = p) (hi : i < Segment.size) (hp : p < r.total)

include place hi hp

theorem cell_place : r.layout.cell g i = r.cell p := by
  have segment : p / Segment.size = g := by
    simp only [Segment.size] at place hi ⊢
    omega
  have slot : p % Segment.size = i := by
    simp only [Segment.size] at place hi ⊢
    omega
  rw [← cell_layout (Nat.le_of_lt hp), segment, slot]

theorem segment_place : g ≤ r.total / Segment.size := by
  simp only [Segment.size] at place hi ⊢
  omega

theorem lt_size_place : g < r.layout.segments.size := by
  rw [size_segments_layout]
  exact Nat.lt_succ_of_le (segment_place place hi hp)

theorem lt_size_cells_place : i < (r.layout.segment g).cells.size := by
  rw [segment_layout (segment_place place hi hp), size_cells_segment]
  exact hi

/-- A slot is passed over if its value was taken and left a mark. -/
theorem drive_looking_taken (marked : r.marks[p]? = some true) :
    drive (Looking.step g i) 3 .awaiting r.layout = .ok none r.layout :=
  drive_looking_of_marked (lt_size_place place hi hp) (lt_size_cells_place place hi hp)
    ((cell_place place hi hp).trans (cell_of_marked marked))

/-- A value that is left is seen in its slot. -/
theorem drive_looking_left (left : r.taken ≤ p) (value : r.values[p]? = some v) :
    drive (Looking.step g i) 4 .awaiting r.layout = .ok (some v) r.layout :=
  drive_looking_of_written (lt_size_place place hi hp) (lt_size_cells_place place hi hp)
    ((cell_place place hi hp).trans (cell_of_left left value))

end

end Account

/-! ## The way of a cursor -/

section

variable {α : Type} {q : Queue α} {c : Cursor} {g p e : Nat}

theorem Cursor.Stands.last_eq (h : c.Stands g p e) :
    c.last g = if g = e / Segment.size then e % Segment.size else Segment.size := by
  rw [Cursor.last, h.tail, h.stop]

/-- A cursor stands before a slot unless it is at the end of a segment or of its extent. -/
theorem Cursor.Stands.slot_lt_last_iff (h : c.Stands g p e) (hp : p ≤ e) :
    c.slot < c.last g ↔ p < e ∧ c.slot < Segment.size := by
  have place := h.place
  have slot_le := h.slot_le
  rw [h.last_eq]
  by_cases tail : g = e / Segment.size
  · rw [if_pos tail]
    simp only [Segment.size] at place slot_le tail ⊢
    omega
  · rw [if_neg tail]
    simp only [Segment.size] at place slot_le tail ⊢
    omega

theorem Cursor.Stands.advance (h : c.Stands g p e) (hi : c.slot < Segment.size) :
    Cursor.Stands { c with slot := c.slot + 1 } g (p + 1) e :=
  ⟨h.segment, congrArg (· + 1) h.place, hi, h.tail, h.stop⟩

theorem step_scanning_of_lt (segment : c.segment = some g) (inside : c.slot < c.last g) :
    Iterating.step (.scanning c) q =
      (.next (.looking { c with slot := c.slot + 1 } g c.slot .awaiting), q) := by
  simp only [Iterating.step, segment, if_pos inside]

theorem step_scanning_of_tail (segment : c.segment = some g) (beyond : ¬ c.slot < c.last g)
    (tail : g = c.tail) :
    Iterating.step (.scanning c) q = (.done (none, { c with segment := none }), q) := by
  simp only [Iterating.step, segment, if_neg beyond, if_pos tail]

theorem step_scanning_of_ne (segment : c.segment = some g) (beyond : ¬ c.slot < c.last g)
    (tail : g ≠ c.tail) : Iterating.step (.scanning c) q = (.next (.hopping c g), q) := by
  simp only [Iterating.step, segment, if_neg beyond, if_neg tail]

theorem drive_looking_none {i n b : Nat} {x : Option α × Cursor}
    (seen : drive (Looking.step g i) n .awaiting q = .ok none q)
    (rest : drive Iterating.step b (.scanning c) q = .ok x q) :
    drive Iterating.step (n + b) (.looking c g i .awaiting) q = .ok x q := by
  refine drive_lift (fun _ _ => rfl) seen ?_
  exact rest

theorem drive_looking_some {i n : Nat} {v : α}
    (seen : drive (Looking.step g i) n .awaiting q = .ok (some v) q) :
    drive Iterating.step n (.looking c g i .awaiting) q = .ok (some v, c) q := by
  refine drive_lift (b := 0) (fun _ _ => rfl) seen ?_
  rfl

end

namespace Account

variable {α : Type} {r : Account α} {w : View}

/-- A cursor before the value numbered `p` of an extent that ends before `e` comes, within `n`
steps, to the first value from there on that is left, and stands behind it; or it comes to its
end. -/
def Lands (r : Account α) (p e n : Nat) (c : Cursor) : Prop :=
  ∃ c', drive Iterating.step n (.scanning c) r.layout =
      .ok (if max p r.taken < e then r.values[max p r.taken]? else none, c') r.layout ∧
    if max p r.taken < e then ∃ g, c'.Stands g (max p r.taken + 1) e else c'.segment = none

section

variable {c : Cursor} {g p e n n' : Nat}

theorem Lands.mono (h : r.Lands p e n c) (le : n ≤ n') : r.Lands p e n' c := by
  obtain ⟨c', run, ends⟩ := h
  exact ⟨c', drive_mono run le, ends⟩

variable (stands : c.Stands g p e)

include stands

/-- The value is there. -/
theorem lands_of_left (before : p < e) (hi : c.slot < Segment.size) (he : e ≤ r.total)
    (left : r.taken ≤ p) : r.Lands p e 5 c := by
  have look := step_scanning_of_lt (q := r.layout) stands.segment
    ((stands.slot_lt_last_iff (Nat.le_of_lt before)).mpr ⟨before, hi⟩)
  have inside : p < r.total := Nat.lt_of_lt_of_le before he
  have value : r.values[p]? = some r.values[p] := List.getElem?_eq_getElem inside
  have seen := drive_looking_left stands.place hi inside left value
  rw [Lands, Nat.max_eq_left left]
  refine ⟨{ c with slot := c.slot + 1 }, ?_, ?_⟩
  · rw [if_pos before, value, drive_succ_next _ look]
    exact drive_looking_some seen
  · rw [if_pos before]
    exact ⟨g, stands.advance hi⟩

/-- The value was taken while the cursor was open, and the cursor passes over its slot. -/
theorem lands_of_marked (before : p < e) (hi : c.slot < Segment.size) (he : e ≤ r.total)
    (gone : p < r.taken) (marked : r.marks[p]? = some true)
    (rest : r.Lands (p + 1) e n { c with slot := c.slot + 1 }) : r.Lands p e (3 + n + 1) c := by
  have look := step_scanning_of_lt (q := r.layout) stands.segment
    ((stands.slot_lt_last_iff (Nat.le_of_lt before)).mpr ⟨before, hi⟩)
  have seen := drive_looking_taken stands.place hi (Nat.lt_of_lt_of_le before he) marked
  have same : max (p + 1) r.taken = max p r.taken := by omega
  obtain ⟨c', run, ends⟩ := rest
  rw [same] at run ends
  refine ⟨c', ?_, ends⟩
  rw [drive_succ_next _ look]
  exact drive_looking_none seen run

variable (beyond : ¬ c.slot < c.last g)

include beyond

/-- The extent has come to its end. -/
theorem lands_of_tail (hp : p ≤ e) (tail : g = e / Segment.size) : r.Lands p e 1 c := by
  have done := step_scanning_of_tail (q := r.layout) stands.segment beyond
    (tail.trans stands.tail.symm)
  have none : ¬ max p r.taken < e := by
    have place := stands.place
    rw [stands.slot_lt_last_iff hp] at beyond
    simp only [Segment.size] at place beyond tail
    omega
  rw [Lands, if_neg none]
  refine ⟨{ c with segment := .none }, drive_succ_done _ done, ?_⟩
  rw [if_neg none]

/-- The cursor goes on to the next segment of its extent. -/
theorem lands_of_lt (he : e ≤ r.total) (before : g < e / Segment.size)
    (rest : r.Lands p e n { c with segment := some (g + 1), slot := 0 }) :
    r.Lands p e (n + 2) c := by
  have inside := Nat.lt_of_lt_of_le before (Nat.div_le_div_right he)
  have linked : (r.layout.segment g).next = some (g + 1) := by
    rw [segment_layout (Nat.le_of_lt inside), next_segment, if_pos inside]
  have hop := step_scanning_of_ne (q := r.layout) stands.segment beyond
    (fun tail => Nat.ne_of_lt before (tail.trans stands.tail))
  have land : Iterating.step (.hopping c g) r.layout =
      (.next (.scanning { c with segment := some (g + 1), slot := 0 }), r.layout) := by
    simp only [Iterating.step, linked]
  obtain ⟨c', run, ends⟩ := rest
  refine ⟨c', ?_, ends⟩
  rw [drive_succ_next _ hop, drive_succ_next _ land]
  exact run

end

/-- A cursor passes over what was taken meanwhile, and gives the first value that is left. -/
theorem lands {c : Cursor} {g p e : Nat} (stands : c.Stands g p e) (hp : p ≤ e) (he : e ≤ r.total)
    (marked : ∀ j, p ≤ j → j < r.taken → r.marks[j]? = some true) :
    r.Lands p e (5 * ((e - p) + (e / Segment.size - g) + 1)) c := by
  -- every step leads to the next slot or to the next segment, none of which is behind the extent
  have place := stands.place
  by_cases inside : p < e ∧ c.slot < Segment.size
  · obtain ⟨before, hi⟩ := inside
    by_cases gone : p < r.taken
    · have rest := lands (stands.advance hi) before he fun j hj => marked j (Nat.le_of_succ_le hj)
      have passed := lands_of_marked stands before hi he gone (marked p (Nat.le_refl p) gone) rest
      exact passed.mono (by omega)
    · exact (lands_of_left stands before hi he (Nat.not_lt.mp gone)).mono (by omega)
  · have beyond := mt (stands.slot_lt_last_iff hp).mp inside
    by_cases tail : g = e / Segment.size
    · exact (lands_of_tail stands beyond hp tail).mono (by omega)
    · have slot_le := stands.slot_le
      have before : g < e / Segment.size := by
        simp only [Segment.size] at place slot_le inside tail ⊢
        omega
      have full : c.slot = Segment.size := by
        simp only [Segment.size] at place slot_le inside tail before ⊢
        omega
      have there : Cursor.Stands { c with segment := some (g + 1), slot := 0 } (g + 1) p e :=
        ⟨rfl, by rw [← place, full, Nat.mul_succ]; rfl, Nat.zero_le _, stands.tail, stands.stop⟩
      exact (lands_of_lt stands beyond he before (lands there hp he marked)).mono (by omega)
termination_by (e - p) + (e / Segment.size - g)

/-! ## Calls of cursors -/

theorem run_openCursor : ∃ c, openCursor.run r.layout = .ok c r.enter.layout ∧
    r.enter.Follows c ⟨r.taken, r.total⟩ := by
  refine ⟨.ofExtent r.enter.layout.extent, ?_, ?_⟩
  · exact Action.run_bind_ok (run_survey_layout (r := r.enter)) _
  · rw [extent_layout]
    refine ⟨Nat.le_refl _, r.taken_le_total, fun p hp taken => ?_, .inr ⟨_, rfl, ?_, ?_, rfl, rfl⟩⟩
    · exact absurd taken (Nat.not_lt.mpr hp)
    · exact Nat.div_add_mod _ _
    · exact Nat.le_of_lt (Nat.mod_lt _ (by decide))

theorem run_closeCursor : closeCursor.run r.layout = .ok () r.leave.layout := rfl

namespace Follows

variable {c : Cursor}

theorem put (h : r.Follows c w) (v : α) : (r.put v).Follows c w where
  stop_le := Nat.le_trans h.stop_le (by rw [total_put]; exact Nat.le_succ _)
  position_le := h.position_le
  marked := h.marked
  place := h.place

theorem foldl_put (h : r.Follows c w) (vs : List α) : (vs.foldl Account.put r).Follows c w := by
  induction vs generalizing r with
  | nil => exact h
  | cons v vs ih => exact ih (h.put v)

theorem enter (h : r.Follows c w) : r.enter.Follows c w := ⟨h.1, h.2, h.3, h.4⟩

theorem leave (h : r.Follows c w) : r.leave.Follows c w := ⟨h.1, h.2, h.3, h.4⟩

/-- A value that is taken while a snapshot is in progress leaves its mark. -/
theorem take (h : r.Follows c w) (live : r.takers ≠ 0) : r.take.Follows c w := by
  rcases Nat.lt_or_eq_of_le r.taken_le_total with left | none
  · have marks : r.take.marks = r.marks ++ [true] := by
      rw [marks_take left, decide_eq_true live]
    constructor
    case stop_le => rw [total_take]; exact h.stop_le
    case position_le => exact h.position_le
    case marked =>
      intro p hp taken
      rw [taken_take left] at taken
      rw [marks]
      rcases Nat.eq_or_lt_of_le (Nat.le_of_lt_succ taken) with rfl | before
      · exact List.getElem?_concat_length
      · rw [List.getElem?_append_left before]
        exact h.marked p hp before
    case place =>
      -- a cursor that has come to its end has nothing more to give
      refine h.place.imp_left fun beyond => ⟨beyond.1, Nat.le_trans beyond.2 ?_⟩
      rw [taken_take left]
      omega
  · rw [take_of_eq none]
    exact h

/-- A cursor gives the value that its view gives. -/
theorem run_next? (h : r.Follows c w) :
    ∃ c', c.next?.run r.layout =
        .ok ((w.next r.taken).1.bind (r.values[·]?), c') r.layout ∧
      r.Follows c' (w.next r.taken).2 := by
  rcases h.place with ⟨spent, beyond⟩ | ⟨g, stands⟩
  · have next : w.next r.taken = (none, w) := if_neg (Nat.not_lt.mpr beyond)
    rw [next]
    refine ⟨c, drive_succ_done _ ?_, h⟩
    simp only [Iterating.step, spent]
    rfl
  · obtain ⟨c', run, ends⟩ := lands stands h.position_le h.stop_le h.marked
    have enough : 5 * ((w.stop - w.position) + (w.stop / Segment.size - g) + 1) ≤
        5 * (Segment.size + 1) * (r.layout.segments.size + 1) := by
      have stop_le := h.stop_le
      rw [size_segments_layout]
      simp only [Segment.size]
      omega
    have walk : c.next?.run r.layout = _ := drive_mono run enough
    refine ⟨c', ?_, ?_⟩
    · rw [walk, View.next]
      split <;> rfl
    · rw [View.next]
      split
      · rename_i before
        rw [if_pos before] at ends
        -- nothing behind the value that is given has been taken
        refine ⟨h.stop_le, before, fun p hp taken => ?_, .inr ends⟩
        have behind : r.taken ≤ p := Nat.le_trans (Nat.le_max_right _ _) (Nat.le_of_succ_le hp)
        exact absurd taken (Nat.not_lt.mpr behind)
      · rename_i beyond
        rw [if_neg beyond] at ends
        exact ⟨h.stop_le, h.position_le, h.marked, .inl ⟨ends, Nat.not_lt.mp beyond⟩⟩

end Follows

/-! ## All values -/

/-- A cursor on a queue that nobody changes gives all values from its place on. -/
theorem exists_collect {bound : Nat} {c : Cursor} {p : Nat} (h : r.Follows c ⟨p, r.total⟩)
    (taken : r.taken ≤ p) (enough : r.total - p < bound) :
    ∃ c', (c.collect bound).run r.layout = .ok (r.values.drop p, c') r.layout := by
  induction bound generalizing c p with
  | zero => omega
  | succ bound ih =>
    obtain ⟨c', run, follows⟩ := h.run_next?
    have first : max p r.taken = p := Nat.max_eq_left taken
    rw [View.next, first] at run follows
    rw [Cursor.collect, Action.run_bind_ok run]
    by_cases before : p < r.total
    · have value : r.values[p]? = some r.values[p] := List.getElem?_eq_getElem before
      rw [if_pos before] at follows ⊢
      obtain ⟨c'', rest⟩ := ih follows (Nat.le_succ_of_le taken) (by omega)
      refine ⟨c'', ?_⟩
      rw [List.drop_eq_getElem_cons before]
      simp only [Option.bind_some, value]
      rw [Action.run_bind_ok rest]
      rfl
    · rw [if_neg before]
      refine ⟨c', ?_⟩
      rw [List.drop_eq_nil_of_le (Nat.not_lt.mp before)]
      rfl

theorem run_toList_layout : toList.run r.layout = .ok (r.values.drop r.taken) r.layout := by
  obtain ⟨c, opened, follows⟩ := run_openCursor (r := r)
  have enough : r.total - r.taken < Segment.size * r.enter.layout.segments.size + 1 := by
    rw [size_segments_layout, total_enter]
    simp only [Segment.size]
    omega
  obtain ⟨c', rest⟩ := exists_collect follows (Nat.le_refl _) enough
  have all : c.rest.run r.enter.layout = .ok (r.values.drop r.taken, c') r.enter.layout := rest
  rw [toList, Action.run_bind_ok opened, Action.run_bind_ok all]
  rfl

end Account

end SharedCollections.Queue

import SharedCollections.Proofs.Queue.Account
/-!
# What calls do to an account

Each operation on a queue, run alone, makes the layout of one account the layout of another one:
`enqueue` that of the account with one value more, `dequeue?` that of the account with one value
taken, and all others leave the account as it is.
-/

namespace SharedCollections.Queue

namespace Account

variable {α : Type} {r : Account α} {g : Nat} {v : α}

/-! ## Putting a value in -/

variable (r) in
theorem claimed_head :
    (r.segment (r.taken / Segment.size)).claimed = r.taken % Segment.size := by
  simp only [claimed_segment, Segment.size]
  omega

variable (r) in
theorem reserved_tail :
    (r.segment (r.total / Segment.size)).reserved = r.total % Segment.size := by
  simp only [reserved_segment, Segment.size]
  omega

theorem segment_put_of_lt (hg : g < r.total / Segment.size) :
    (r.put v).segment g = r.segment g := by
  have full : Segment.size * (g + 1) ≤ r.total := by
    simp only [Segment.size] at hg ⊢
    omega
  have later : g < (r.total + 1) / Segment.size :=
    Nat.lt_of_lt_of_le hg (Nat.div_le_div_right (Nat.le_succ _))
  refine Segment.ext_segment rfl (cells_segment_congr fun i hi => cell_put_of_ne ?_) rfl ?_ ?_
  · simp only [Segment.size] at hi full ⊢
    omega
  · simp only [reserved_segment, total_put, Segment.size] at full ⊢
    omega
  · simp only [next_segment, total_put, if_pos hg, if_pos later]

/-- The slots of the tail after a value was put in. -/
theorem cells_segment_put : ((r.put v).segment (r.total / Segment.size)).cells =
    ((r.segment (r.total / Segment.size)).fill v).cells := by
  have split := Nat.div_add_mod r.total Segment.size
  refine Segment.ext_cells (by simp) fun i hi => ?_
  replace hi : i < Segment.size := by simpa using hi
  rw [cell_segment hi]
  by_cases here : r.total % Segment.size = i
  · rw [Segment.cell_fill_self ((reserved_tail r).trans here) (by simpa using hi),
      cell_segment hi, ← here, split, cell_put_total, cell_of_free (Nat.le_refl _),
      Slot.markWritten_empty]
  · have other : Segment.size * (r.total / Segment.size) + i ≠ r.total := by omega
    rw [Segment.cell_fill_of_ne (by rwa [reserved_tail]), cell_segment hi, cell_put_of_ne other]

theorem reserved_segment_put : ((r.put v).segment (r.total / Segment.size)).reserved =
    ((r.segment (r.total / Segment.size)).fill v).reserved := by
  simp only [Segment.reserved_fill, reserved_segment, total_put, Segment.size]
  omega

section

variable (inside : r.total % Segment.size + 1 ≠ Segment.size)

include inside

theorem segment_put_of_ne : (r.put v).segment (r.total / Segment.size) =
    (r.segment (r.total / Segment.size)).fill v := by
  refine Segment.ext_segment ?_ cells_segment_put ?_ reserved_segment_put ?_
  · rw [Segment.index_fill, index_segment, index_segment]
  · rw [Segment.claimed_fill, claimed_segment, claimed_segment, taken_put]
  · rw [Segment.next_fill, next_segment, next_segment, total_put, Segment.div_succ_of_ne inside]

/-- A value that does not fill its segment goes into the tail. -/
theorem layout_put_of_ne : (r.put v).layout =
    r.layout.modifySegment (r.total / Segment.size) (Segment.fill v) := by
  have same := Segment.div_succ_of_ne inside
  have tail : r.total / Segment.size < r.layout.segments.size := by simp
  refine ext_segments (by simp [same]) (fun g hg => ?_) rfl ?_ rfl ?_
  · replace hg : g ≤ r.total / Segment.size := Nat.le_of_lt_succ (by simpa using hg)
    rw [segment_layout (by rwa [total_put, same])]
    rcases Nat.eq_or_lt_of_le hg with rfl | before
    · rw [segment_modifySegment_self _ tail, segment_layout hg, segment_put_of_ne inside]
    · rw [segment_modifySegment_of_ne _ (Nat.ne_of_gt before), segment_layout hg,
        segment_put_of_lt before]
  · simp [layout, same]
  · simp [layout, same]

end

section

variable (last : r.total % Segment.size + 1 = Segment.size)

include last

theorem segment_put_of_eq : (r.put v).segment (r.total / Segment.size) =
    ((r.segment (r.total / Segment.size)).fill v).linkTo (r.total / Segment.size + 1) := by
  refine Segment.ext_segment ?_ ?_ ?_ ?_ ?_
  · rw [Segment.index_linkTo, Segment.index_fill, index_segment, index_segment]
  · rw [Segment.cells_linkTo, cells_segment_put]
  · rw [Segment.claimed_linkTo, Segment.claimed_fill, claimed_segment, claimed_segment, taken_put]
  · rw [Segment.reserved_linkTo, reserved_segment_put]
  · rw [Segment.next_linkTo, next_segment, total_put, Segment.div_succ_of_eq last,
      if_pos (Nat.lt_succ_self _)]

/-- The segment that is linked behind a full one is empty. -/
theorem segment_put_new : (r.put v).segment (r.total / Segment.size + 1) =
    .empty (r.total / Segment.size + 1) := by
  refine segment_of_free ?_
  rw [total_put]
  simp only [Segment.size] at last ⊢
  omega

/-- A value that fills its segment makes the queue longer. -/
theorem layout_put_of_eq : (r.put v).layout =
    (r.layout.modifySegment (r.total / Segment.size) (Segment.fill v)).append := by
  let q := r.layout.modifySegment (r.total / Segment.size) (Segment.fill v)
  have more := Segment.div_succ_of_eq last
  have size : q.segments.size = r.total / Segment.size + 1 := by simp [q]
  have tail : q.tail = r.total / Segment.size := rfl
  have here : q.segment (r.total / Segment.size) =
      (r.segment (r.total / Segment.size)).fill v := by
    rw [segment_modifySegment_self _ (by simp), segment_layout (Nat.le_refl _)]
  change (r.put v).layout = q.append
  refine ext_segments ?_ (fun g hg => ?_) rfl ?_ rfl ?_
  · rw [size_segments_layout, total_put, more, size_append, size]
  · rw [size_append, size] at hg
    rw [segment_layout (by rw [total_put, more]; omega)]
    -- a segment before the tail stays, the tail is filled and linked, and an empty one is behind it
    rcases Nat.lt_trichotomy g (r.total / Segment.size) with before | rfl | behind
    · rw [segment_put_of_lt before, segment_append_of_ne (by omega) (by omega),
        segment_modifySegment_of_ne _ (Nat.ne_of_gt before), segment_layout (Nat.le_of_lt before)]
    · rw [segment_put_of_eq last, ← here, ← size]
      exact (segment_append_tail (by omega)).symm
    · obtain rfl : g = r.total / Segment.size + 1 := by omega
      rw [segment_put_new last, ← size, segment_append_new, tail, here, size]
      rfl
  · exact (congrArg (· / Segment.size) (total_put v)).trans (more.trans size.symm)
  · refine Array.ext' ?_
    rw [toList_trace_append, tail, here, Segment.index_fill, index_segment]
    exact (congrArg growth ((congrArg (· / Segment.size) (total_put v)).trans more)).trans
      (growth_succ _)

end

/-- `enqueue` puts the value in. -/
theorem run_enqueue_layout : (enqueue v).run r.layout = .ok () (r.put v).layout := by
  have tail : (r.layout.segment r.layout.tail).reserved = r.total % Segment.size :=
    (congrArg _ (segment_layout (Nat.le_refl _))).trans (reserved_tail r)
  have run := run_enqueue (v := v) tail (Nat.mod_lt _ (by decide))
  by_cases last : r.total % Segment.size + 1 = Segment.size
  · rw [run, if_pos last, layout_put_of_eq last]
    rfl
  · rw [run, if_neg last, layout_put_of_ne last]
    rfl

theorem run_enqueueAll_layout (vs : List α) :
    (enqueueAll vs).run r.layout = .ok () (vs.foldl put r).layout := by
  induction vs generalizing r with
  | nil => rfl
  | cons v vs ih => exact (Action.run_bind_ok run_enqueue_layout _).trans ih

/-! ## Taking a value out -/

variable (r) in
theorem head_le_tail : r.taken / Segment.size ≤ r.total / Segment.size :=
  Nat.div_le_div_right r.taken_le_total

variable (r) in
theorem head_lt_size : r.layout.head < r.layout.segments.size := by
  rw [size_segments_layout]
  exact Nat.lt_succ_of_le (head_le_tail r)

variable (r) in
theorem segment_layout_head :
    r.layout.segment r.layout.head = r.segment (r.taken / Segment.size) :=
  segment_layout (head_le_tail r)

variable (r) in
theorem segment_layout_tail :
    r.layout.segment r.layout.tail = r.segment (r.total / Segment.size) :=
  segment_layout (Nat.le_refl _)

variable (r) in
theorem low_head : (r.layout.segment r.layout.head).low = r.taken % Segment.size := by
  rw [segment_layout_head, Segment.low, claimed_head]
  exact Nat.min_eq_left (Nat.le_of_lt (Nat.mod_lt _ (by decide)))

variable (r) in
theorem stop_tail : (r.layout.segment r.layout.tail).stop = r.total % Segment.size := by
  rw [segment_layout_tail, Segment.stop, reserved_tail]
  exact Nat.min_eq_left (Nat.le_of_lt (Nat.mod_lt _ (by decide)))

theorem low_lt_stop_iff : (r.layout.segment r.layout.head).low <
    (r.layout.segment r.layout.head).stop ↔ r.taken < r.total := by
  rw [low_head, segment_layout_head, Segment.stop, reserved_segment]
  simp only [Segment.size]
  omega

theorem stop_le_low (none : r.taken = r.total) : (r.layout.segment r.layout.head).stop ≤
    (r.layout.segment r.layout.head).low :=
  Nat.not_lt.mp fun left => Nat.ne_of_lt (low_lt_stop_iff.mp left) none

/-- The head is the last segment when no value is left. -/
theorem next_head (none : r.taken = r.total) :
    (r.layout.segment r.layout.head).next = .none := by
  rw [segment_layout_head, next_segment, none, if_neg (Nat.lt_irrefl _)]

section

variable (left : r.taken < r.total)

include left

theorem segment_take_of_ne (other : g ≠ r.taken / Segment.size) :
    r.take.segment g = r.segment g := by
  refine Segment.ext_segment rfl (cells_segment_congr fun i hi => cell_take_of_ne left ?_) ?_ ?_ ?_
  · simp only [Segment.size] at hi other ⊢
    omega
  · rw [claimed_segment, claimed_segment, taken_take left]
    simp only [Segment.size] at other ⊢
    omega
  · rw [reserved_segment, reserved_segment, total_take]
  · rw [next_segment, next_segment, total_take]

theorem segment_take_head : r.take.segment (r.taken / Segment.size) =
    (r.segment (r.taken / Segment.size)).vacate (r.takers ≠ 0) := by
  have split := Nat.div_add_mod r.taken Segment.size
  have claimed := claimed_head r
  refine Segment.ext_segment rfl (Segment.ext_cells (by simp) fun i hi => ?_) ?_ ?_ ?_
  · replace hi : i < Segment.size := by simpa using hi
    rw [cell_segment hi]
    by_cases here : r.taken % Segment.size = i
    · obtain ⟨v, value⟩ : ∃ v, r.values[r.taken]? = some v :=
        ⟨_, List.getElem?_eq_getElem left⟩
      rw [Segment.cell_vacate_self (claimed.trans here) (by simpa using hi), cell_segment hi,
        ← here, split, cell_take_taken left, cell_of_left (Nat.le_refl _) value]
    · rw [Segment.cell_vacate_of_ne (by rwa [claimed]), cell_segment hi,
        cell_take_of_ne left (by omega)]
  · rw [Segment.claimed_vacate, claimed, claimed_segment, taken_take left]
    simp only [Segment.size]
    omega
  · rw [Segment.reserved_vacate, reserved_segment, reserved_segment, total_take]
  · rw [Segment.next_vacate, next_segment, next_segment, total_take]

/-- A value that is taken leaves the head, which moves on behind the last slot of a segment. -/
theorem layout_take : r.take.layout =
    { r.layout.modifySegment (r.taken / Segment.size) (Segment.vacate (r.takers ≠ 0)) with
      head := (r.taken + 1) / Segment.size } := by
  refine ext_segments (by simp) (fun g hg => ?_) ?_ ?_ ?_ ?_
  · replace hg : g ≤ r.total / Segment.size := Nat.le_of_lt_succ (by simpa using hg)
    rw [segment_layout (by rwa [total_take])]
    by_cases here : g = r.taken / Segment.size
    · subst here
      rw [segment_take_head left, ← segment_layout hg]
      exact (segment_modifySegment_self _ (head_lt_size r)).symm
    · rw [segment_take_of_ne left here, ← segment_layout hg]
      exact (segment_modifySegment_of_ne _ (Ne.symm here)).symm
  · exact congrArg (· / Segment.size) (taken_take left)
  · exact congrArg (· / Segment.size) total_take
  · exact takers_take
  · exact congrArg (fun n => (⟨growth (n / Segment.size)⟩ : Trace)) total_take

end

/-- The slot of the value at the head. -/
theorem cell_head (value : r.front = some v) :
    r.layout.cell r.layout.head (r.taken % Segment.size) = ⟨some v, .written⟩ :=
  (cell_layout r.taken_le_total).trans (cell_of_left (Nat.le_refl _) value)

theorem exists_front (left : r.taken < r.total) : ∃ v, r.front = some v :=
  ⟨_, List.getElem?_eq_getElem left⟩

variable (r) in
theorem low_lt_size : r.taken % Segment.size < (r.layout.segment r.layout.head).cells.size := by
  rw [segment_layout_head, size_cells_segment]
  exact Nat.mod_lt _ (by decide)

/-- `dequeue?` takes the value at the head. -/
theorem run_dequeue?_layout : dequeue?.run r.layout = .ok r.front r.take.layout := by
  rcases Nat.lt_or_eq_of_le r.taken_le_total with left | none
  · obtain ⟨v, value⟩ := exists_front left
    have cell := cell_head value
    have claimed : (r.layout.segment r.layout.head).claimed = r.taken % Segment.size := by
      rw [segment_layout_head, claimed_head]
    have room : r.taken % Segment.size < (r.layout.segment r.layout.head).stop := by
      rw [← low_head r]
      exact low_lt_stop_iff.mpr left
    rw [value, layout_take left]
    by_cases last : r.taken % Segment.size + 1 = Segment.size
    · have more : r.taken / Segment.size < r.total / Segment.size := by
        simp only [Segment.size] at last ⊢
        omega
      have linked : (r.layout.segment r.layout.head).next = some (r.taken / Segment.size + 1) := by
        rw [segment_layout_head, next_segment, if_pos more]
      rw [run_dequeue?_of_eq (head_lt_size r) (low_lt_size r) cell claimed room last linked
        (Nat.ne_of_gt more), Segment.div_succ_of_eq last]
      rfl
    · rw [run_dequeue?_of_ne (head_lt_size r) (low_lt_size r) cell claimed room last,
        Segment.div_succ_of_ne last]
      rfl
  · rw [run_dequeue?_of_none (stop_le_low none) (next_head none), front_of_eq none, take_of_eq none]

/-! ## Looking -/

/-- `peek?` sees the value at the head. -/
theorem run_peek?_layout : peek?.run r.layout = .ok r.front r.layout := by
  rcases Nat.lt_or_eq_of_le r.taken_le_total with left | none
  · obtain ⟨v, value⟩ := exists_front left
    have cell := cell_head value
    rw [← low_head r] at cell
    rw [value, run_peek?_of_some (head_lt_size r) (by rw [low_head]; exact low_lt_size r)
      (low_lt_stop_iff.mpr left) cell]
  · rw [run_peek?_of_none (stop_le_low none) (next_head none), front_of_eq none]

theorem run_isEmpty_layout :
    isEmpty.run r.layout = .ok (decide (r.taken = r.total)) r.layout := by
  rcases Nat.lt_or_eq_of_le r.taken_le_total with left | none
  · rw [run_isEmpty_of_some (low_lt_stop_iff.mpr left), decide_eq_false (Nat.ne_of_lt left)]
  · rw [run_isEmpty_of_none (stop_le_low none) (next_head none), decide_eq_true none]

variable (r) in
theorem extent_layout : r.layout.extent =
    ⟨r.taken / Segment.size, r.total / Segment.size, r.taken % Segment.size,
      r.total % Segment.size⟩ := by
  rw [extent, low_head, stop_tail]
  rfl

theorem run_survey_layout : survey.run r.layout = .ok r.layout.extent r.layout := by
  refine run_survey ?_
  rw [segment_layout_head, segment_layout_tail]
  exact head_le_tail r

theorem run_size_layout : size.run r.layout = .ok (r.total - r.taken) r.layout := by
  have count : r.layout.extent.size r.layout = r.total - r.taken := by
    have taken := r.taken_le_total
    have first : (r.layout.segment (r.taken / Segment.size)).index = r.taken / Segment.size := by
      rw [segment_layout (head_le_tail r), index_segment]
    have last : (r.layout.segment (r.total / Segment.size)).index = r.total / Segment.size := by
      rw [segment_layout (Nat.le_refl _), index_segment]
    rw [extent_layout]
    simp only [Extent.size, first, last]
    by_cases same : r.taken / Segment.size = r.total / Segment.size
    · rw [if_pos same]
      simp only [Segment.size] at same ⊢
      omega
    · rw [if_neg same]
      simp only [Segment.size] at same ⊢
      omega
  rw [size, Action.run_bind_ok run_survey_layout]
  change EStateM.Result.ok (r.layout.extent.size r.layout) r.layout = _
  rw [count]

end Account

end SharedCollections.Queue

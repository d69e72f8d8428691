import SharedCollections.Queue.Basic
/-!
# Reading changed queues

What is read of a segment or a slot after a segment or a slot was changed, and what two queues have
to agree in to be the same.
-/

namespace SharedCollections

namespace Segment

variable {α : Type} {s t : Segment α} {i j : Nat}

theorem ext_cells (size : s.cells.size = t.cells.size)
    (cell : ∀ i < t.cells.size, s.cell i = t.cell i) : s.cells = t.cells := by
  refine Array.ext size fun i hs ht => ?_
  have here := cell i ht
  rwa [Segment.cell, Segment.cell, Array.getD_eq_getD_getElem?, Array.getD_eq_getD_getElem?,
    Array.getElem?_eq_getElem hs, Array.getElem?_eq_getElem ht] at here

/-- Two segments that agree in all slots and cursors. -/
theorem ext_segment (index : s.index = t.index) (cells : s.cells = t.cells)
    (claimed : s.claimed = t.claimed) (reserved : s.reserved = t.reserved)
    (next : s.next = t.next) : s = t := by
  cases s
  cases t
  simp_all

/-- The number behind one that does not have the last slot is in the same segment. -/
theorem div_succ_of_ne {n : Nat} (inside : n % size + 1 ≠ size) : (n + 1) / size = n / size := by
  simp only [size] at inside ⊢
  omega

theorem div_succ_of_eq {n : Nat} (last : n % size + 1 = size) :
    (n + 1) / size = n / size + 1 := by
  simp only [size] at last ⊢
  omega

@[simp] theorem size_cells_empty (index : Nat) :
    (empty index : Segment α).cells.size = size := Array.size_replicate

@[simp] theorem cell_empty (index i : Nat) :
    (empty index : Segment α).cell i = ⟨none, .empty⟩ := by
  simp [cell, empty, Array.getD_eq_getD_getElem?, Array.getElem?_replicate]
  split <;> rfl

@[simp] theorem size_modifyCell (i : Nat) (f : Cell α → Cell α) :
    (s.modifyCell i f).cells.size = s.cells.size := Array.size_modify

theorem cell_modifyCell_self (f : Cell α → Cell α) (h : i < s.cells.size) :
    (s.modifyCell i f).cell i = f (s.cell i) := by
  simp [cell, modifyCell, Array.getD_eq_getD_getElem?, Array.getElem?_modify,
    Array.getElem?_eq_getElem h]

theorem cell_modifyCell_of_ne (f : Cell α → Cell α) (h : i ≠ j) :
    (s.modifyCell i f).cell j = s.cell j := by
  simp [cell, modifyCell, Array.getD_eq_getD_getElem?, Array.getElem?_modify, h]

theorem modifyCell_modifyCell (f f' : Cell α → Cell α) :
    (s.modifyCell i f).modifyCell i f' = s.modifyCell i fun c => f' (f c) := by
  refine ext_segment rfl (ext_cells (by simp) fun j hj => ?_) rfl rfl rfl
  rw [size_modifyCell] at hj
  by_cases same : i = j
  · subst same
    rw [cell_modifyCell_self _ (by simpa using hj), cell_modifyCell_self _ hj,
      cell_modifyCell_self _ hj]
  · simp only [cell_modifyCell_of_ne _ same]

/-- Only what a change makes of the slot that it is made to counts. -/
theorem modifyCell_congr {f f' : Cell α → Cell α} (h : f (s.cell i) = f' (s.cell i)) :
    s.modifyCell i f = s.modifyCell i f' := by
  refine ext_segment rfl (ext_cells (by simp) fun j hj => ?_) rfl rfl rfl
  rw [size_modifyCell] at hj
  by_cases same : i = j
  · subst same
    rw [cell_modifyCell_self _ hj, cell_modifyCell_self _ hj, h]
  · simp only [cell_modifyCell_of_ne _ same]

/-- A change of a slot that leaves it as it is. -/
theorem modifyCell_eq_self {f : Cell α → Cell α} (h : f (s.cell i) = s.cell i) :
    s.modifyCell i f = s := by
  refine ext_segment rfl (ext_cells (by simp) fun j hj => ?_) rfl rfl rfl
  by_cases same : i = j
  · subst same
    rw [cell_modifyCell_self _ hj, h]
  · exact cell_modifyCell_of_ne _ same

end Segment

namespace Queue

variable {α : Type} {q q' : Queue α} {g g' i j : Nat}

/-- Two queues that agree in all segments and cursors. -/
theorem ext_segments (size : q.segments.size = q'.segments.size)
    (segment : ∀ g < q'.segments.size, q.segment g = q'.segment g) (head : q.head = q'.head)
    (tail : q.tail = q'.tail) (takers : q.takers = q'.takers) (trace : q.trace = q'.trace) :
    q = q' := by
  have same : q.segments = q'.segments := by
    refine Array.ext size fun g h h' => ?_
    have here := segment g h'
    rwa [Queue.segment, Queue.segment, Array.getD_eq_getD_getElem?, Array.getD_eq_getD_getElem?,
      Array.getElem?_eq_getElem h, Array.getElem?_eq_getElem h'] at here
  cases q
  cases q'
  simp_all

@[simp] theorem size_modifySegment (g : Nat) (f : Segment α → Segment α) :
    (q.modifySegment g f).segments.size = q.segments.size := Array.size_modify

@[simp] theorem tail_modifySegment (g : Nat) (f : Segment α → Segment α) :
    (q.modifySegment g f).tail = q.tail := rfl

@[simp] theorem trace_modifySegment (g : Nat) (f : Segment α → Segment α) :
    (q.modifySegment g f).trace = q.trace := rfl

theorem segment_modifySegment_self (f : Segment α → Segment α) (h : g < q.segments.size) :
    (q.modifySegment g f).segment g = f (q.segment g) := by
  simp [segment, modifySegment, Array.getD_eq_getD_getElem?, Array.getElem?_modify,
    Array.getElem?_eq_getElem h]

theorem segment_modifySegment_of_ne (f : Segment α → Segment α) (h : g ≠ g') :
    (q.modifySegment g f).segment g' = q.segment g' := by
  simp [segment, modifySegment, Array.getD_eq_getD_getElem?, Array.getElem?_modify, h]

@[simp] theorem modifySegment_modifySegment (g : Nat) (f f' : Segment α → Segment α) :
    (q.modifySegment g f).modifySegment g f' = q.modifySegment g fun s => f' (f s) := by
  refine ext_segments (by simp) (fun g' h => ?_) rfl rfl rfl rfl
  rw [size_modifySegment] at h
  by_cases same : g = g'
  · subst same
    rw [segment_modifySegment_self _ (by simpa using h), segment_modifySegment_self _ h,
      segment_modifySegment_self _ h]
  · simp only [segment_modifySegment_of_ne _ same]

/-- Only what a change makes of the segment that it is made to counts. -/
theorem modifySegment_congr {f f' : Segment α → Segment α}
    (h : f (q.segment g) = f' (q.segment g)) : q.modifySegment g f = q.modifySegment g f' := by
  refine ext_segments (by simp) (fun g' hg => ?_) rfl rfl rfl rfl
  rw [size_modifySegment] at hg
  by_cases same : g = g'
  · subst same
    rw [segment_modifySegment_self _ hg, segment_modifySegment_self _ hg, h]
  · simp only [segment_modifySegment_of_ne _ same]

/-- A change of a segment that leaves it as it is. -/
theorem modifySegment_eq_self {f : Segment α → Segment α} (h : f (q.segment g) = q.segment g) :
    q.modifySegment g f = q := by
  refine ext_segments (by simp) (fun g' hg => ?_) rfl rfl rfl rfl
  by_cases same : g = g'
  · subst same
    rw [segment_modifySegment_self _ hg, h]
  · exact segment_modifySegment_of_ne _ same

theorem cell_modifyCell_self (f : Cell α → Cell α) (hg : g < q.segments.size)
    (hi : i < (q.segment g).cells.size) : (q.modifyCell g i f).cell g i = f (q.cell g i) := by
  rw [cell, modifyCell, segment_modifySegment_self _ hg, Segment.cell_modifyCell_self _ hi]
  rfl

theorem modifyCell_modifyCell (f f' : Cell α → Cell α) :
    (q.modifyCell g i f).modifyCell g i f' = q.modifyCell g i fun c => f' (f c) := by
  simp only [modifyCell, modifySegment_modifySegment, Segment.modifyCell_modifyCell]

theorem modifyCell_congr {f f' : Cell α → Cell α} (h : f (q.cell g i) = f' (q.cell g i)) :
    q.modifyCell g i f = q.modifyCell g i f' :=
  modifySegment_congr (Segment.modifyCell_congr h)

theorem modifyCell_eq_self {f : Cell α → Cell α} (h : f (q.cell g i) = q.cell g i) :
    q.modifyCell g i f = q :=
  modifySegment_eq_self (Segment.modifyCell_eq_self h)

end Queue

end SharedCollections

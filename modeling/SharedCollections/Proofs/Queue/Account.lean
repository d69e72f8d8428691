import SharedCollections.Proofs.Queue.Alone
/-!
# What a queue has gone through

A queue that no operation is busy with is determined by an account of its past: the values that were
put in, which of them were taken and whether a snapshot was in progress then, and how many snapshots
are in progress now. Its layout (`Account.layout`) is fixed. The value numbered `p` has slot
`p % 32` of the segment with index `p / 32`; the head is the segment of the first value that is
left, and the tail is the one that the next value goes to. Operations are specified by what they do
to the account.
-/

namespace SharedCollections.Queue

/-! ## Accounts -/

/-- What a queue has gone through. -/
structure Account (α : Type) where
  /-- All values that were put in, in order. -/
  values : List α
  /-- For each value that was taken, in order, whether its slot was marked as taken. -/
  marks : List Bool
  /-- How many snapshots are in progress. -/
  takers : Nat
  taken_le : marks.length ≤ values.length

namespace Account

variable {α : Type}

/-- A new queue. -/
def new : Account α := ⟨[], [], 0, Nat.le_refl 0⟩

variable (r : Account α)

/-- The number of values that were put in. -/
def total : Nat := r.values.length

/-- The number of values that were taken, which is the number of the value to be taken next. -/
def taken : Nat := r.marks.length

theorem taken_le_total : r.taken ≤ r.total := r.taken_le

/-- The value at the head. -/
def front : Option α := r.values[r.taken]?

/-- A value is put in. -/
def put (v : α) : Account α where
  values := r.values ++ [v]
  marks := r.marks
  takers := r.takers
  taken_le := Nat.le_trans r.taken_le (by simp)

/-- A value is taken, if there is one. Its slot is marked if a snapshot is in progress. -/
def take : Account α :=
  if left : r.taken < r.total then
    ⟨r.values, r.marks ++ [decide (r.takers ≠ 0)], r.takers, by rw [List.length_append]; exact left⟩
  else r

/-- A snapshot starts. -/
def enter : Account α := { r with takers := r.takers + 1 }

/-- A snapshot ends. -/
def leave : Account α := { r with takers := r.takers - 1 }

variable {r}

@[simp] theorem total_put (v : α) : (r.put v).total = r.total + 1 := by simp [put, total]

@[simp] theorem taken_put (v : α) : (r.put v).taken = r.taken := rfl

@[simp] theorem total_enter : r.enter.total = r.total := rfl

@[simp] theorem values_foldl_put (vs : List α) : (vs.foldl put r).values = r.values ++ vs := by
  induction vs generalizing r with
  | nil => exact (List.append_nil _).symm
  | cons v vs ih => rw [List.foldl_cons, ih, put, List.append_assoc, List.singleton_append]

@[simp] theorem marks_foldl_put (vs : List α) : (vs.foldl put r).marks = r.marks := by
  induction vs generalizing r with
  | nil => rfl
  | cons v vs ih => exact ih

@[simp] theorem takers_foldl_put (vs : List α) : (vs.foldl put r).takers = r.takers := by
  induction vs generalizing r with
  | nil => rfl
  | cons v vs ih => exact ih

theorem marks_take (left : r.taken < r.total) :
    r.take.marks = r.marks ++ [decide (r.takers ≠ 0)] := by
  rw [take, dif_pos left]

theorem take_of_eq (none : r.taken = r.total) : r.take = r := dif_neg (by omega)

@[simp] theorem values_take : r.take.values = r.values := by
  rw [take]
  split <;> rfl

@[simp] theorem total_take : r.take.total = r.total := by rw [total, values_take, total]

@[simp] theorem takers_take : r.take.takers = r.takers := by
  rw [take]
  split <;> rfl

theorem taken_take (left : r.taken < r.total) : r.take.taken = r.taken + 1 := by
  rw [taken, marks_take left, List.length_append, List.length_singleton, taken]

theorem front_of_eq (none : r.taken = r.total) : r.front = .none :=
  List.getElem?_eq_none (Nat.le_of_eq none.symm)

/-! ## The layout -/

variable (r) in
/-- The place of the value numbered `p`. -/
def cell (p : Nat) : Cell α :=
  match r.marks[p]?, r.values[p]? with
  | some true, _ => ⟨none, Slot.written.markTaken⟩
  | some false, _ => ⟨none, .written⟩
  | none, some v => ⟨some v, .written⟩
  | none, none => ⟨none, .empty⟩

variable (r) in
/-- The segment with index `g`. -/
def segment (g : Nat) : Segment α where
  index := g
  cells := .ofFn fun i : Fin Segment.size => r.cell (Segment.size * g + i)
  claimed := min (r.taken - Segment.size * g) Segment.size
  reserved := min (r.total - Segment.size * g) Segment.size
  next := if g < r.total / Segment.size then some (g + 1) else none

/-- What is reported when the segments with the indices `1` to `n` are linked. -/
def growth (n : Nat) : List Event :=
  (List.range' 1 n).flatMap fun j => [.grown j, .logged (.segmentAppended j)]

variable (r) in
/-- The queue. -/
def layout : Queue α where
  segments := .ofFn fun g : Fin (r.total / Segment.size + 1) => r.segment g
  head := r.taken / Segment.size
  tail := r.total / Segment.size
  takers := r.takers
  trace := ⟨growth (r.total / Segment.size)⟩

/-! ## Places -/

section

variable {p g i : Nat} {v : α}

theorem cell_of_marked (marked : r.marks[p]? = some true) :
    r.cell p = ⟨none, Slot.written.markTaken⟩ := by
  simp [cell, marked]

theorem cell_of_left (left : r.taken ≤ p) (value : r.values[p]? = some v) :
    r.cell p = ⟨some v, .written⟩ := by
  simp [cell, List.getElem?_eq_none (show r.marks.length ≤ p from left), value]

theorem cell_of_free (free : r.total ≤ p) : r.cell p = ⟨none, .empty⟩ := by
  have untaken : r.marks.length ≤ p := Nat.le_trans r.taken_le free
  have beyond : r.values.length ≤ p := free
  simp [cell, List.getElem?_eq_none untaken, List.getElem?_eq_none beyond]

theorem cell_put_total : (r.put v).cell r.total = ⟨some v, .written⟩ :=
  cell_of_left r.taken_le (by simp [put, total])

theorem cell_put_of_ne (other : p ≠ r.total) : (r.put v).cell p = r.cell p := by
  have value : (r.put v).values[p]? = r.values[p]? := by
    rw [put, List.getElem?_append]
    split
    · rfl
    · rename_i beyond
      rw [List.getElem?_eq_none (Nat.not_lt.mp beyond), List.getElem?_eq_none]
      simp only [total] at other
      simp only [List.length_singleton]
      omega
  simp only [cell, value]
  rfl

theorem cell_take_taken (left : r.taken < r.total) : r.take.cell r.taken =
    ⟨none, if r.takers ≠ 0 then Slot.written.markTaken else .written⟩ := by
  have mark : r.take.marks[r.taken]? = some (decide (r.takers ≠ 0)) := by
    simp [marks_take left, taken]
  by_cases takers : r.takers = 0
  · simp [cell, mark, takers]
  · simp [cell, mark, takers]

theorem cell_take_of_ne (left : r.taken < r.total) (other : p ≠ r.taken) :
    r.take.cell p = r.cell p := by
  have mark : r.take.marks[p]? = r.marks[p]? := by
    rw [marks_take left, List.getElem?_append]
    split
    · rfl
    · rename_i beyond
      rw [List.getElem?_eq_none (Nat.not_lt.mp beyond), List.getElem?_eq_none]
      simp only [taken] at other
      simp only [List.length_singleton]
      omega
  simp only [cell, mark, values_take]

@[simp] theorem index_segment : (r.segment g).index = g := rfl

theorem claimed_segment : (r.segment g).claimed =
    min (r.taken - Segment.size * g) Segment.size := rfl

theorem reserved_segment : (r.segment g).reserved =
    min (r.total - Segment.size * g) Segment.size := rfl

theorem next_segment : (r.segment g).next =
    if g < r.total / Segment.size then some (g + 1) else none := rfl

@[simp] theorem size_cells_segment : (r.segment g).cells.size = Segment.size := Array.size_ofFn

theorem cell_segment (hi : i < Segment.size) :
    (r.segment g).cell i = r.cell (Segment.size * g + i) := by
  simp [Segment.cell, segment, Array.getD_eq_getD_getElem?, hi]

/-- Segments whose slots agree. -/
theorem cells_segment_congr {r' : Account α} (same : ∀ i < Segment.size,
    r.cell (Segment.size * g + i) = r'.cell (Segment.size * g + i)) :
    (r.segment g).cells = (r'.segment g).cells := by
  refine Segment.ext_cells (by simp) fun i hi => ?_
  rw [size_cells_segment] at hi
  rw [cell_segment hi, cell_segment hi, same i hi]

/-- A segment that no value has come to is empty. -/
theorem segment_of_free (free : r.total ≤ Segment.size * g) : r.segment g = .empty g := by
  have taken := r.taken_le_total
  refine Segment.ext_segment rfl ?_ ?_ ?_ ?_
  · refine Segment.ext_cells (by simp) fun i hi => ?_
    rw [Segment.size_cells_empty] at hi
    rw [cell_segment hi, cell_of_free (Nat.le_add_right_of_le free), Segment.cell_empty]
  · rw [claimed_segment, Nat.sub_eq_zero_of_le (Nat.le_trans taken free), Nat.zero_min]
    rfl
  · rw [reserved_segment, Nat.sub_eq_zero_of_le free, Nat.zero_min]
    rfl
  · rw [next_segment, if_neg (Nat.not_lt.mpr (Nat.div_le_of_le_mul free))]
    rfl

@[simp] theorem size_segments_layout :
    r.layout.segments.size = r.total / Segment.size + 1 := Array.size_ofFn

theorem segment_layout (hg : g ≤ r.total / Segment.size) : r.layout.segment g = r.segment g := by
  simp [Queue.segment, layout, Array.getD_eq_getD_getElem?, Nat.lt_succ_of_le hg]

theorem cell_layout (hp : p ≤ r.total) :
    r.layout.cell (p / Segment.size) (p % Segment.size) = r.cell p := by
  rw [Queue.cell, segment_layout (Nat.div_le_div_right hp),
    cell_segment (Nat.mod_lt _ (by decide)), Nat.div_add_mod]

theorem tail_new : (new : Account α).total / Segment.size = 0 := Nat.zero_div _

/-- A new queue has one empty segment. -/
theorem layout_new : (new : Account α).layout = .empty := by
  have size : (new : Account α).layout.segments.size = 1 := by rw [size_segments_layout, tail_new]
  refine ext_segments size (fun g hg => ?_) ?_ tail_new rfl ?_
  · obtain rfl : g = 0 := Nat.lt_one_iff.mp hg
    rw [segment_layout (Nat.zero_le _), segment_of_free (Nat.zero_le _)]
    rfl
  · exact Nat.zero_div _
  · rw [layout, tail_new]
    rfl

theorem growth_succ (n : Nat) : growth (n + 1) =
    growth n ++ [.grown (n + 1), .logged (.segmentAppended (n + 1))] := by
  simp [growth, List.range'_1_concat, Nat.add_comm]

end

end Account

end SharedCollections.Queue

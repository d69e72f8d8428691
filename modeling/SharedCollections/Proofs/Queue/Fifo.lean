import SharedCollections.Proofs.Queue.Run
/-!
# First in, first out

After any run, the values that were taken are the first of those that were put in, in this order,
and the rest is what the queue shows. Where a value is depends on its number only: head and tail,
their cursors, the links between the segments and the growth that was reported are those of the
numbers of values that were put in and taken (`IsFifo`).
-/

namespace SharedCollections.Queue

variable {α : Type}

/-! ## What a run put in and took -/

/-- The values that a move puts in. -/
def added : Move α → List α
  | .put v => [v]
  | .extend vs => vs
  | _ => []

/-- The value that a move takes, which its answer tells. -/
def removed : Move α → Reply α → List α
  | .take, .value v => v.toList
  | _, _ => []

def enqueued (moves : List (Move α)) : List α := moves.flatMap added

def dequeued (moves : List (Move α)) (replies : List (Reply α)) : List α :=
  (List.zipWith removed moves replies).flatten

namespace Ideal

variable {x : Ideal α}

theorem values_move (m : Move α) : (x.move m).2.values = x.values ++ added m := by
  cases m with
  | put v => rfl
  | extend vs => rfl
  | special e => exact e.elim
  | _ => exact (List.append_nil _).symm

theorem values_answers (moves : List (Move α)) :
    (answers move x moves).2.values = x.values ++ enqueued moves := by
  induction moves generalizing x with
  | nil => exact (List.append_nil _).symm
  | cons m moves ih =>
    rw [answers, ih, values_move, List.append_assoc]
    rfl

/-- The values that were taken. -/
def out (x : Ideal α) : List α := x.values.take x.taken

theorem out_put (vs : List α) : (x.put vs).out = x.out :=
  List.take_append_of_le_length x.taken_le

theorem out_take : x.take.out = x.out ++ x.values[x.taken]?.toList := by
  rw [out, out, ← List.take_add_one]
  change x.values.take (min (x.taken + 1) x.values.length) = _
  rw [← List.take_eq_take_min]

theorem out_move (m : Move α) : (x.move m).2.out = x.out ++ removed m (x.move m).1 := by
  cases m with
  | put v => exact (out_put [v]).trans (List.append_nil _).symm
  | extend vs => exact (out_put vs).trans (List.append_nil _).symm
  | take => exact out_take
  | special e => exact e.elim
  | _ => exact (List.append_nil _).symm

theorem out_answers (moves : List (Move α)) :
    (answers move x moves).2.out = x.out ++ dequeued moves (answers move x moves).1 := by
  induction moves generalizing x with
  | nil => exact (List.append_nil _).symm
  | cons m moves ih =>
    rw [answers, ih, out_move, List.append_assoc]
    rfl

end Ideal

/-! ## The layout of a queue -/

/-- The segment that is reached from segment `g` by `n` links. -/
def behind (q : Queue α) (g : Nat) : Nat → Option Nat
  | 0 => some g
  | n + 1 => (q.behind g n).bind fun g => (q.segment g).next

/-- The queue `q` after `values` were put in and `taken` were taken. -/
structure IsFifo (q : Queue α) (values taken : List α) : Prop where
  /-- The values were taken in the order in which they were put in. -/
  taken_eq : taken = values.take taken.length
  /-- What is left is shown in the same order. -/
  toList : Queue.toList.run q = .ok (values.drop taken.length) q
  dequeue : ∃ q', dequeue?.run q = .ok values[taken.length]? q'
  peek : peek?.run q = .ok values[taken.length]? q
  none_iff : values[taken.length]? = none ↔ taken.length = values.length
  size : Queue.size.run q = .ok (values.length - taken.length) q
  isEmpty : Queue.isEmpty.run q = .ok (decide (taken.length = values.length)) q
  head_index : (q.segment q.head).index = taken.length / Segment.size
  low : (q.segment q.head).low = taken.length % Segment.size
  tail_index : (q.segment q.tail).index = values.length / Segment.size
  /-- The last slot of the tail that is reserved is the one before this. -/
  stop : (q.segment q.tail).stop = values.length % Segment.size
  /-- The segments from the head to the tail are linked with consecutive indices. -/
  linked : ∀ n, taken.length / Segment.size + n ≤ values.length / Segment.size →
    ∃ g, q.behind q.head n = some g ∧ (q.segment g).index = taken.length / Segment.size + n ∧
      (g = q.tail ↔ taken.length / Segment.size + n = values.length / Segment.size)
  next_tail : (q.segment q.tail).next = none
  grown : q.trace.toList = Account.growth (values.length / Segment.size)
  /-- Every value that fills a segment makes the queue report the next one. -/
  grows : ∀ v, ∃ q', (enqueue v).run q = .ok () q' ∧ q'.trace.toList = q.trace.toList ++
    if Segment.size ∣ values.length + 1 then
      [.grown ((values.length + 1) / Segment.size),
        .logged (.segmentAppended ((values.length + 1) / Segment.size))]
    else []

namespace Account

variable {r : Account α}

theorem behind_layout {n : Nat} (inside : r.taken / Segment.size + n ≤ r.total / Segment.size) :
    r.layout.behind r.layout.head n = some (r.taken / Segment.size + n) := by
  induction n with
  | zero => rfl
  | succ n ih =>
    have before : r.taken / Segment.size + n < r.total / Segment.size := inside
    rw [behind, ih (Nat.le_of_lt before), Option.bind_some, segment_layout (Nat.le_of_lt before),
      next_segment, if_pos before]
    rfl

/-- What is reported for one value more. -/
theorem growth_put (n : Nat) : growth ((n + 1) / Segment.size) = growth (n / Segment.size) ++
    if Segment.size ∣ n + 1 then
      [.grown ((n + 1) / Segment.size), .logged (.segmentAppended ((n + 1) / Segment.size))]
    else [] := by
  by_cases fills : Segment.size ∣ n + 1
  · have last : n % Segment.size + 1 = Segment.size := by
      simp only [Segment.size] at fills ⊢
      omega
    rw [if_pos fills, Segment.div_succ_of_eq last, growth_succ]
  · have inside : n % Segment.size + 1 ≠ Segment.size := by
      simp only [Segment.size] at fills ⊢
      omega
    rw [if_neg fills, Segment.div_succ_of_ne inside, List.append_nil]

/-- The layout of an account is that of a queue which is first in, first out. -/
theorem isFifo : r.layout.IsFifo r.values (r.values.take r.taken) := by
  have taken : (r.values.take r.taken).length = r.taken := by
    rw [List.length_take]
    exact Nat.min_eq_left r.taken_le
  have taken_le := r.taken_le_total
  constructor
  case taken_eq => rw [taken]
  case toList => rw [taken]; exact run_toList_layout
  case dequeue => rw [taken]; exact ⟨_, run_dequeue?_layout⟩
  case peek => rw [taken]; exact run_peek?_layout
  case none_iff =>
    rw [taken, List.getElem?_eq_none_iff]
    exact ⟨fun h => Nat.le_antisymm taken_le h, fun h => Nat.le_of_eq h.symm⟩
  case size => rw [taken]; exact run_size_layout
  case isEmpty => rw [taken]; exact run_isEmpty_layout
  case head_index => rw [taken, segment_layout_head, index_segment]
  case low => rw [taken]; exact low_head r
  case tail_index => rw [segment_layout_tail, index_segment]; rfl
  case stop => exact stop_tail r
  case linked =>
    intro n inside
    rw [taken] at inside ⊢
    refine ⟨_, behind_layout inside, ?_, Iff.rfl⟩
    rw [segment_layout inside, index_segment]
  case next_tail => rw [segment_layout_tail, next_segment, if_neg (Nat.lt_irrefl _)]
  case grown => rfl
  case grows =>
    intro v
    refine ⟨_, run_enqueue_layout, ?_⟩
    change growth ((r.put v).total / Segment.size) = _
    rw [total_put, growth_put]
    rfl

end Account

/-- Every run ends, and leaves a queue that is first in, first out. -/
theorem fifo (moves : List (Move α)) : ∃ (replies : List (Reply α)) (s : Run α),
    (follow move moves).run .start = .ok replies s ∧
    s.collection.IsFifo (enqueued moves) (dequeued moves replies) := by
  obtain ⟨s, run, r, shows⟩ := exists_follow_ideal Shows.new moves
  refine ⟨_, s, run, ?_⟩
  have values : r.values = enqueued moves := by
    rw [shows.values, Ideal.values_answers]
    rfl
  have taken : r.values.take r.taken = dequeued moves (Ideal.after moves).1 := by
    rw [shows.values, shows.taken]
    exact (Ideal.out_answers moves).trans (List.nil_append _)
  rw [shows.collection, ← values]
  exact taken ▸ r.isFifo

end SharedCollections.Queue

import SharedCollections.Proofs.Queue.Walk
import SharedCollections.Proofs.Sequence.Run
import SharedCollections.Queue.Session
/-!
# Runs on a queue

To its user a queue is the list of all values that were put in, the number of those that were taken,
and a view for each open cursor (`Ideal`). Every run answers as the ideal queue does
(`exists_follow_ideal`), and so a cursor gives what is left of the values that were there when it
was opened (`cursors_follow`).
-/

namespace SharedCollections.Queue

variable {α : Type}

abbrev Move (α : Type) := Sequence.Move Empty α

abbrev Run (α : Type) := Sequence.Run (Queue α) Cursor

def move : Move α → Action (Run α) (Reply α) := Sequence.Run.move Empty.elim

/-! ## The ideal queue -/

/-- A queue as its user sees it. -/
structure Ideal (α : Type) where
  /-- All values that were put in, in order. -/
  values : List α
  /-- How many values were taken. -/
  taken : Nat
  /-- What the cursors stand for. -/
  views : Opened View
  taken_le : taken ≤ values.length

namespace Ideal

def start : Ideal α := ⟨[], 0, .empty, Nat.zero_le _⟩

def put (vs : List α) (x : Ideal α) : Ideal α :=
  { x with
    values := x.values ++ vs
    taken_le := Nat.le_trans x.taken_le (by simp) }

def take (x : Ideal α) : Ideal α :=
  { x with
    taken := min (x.taken + 1) x.values.length
    taken_le := Nat.min_le_right _ _ }

def setView (i : Nat) (w : Option View) (x : Ideal α) : Ideal α :=
  { x with views := x.views.set i w }

/-- What a move answers, and the queue after it. -/
def move (x : Ideal α) : Move α → Reply α × Ideal α
  | .put v => (.done, x.put [v])
  | .extend vs => (.done, x.put vs)
  | .take => (.value x.values[x.taken]?, x.take)
  | .peek => (.value x.values[x.taken]?, x)
  | .isEmpty => (.flag (x.taken = x.values.length), x)
  | .size => (.count (x.values.length - x.taken), x)
  | .toList => (.values (x.values.drop x.taken), x)
  | .openCursor => (.done, { x with views := x.views.add ⟨x.taken, x.values.length⟩ })
  | .next i =>
    (.value ((x.views.get? i).bind fun w => (w.next x.taken).1.bind (x.values[·]?)),
      x.setView i ((x.views.get? i).map fun w => (w.next x.taken).2))
  | .closeCursor i => (.flag (x.views.get? i).isSome, x.setView i none)
  | .special e => e.elim

/-- The answers to moves on a new queue, and the queue after them. -/
def after (moves : List (Move α)) : List (Reply α) × Ideal α := answers move start moves

variable {x : Ideal α} {i : Nat} {w : View}

theorem move_next_of_none (closed : x.views.get? i = none) :
    x.move (.next i) = (.value none, x) := by
  rw [move, closed, Option.map_none, setView, Opened.set_eq_self closed]
  rfl

theorem move_next_of_some (view : x.views.get? i = some w) : x.move (.next i) =
    (.value ((w.next x.taken).1.bind (x.values[·]?)), x.setView i (some (w.next x.taken).2)) := by
  rw [move, view]
  rfl

theorem move_closeCursor_of_none (closed : x.views.get? i = none) :
    x.move (.closeCursor i) = (.flag false, x) := by
  rw [move, closed, setView, Opened.set_eq_self closed]
  rfl

theorem move_closeCursor_of_some (view : x.views.get? i = some w) :
    x.move (.closeCursor i) = (.flag true, x.setView i none) := by
  rw [move, view]
  rfl

end Ideal

/-! ## Runs answer as the ideal queue does -/

/-- A run shows its user the ideal queue `x`, and its queue has gone through `r`. -/
structure Shows (s : Run α) (r : Account α) (x : Ideal α) : Prop where
  collection : s.collection = r.layout
  values : r.values = x.values
  taken : r.taken = x.taken
  takers : r.takers = x.views.live
  cursors : Opened.Rel r.Follows s.cursors x.views

namespace Shows

variable {s : Run α} {cursors : Opened Cursor} {r : Account α} {x : Ideal α} {c : Cursor} {i : Nat}
  {w w' : View}

theorem new : Shows (Sequence.Run.start : Run α) .new .start :=
  ⟨Account.layout_new.symm, rfl, rfl, rfl, .empty⟩

theorem total (h : Shows s r x) : r.total = x.values.length := congrArg List.length h.values

theorem front (h : Shows s r x) : r.front = x.values[x.taken]? := by
  rw [Account.front, h.values, h.taken]

section

variable (h : Shows ⟨r.layout, cursors⟩ r x)

include h

theorem put (vs : List α) :
    Shows ⟨(vs.foldl Account.put r).layout, cursors⟩ (vs.foldl Account.put r) (x.put vs) where
  collection := rfl
  values := by rw [Account.values_foldl_put, h.values]; rfl
  taken := by rw [Account.taken, Account.marks_foldl_put]; exact h.taken
  takers := by rw [Account.takers_foldl_put]; exact h.takers
  cursors := h.cursors.mono fun _ _ _ _ follows => follows.foldl_put vs

theorem take : Shows ⟨r.take.layout, cursors⟩ r.take x.take where
  collection := rfl
  values := by rw [Account.values_take, h.values]; rfl
  taken := by
    have taken_le := r.taken_le_total
    change r.take.taken = min (x.taken + 1) x.values.length
    rw [← h.taken, ← h.total]
    rcases Nat.lt_or_eq_of_le taken_le with left | none
    · rw [Account.taken_take left]
      exact (Nat.min_eq_left left).symm
    · rw [Account.take_of_eq none]
      omega
  takers := by rw [Account.takers_take]; exact h.takers
  cursors := h.cursors.mono fun _ _ _ view follows =>
    follows.take (h.takers ▸ Nat.pos_iff_ne_zero.mp (Opened.live_pos view))

theorem openCursor (follows : r.enter.Follows c ⟨r.taken, r.total⟩) :
    Shows ⟨r.enter.layout, cursors.add c⟩ r.enter (x.move .openCursor).2 where
  collection := rfl
  values := h.values
  taken := h.taken
  takers := (congrArg (· + 1) h.takers).trans Opened.live_add.symm
  cursors := by
    rw [h.taken, h.total] at follows
    exact (h.cursors.mono fun _ _ _ _ => Account.Follows.enter).add follows

theorem setCursor (view : x.views.get? i = some w) (follows : r.Follows c w') :
    Shows ⟨r.layout, cursors.set i (some c)⟩ r (x.setView i (some w')) where
  collection := rfl
  values := h.values
  taken := h.taken
  takers := by
    rw [Ideal.setView, Opened.live_set view, h.takers]
    exact (Nat.sub_add_cancel (Opened.live_pos view)).symm
  cursors := h.cursors.set (.some follows) i

theorem closeCursor (view : x.views.get? i = some w) :
    Shows ⟨r.leave.layout, cursors.set i none⟩ r.leave (x.setView i none) where
  collection := rfl
  values := h.values
  taken := h.taken
  takers := by
    rw [Ideal.setView, Opened.live_set view, ← h.takers]
    rfl
  cursors := (h.cursors.mono fun _ _ _ _ => Account.Follows.leave).set .none i

end

/-- One move. -/
theorem move (h : Shows s r x) (m : Move α) : ∃ s', (Queue.move m).run s = .ok (x.move m).1 s' ∧
    ∃ r', Shows s' r' (x.move m).2 := by
  obtain ⟨q, cursors⟩ := s
  obtain rfl : q = r.layout := h.collection
  cases m with
  | put v =>
    have run := Sequence.Run.run_act (Account.run_enqueue_layout (r := r) (v := v)) cursors
    exact ⟨_, Action.run_bind_ok run _, _, h.put [v]⟩
  | extend vs =>
    have run := Sequence.Run.run_act (Account.run_enqueueAll_layout (r := r) vs) cursors
    exact ⟨_, Action.run_bind_ok run _, _, h.put vs⟩
  | take =>
    have run := Sequence.Run.run_act (Account.run_dequeue?_layout (r := r)) cursors
    rw [h.front] at run
    exact ⟨_, Action.run_bind_ok run _, _, h.take⟩
  | peek =>
    have run := Sequence.Run.run_act (Account.run_peek?_layout (r := r)) cursors
    rw [h.front] at run
    exact ⟨_, Action.run_bind_ok run _, _, h⟩
  | isEmpty =>
    have run := Sequence.Run.run_act (Account.run_isEmpty_layout (r := r)) cursors
    rw [h.taken, h.total] at run
    exact ⟨_, Action.run_bind_ok run _, _, h⟩
  | size =>
    have run := Sequence.Run.run_act (Account.run_size_layout (r := r)) cursors
    rw [h.taken, h.total] at run
    exact ⟨_, Action.run_bind_ok run _, _, h⟩
  | toList =>
    have run := Sequence.Run.run_act (Account.run_toList_layout (r := r)) cursors
    rw [h.values, h.taken] at run
    exact ⟨_, Action.run_bind_ok run _, _, h⟩
  | openCursor =>
    obtain ⟨c, opened, follows⟩ := Account.run_openCursor (r := r)
    have run := Sequence.Run.run_act opened cursors
    exact ⟨_, Action.run_bind_ok run _, _, h.openCursor follows⟩
  | next i =>
    cases view : x.views.get? i with
    | none =>
      rw [Ideal.move_next_of_none view]
      exact ⟨_, Sequence.Run.run_next_of_none (h.cursors.eq_none view), r, h⟩
    | some w =>
      obtain ⟨c, cursor, follows⟩ := h.cursors.exists_of_some view
      obtain ⟨c', run, follows'⟩ := follows.run_next?
      rw [Ideal.move_next_of_some view, ← h.taken, ← h.values]
      exact ⟨_, Sequence.Run.run_next_of_some cursor run, r, h.setCursor view follows'⟩
  | closeCursor i =>
    cases view : x.views.get? i with
    | none =>
      rw [Ideal.move_closeCursor_of_none view]
      exact ⟨_, Sequence.Run.run_closeCursor_of_none (h.cursors.eq_none view), r, h⟩
    | some w =>
      obtain ⟨c, cursor, -⟩ := h.cursors.exists_of_some view
      rw [Ideal.move_closeCursor_of_some view]
      exact ⟨_, Sequence.Run.run_closeCursor_of_some cursor Account.run_closeCursor, _,
        h.closeCursor view⟩
  | special e => exact e.elim

end Shows

/-- Every run answers as the ideal queue does. -/
theorem exists_follow_ideal {s : Run α} {r : Account α} {x : Ideal α} (h : Shows s r x)
    (moves : List (Move α)) :
    ∃ s', (follow move moves).run s = .ok (answers Ideal.move x moves).1 s' ∧
      ∃ r', Shows s' r' (answers Ideal.move x moves).2 :=
  exists_follow (R := fun s x => ∃ r, Shows s r x) (fun ⟨_, h⟩ m => h.move m) ⟨r, h⟩ moves

/-! ## What a cursor gives -/

namespace Ideal

variable {x : Ideal α} {i j : Nat} {w : View}

/-- A cursor has nothing more to give: it is closed, or at the end of its extent. -/
def Spent (i : Nat) (x : Ideal α) : Prop :=
  x.views.Holds (fun w => w.stop ≤ max w.position x.taken) i

theorem next_of_le (beyond : w.stop ≤ max w.position x.taken) : w.next x.taken = (none, w) :=
  if_neg (Nat.not_lt.mpr beyond)

theorem taken_le_take : x.taken ≤ x.take.taken := by
  have taken_le := x.taken_le
  change x.taken ≤ min (x.taken + 1) x.values.length
  omega

namespace Spent

theorem move_next (h : x.Spent i) : (x.move (.next i)).1 = .value none := by
  cases view : x.views.get? i with
  | none => rw [move_next_of_none view]
  | some w => rw [move_next_of_some view, next_of_le (h.get? w view)]; rfl

theorem move (h : x.Spent i) (m : Move α) : (x.move m).2.Spent i := by
  cases m with
  | openCursor => exact h.add _
  | next j =>
    refine h.set fun w same next => ?_
    subst same
    obtain ⟨w', view, rfl⟩ := Option.map_eq_some_iff.mp next
    rw [next_of_le (h.get? w' view)]
    exact h.get? w' view
  | closeCursor j => exact h.set fun _ _ none => nomatch none
  | take =>
    refine h.mono fun w beyond => Nat.le_trans beyond ?_
    have taken_le := taken_le_take (x := x)
    change _ ≤ max w.position x.take.taken
    omega
  | special e => exact e.elim
  | _ => exact h

end Spent

end Ideal

/-- Every run answers as the ideal queue does, and the queue counts the open cursors. In particular
a cursor gives the first value from its place on that has not been taken, if that one was there when
the cursor was opened; and if it was not, the cursor gives nothing, now and ever after. -/
theorem cursors_follow (moves : List (Move α)) :
    let x := (Ideal.after moves).2
    ∃ s : Run α, (follow move moves).run .start = .ok (Ideal.after moves).1 s ∧
      s.collection.takers = x.views.live ∧
      ∀ i w, x.views.get? i = some w →
        (max w.position x.taken < w.stop → ∃ v s', x.values[max w.position x.taken]? = some v ∧
          (move (.next i)).run s = .ok (.value (some v)) s') ∧
        (w.stop ≤ max w.position x.taken → ∀ later, ∃ replies s' s'',
          (follow move later).run s = .ok replies s' ∧
          (move (.next i)).run s' = .ok (.value none) s'') := by
  intro x
  obtain ⟨s, run, r, shows⟩ := exists_follow_ideal Shows.new moves
  change Shows s r x at shows
  refine ⟨s, run, ?_, fun i w view => ⟨fun before => ?_, fun beyond later => ?_⟩⟩
  · rw [shows.collection]
    exact shows.takers
  · obtain ⟨c, -, follows⟩ := shows.cursors.exists_of_some view
    have inside : max w.position x.taken < x.values.length := by
      rw [← shows.total]
      exact Nat.lt_of_lt_of_le before follows.stop_le
    have value := List.getElem?_eq_getElem inside
    obtain ⟨s', next, -⟩ := shows.move (.next i)
    refine ⟨_, s', value, ?_⟩
    rw [next, Ideal.move_next_of_some view, View.next, if_pos before, ← value]
    rfl
  · -- no value becomes available again, so a cursor that has come to its end stays there
    have spent : x.Spent i := .of_get? view beyond
    obtain ⟨s', run', r', shows'⟩ := exists_follow_ideal shows later
    obtain ⟨s'', next, -⟩ := shows'.move (.next i)
    refine ⟨_, s', s'', run', ?_⟩
    have spent' := answers_induction Ideal.Spent.move spent later
    rw [next, spent'.move_next]

end SharedCollections.Queue

import SharedCollections.Proofs.Queue.Snapshots
/-!
# The tail of a queue at work

The tail moves on to a segment only after it was linked, and only its linker moves it there. Until
then nobody has a slot in the new segment, because writers come to a segment by way of the tail; and
the head stays behind, because a taker that leaves a segment waits for the tail to leave it first.
So all slots that are reserved and not claimed lie between the ends (`Spanned`), and the tail moves
forward only.
-/

namespace SharedCollections.Queue

variable {α : Type} {q q' : Queue α} {l l' : Ledger α} {past : List (Nat × Deed α)} {t u g i : Nat}
  {v : α} {point point' : Point α} {signal : Signal}

/-! ## What a step does to the ends -/

theorem Dequeuing.ends_step (x : Dequeuing α) (q : Queue α) :
    ((x.step q).2.tail = q.tail ∧ (x.step q).2.head = q.head) ∨
      ∃ next v, x = .advancing next v := by
  cases x with
  | removing g x =>
    left
    cases x with
    | claiming low =>
      simp only [Dequeuing.step, Removing.step]
      split <;> exact ⟨rfl, rfl⟩
    | moving i =>
      simp only [Dequeuing.step, Removing.step]
      split <;> exact ⟨rfl, rfl⟩
    | _ => exact ⟨rfl, rfl⟩
  | awaitingNext g v =>
    left
    simp only [Dequeuing.step]
    split <;> exact ⟨rfl, rfl⟩
  | advancing next v => exact .inr ⟨next, v, rfl⟩
  | _ => exact .inl ⟨rfl, rfl⟩

theorem Enqueuing.ends_step (x : Enqueuing) (v : α) (q : Queue α) :
    ((x.step v q).2.tail = q.tail ∧ (x.step v q).2.head = q.head) ∨ ∃ g, x = .swinging g := by
  cases x with
  | checking g | reserving g =>
    left
    simp only [Enqueuing.step]
    split <;> exact ⟨rfl, rfl⟩
  | swinging g => exact .inr ⟨g, rfl⟩
  | _ => exact .inl ⟨rfl, rfl⟩

theorem Surveying.ends_step (x : Surveying) (q : Queue α) :
    (x.step q).2.tail = q.tail ∧ (x.step q).2.head = q.head := by
  cases x with
  | checkingHead x | checkingTail x | checkingLow x | checkingStop x =>
    simp only [Surveying.step, resurvey]
    split <;> exact ⟨rfl, rfl⟩
  | _ => exact ⟨rfl, rfl⟩

theorem Iterating.ends_step (x : Iterating α) (q : Queue α) :
    (x.step q).2.tail = q.tail ∧ (x.step q).2.head = q.head := by
  cases x with
  | scanning c =>
    simp only [Iterating.step]
    split
    · exact ⟨rfl, rfl⟩
    · split
      · exact ⟨rfl, rfl⟩
      · split <;> exact ⟨rfl, rfl⟩
  | looking c g i point => cases point <;> exact ⟨rfl, rfl⟩
  | hopping c g => exact ⟨rfl, rfl⟩

/-- An end moves by two kinds of steps. -/
theorem Point.ends_step (point : Point α) (q : Queue α) :
    ((point.step q).2.tail = q.tail ∧ (point.step q).2.head = q.head) ∨
      (∃ v g, point = .enqueuing v (.swinging g)) ∨
      ∃ next v, point = .dequeuing (.advancing next v) := by
  cases point with
  | enqueuing v x =>
    rcases x.ends_step v q with same | ⟨g, rfl⟩
    · exact .inl same
    · exact .inr (.inl ⟨v, g, rfl⟩)
  | dequeuing x =>
    rcases x.ends_step q with same | ⟨next, v, rfl⟩
    · exact .inl same
    · exact .inr (.inr ⟨next, v, rfl⟩)
  | peeking x =>
    left
    cases x with
    | looking g i x => cases x <;> exact ⟨rfl, rfl⟩
    | _ => exact ⟨rfl, rfl⟩
  | probing x => cases x <;> exact .inl ⟨rfl, rfl⟩
  | surveying x | opening x => exact .inl (x.ends_step q)
  | iterating x => exact .inl (x.ends_step q)
  | raising | closing => exact .inl ⟨rfl, rfl⟩

/-- A slot is reserved by one kind of step. -/
theorem Point.eq_of_reserved (deed : point.deed q = some (.reserved v g i)) :
    point = .enqueuing v (.reserving g) := by
  rw [Point.deed] at deed
  unfold Point.deedOf at deed
  split at deed
  · obtain ⟨⟩ := deed
    rfl
  all_goals cases deed

/-- A segment is linked by a thread with the last slot of the one before. -/
theorem Change.size_cases (change : Change t q l signal q' l') :
    q'.segments.size = q.segments.size ∨
      ∃ g v, l.puts[Segment.size * g + (Segment.size - 1)]? = some (t, v) ∧
        q.segments.size = g + 1 := by
  cases change with
  | still same => exact .inl same.size
  | raise | lower | swing | advance => exact .inl rfl
  | arrive | leave | mark | move | write | publish | reserve | claim =>
    exact .inl (size_modifySegment _ _)
  | link mine last => exact .inr ⟨_, _, mine, last⟩

/-! ## Between the ends -/

/-- The head does not pass the tail, and no slot behind the segment at the tail is reserved. -/
structure Spanned (q : Queue α) (l : Ledger α) : Prop where
  head_le : q.head ≤ q.tail
  puts_le : l.puts.length ≤ Segment.size * q.tail + Segment.size

/-- Thread `t` has linked a segment behind segment `g` and is to move the tail on from there. -/
structure Swings (q : Queue α) (l : Ledger α) (t g : Nat) : Prop where
  mine : ∃ v, l.puts[Segment.size * g + (Segment.size - 1)]? = some (t, v)
  linked : q.segments.size = g + 2
  tail : q.tail = g

/-- What thread `t` can be sure of as to the tail. -/
def Point.Reaches (q : Queue α) (l : Ledger α) (t : Nat) : Point α → Prop
  | enqueuing _ (.checking g) | enqueuing _ (.reserving g) => g ≤ q.tail
  | enqueuing _ (.swinging g') => ∃ g, g' = g + 1 ∧ Swings q l t g
  | dequeuing (.advancing next _) => next ≤ q.tail
  | _ => True

theorem Point.Reaches.mono (h : point.Reaches q l t) (tail_le : q.tail ≤ q'.tail)
    (swings : ∀ g, Swings q l t g → Swings q' l' t g) : point.Reaches q' l' t := by
  unfold Reaches at h ⊢
  split at h
  · exact h.trans tail_le
  · exact h.trans tail_le
  · exact h.imp fun g => And.imp_right (swings g)
  · exact h.trans tail_le
  · trivial

/-! ## Steps -/

/-- By no step the tail goes back. -/
theorem Point.Reaches.tail_le (reaches : point.Reaches q l t) : q.tail ≤ (point.step q).2.tail := by
  rcases point.ends_step q with same | ⟨v, g, rfl⟩ | ⟨next, v, rfl⟩
  · exact same.1.ge
  · obtain ⟨g, rfl, mine⟩ := reaches
    rw [mine.tail]
    exact Nat.le_succ g
  · exact le_rfl

section

variable (h : Laid q (ledger past)) (spanned : Spanned q (ledger past))
  (at_ : At q past t (some point)) (reaches : point.Reaches q (ledger past) t)

include h spanned at_ reaches

/-- While a segment is linked but not reached by the tail, no slot behind it is reserved: so nobody
else has a last slot that would let them link a segment, and nobody else is to move the tail. -/
theorem Swings.kept (mine : Swings q (ledger past) u g) (other : u ≠ t) :
    Swings (point.step q).2 (ledger (past ++ (point.deed q).toList.map (t, ·))) u g := by
  have change := (h.stepped at_).change
  obtain ⟨v, put⟩ := mine.mine
  refine ⟨⟨v, (change.grows h).puts _ _ put⟩, ?_, ?_⟩
  · rcases change.size_cases with same | ⟨g', v', theirs, last⟩
    · exact same.trans mine.linked
    · obtain ⟨inside, -⟩ := List.getElem?_eq_some_iff.mp theirs
      have puts_le := spanned.puts_le
      rw [mine.tail] at puts_le
      rw [mine.linked] at last
      simp only [Segment.size] at inside puts_le
      omega
  · rcases point.ends_step q with same | ⟨v', g', rfl⟩ | ⟨next, v', rfl⟩
    · exact same.1.trans mine.tail
    · obtain ⟨g', rfl, theirs⟩ := reaches
      obtain rfl : g = g' := mine.tail.symm.trans theirs.tail
      obtain ⟨v', put'⟩ := theirs.mine
      exact absurd (congrArg Prod.fst (Option.some.inj (put.symm.trans put'))) other
    · exact mine.tail

/-- A slot is reserved in a segment that the tail has reached. -/
theorem Laid.puts_le_step :
    (ledger (past ++ (point.deed q).toList.map (t, ·))).puts.length ≤
      Segment.size * q.tail + Segment.size := by
  have right := (h.stepped at_).right
  have puts_le := spanned.puts_le
  cases deed : point.deed q with
  | none =>
    rw [Option.toList_none, List.map_nil, List.append_nil]
    exact puts_le
  | some d =>
    rw [Option.toList_some, List.map_singleton]
    cases d with
    | called => rwa [ledger_called]
    | put => rwa [ledger_put]
    | reserved v g i =>
      obtain rfl := Point.eq_of_reserved deed
      obtain ⟨-, hi, number⟩ := right _ deed
      have le : Segment.size * g ≤ Segment.size * q.tail := Nat.mul_le_mul_left _ reaches
      rw [ledger_reserved, Ledger.reserve, List.length_append, ← number, List.length_singleton]
      omega
    | claimed => rwa [ledger_claimed]
    | answered => rwa [ledger_answered]
    | failed f => exact (right _ deed).elim

/-- The head moves on behind the tail, and a slot is reserved no later than the tail gets there. -/
theorem Laid.spanned_step :
    Spanned (point.step q).2 (ledger (past ++ (point.deed q).toList.map (t, ·))) where
  head_le := by
    rcases point.ends_step q with same | ⟨v, g, rfl⟩ | ⟨next, v, rfl⟩
    · rw [same.1, same.2]
      exact spanned.head_le
    · exact spanned.head_le.trans reaches.tail_le
    · exact reaches
  puts_le := (h.puts_le_step spanned at_ reaches).trans
    (Nat.add_le_add_right (Nat.mul_le_mul_left _ reaches.tail_le) _)

end

/-- Whoever links a segment finds the tail at the one before. -/
theorem Laid.swings_linked (h : Laid q l) (spanned : Spanned q l)
    (mine : l.puts[Segment.size * g + (Segment.size - 1)]? = some (t, v))
    (last : q.segments.size = g + 1) : Swings (q.linked g) l t g := by
  refine ⟨⟨v, mine⟩, by rw [size_linked, last], ?_⟩
  obtain ⟨inside, -⟩ := List.getElem?_eq_some_iff.mp mine
  have puts_le := spanned.puts_le
  have tail_lt := h.tail_lt
  change q.tail = g
  simp only [Segment.size] at inside puts_le
  omega

theorem Laid.reaches_enqueuing (h : Laid q (ledger past)) (spanned : Spanned q (ledger past))
    {x x' : Enqueuing} (at_ : At q past t (some (.enqueuing v x)))
    (reaches : Point.Reaches q (ledger past) t (.enqueuing v x))
    (step : (x.step v q).1.point? = some x') :
    Point.Reaches (x.step v q).2
      (ledger (past ++ ((Point.enqueuing v x).deed q).toList.map (t, ·))) t (.enqueuing v x') := by
  cases x with
  | loadingTail =>
    obtain ⟨⟩ := step
    exact Nat.le_refl q.tail
  | checking g =>
    by_cases full : (q.segment g).isFull = true
    · simp only [Enqueuing.step, full, if_true] at step
      obtain ⟨⟩ := step
      trivial
    · simp only [Enqueuing.step, full] at step ⊢
      obtain ⟨⟩ := step
      exact reaches
  | linking g =>
    obtain ⟨⟩ := step
    refine ⟨g, at_.2.2, ?_⟩
    change Swings (q.linked g) (ledger (past ++ [])) t g
    rw [List.append_nil]
    exact h.swings_linked spanned at_.2.1 at_.2.2
  | reserving | publishing =>
    simp only [Enqueuing.step] at step
    split at step <;> obtain ⟨⟩ := step
    all_goals trivial
  | writing | swinging | reporting =>
    obtain ⟨⟩ := step
    all_goals trivial

/-- A taker moves the head on when the tail has left the segment. -/
theorem Dequeuing.advancing_step {x : Dequeuing α} {next : Nat}
    (step : (x.step q).1.point? = some (.advancing next v)) :
    ∃ g, x = .awaitingTail g next v ∧ q.tail ≠ g := by
  cases x with
  | awaitingTail g next' v' =>
    by_cases stays : q.tail = g
    · simp only [Dequeuing.step, stays, if_true] at step
      cases step
    · simp only [Dequeuing.step, stays, if_false] at step
      obtain ⟨⟩ := step
      exact ⟨g, rfl, stays⟩
  | removing g x =>
    rcases eq : x.step g q with ⟨progress, q'⟩
    simp only [Dequeuing.step, eq] at step
    cases progress with
    | next | fail => cases step
    | done r => rcases r with _ | ⟨w, _ | _⟩ <;> cases step
  | checkingNext | awaitingNext =>
    simp only [Dequeuing.step] at step
    split at step <;> cases step
  | loadingHead | advancing => cases step

/-- What a thread can be sure of as to the tail holds of the point that it goes on to. -/
theorem Laid.reaches_step (h : Laid q (ledger past)) (spanned : Spanned q (ledger past))
    (at_ : At q past t (some point)) (reaches : point.Reaches q (ledger past) t)
    (step : (point.step q).1.point? = some point') :
    point'.Reaches (point.step q).2 (ledger (past ++ (point.deed q).toList.map (t, ·))) t := by
  cases point with
  | enqueuing v x =>
    obtain ⟨x', inner, rfl⟩ := Progress.lift_eq_next step
    exact h.reaches_enqueuing spanned at_ reaches inner
  | dequeuing x =>
    obtain ⟨x', inner, rfl⟩ := Progress.lift_eq_next step
    cases x' with
    | advancing next v =>
      obtain ⟨g, rfl, left⟩ := Dequeuing.advancing_step inner
      obtain ⟨-, leaves, rfl, -⟩ := at_
      have head_le := spanned.head_le
      rw [leaves.head] at head_le
      have tail : ((Point.dequeuing (.awaitingTail g (g + 1) v)).step q).2.tail = q.tail := rfl
      exact (Nat.lt_of_le_of_ne head_le left.symm).trans_eq tail.symm
    | _ => trivial
  | _ => cases Point.next step <;> trivial

/-! ## Runs -/

variable {μ : Type} {c : Crew (Queue α) (Point α) μ}

/-- What holds of a queue, its ends and its past at any moment. -/
structure Paced (c : Crew (Queue α) (Point α) μ) (past : List (Nat × Deed α)) : Prop extends
    Sure c past where
  spanned : Spanned c.shared (ledger past)
  reaches : ∀ (t : Nat) (point : Point α), c.point? t = some point →
    point.Reaches c.shared (ledger past) t

namespace Paced

theorem idle (memories : List μ) : Paced (Crew.idle (Queue.empty : Queue α) memories) [] where
  toSure := .idle memories
  spanned := ⟨Nat.le_refl 0, Nat.zero_le _⟩
  reaches t point busy := by
    obtain ⟨memory, here⟩ := Crew.point?_eq_some busy
    obtain ⟨_, -, ⟨⟩⟩ := List.mem_map.mp (List.mem_of_getElem? here)

variable {p : Program (Operation α) (Outcome α) μ} {memory : μ}

theorem begun (h : Paced c past) (here : c.threads[t]? = some ⟨none, memory⟩) (op : Operation α) :
    Paced ⟨c.shared, c.threads.set t ⟨some op.begin, memory⟩⟩
      (past ++ (observer.begun op).toList.map (t, ·)) where
  toSure := h.toSure.begun here op
  spanned := (ledger_begun op).symm ▸ h.spanned
  reaches u point busy := by
    rw [ledger_begun]
    by_cases same : t = u
    · subst same
      rw [Crew.point?_set_self here] at busy
      obtain ⟨⟩ := busy
      cases op <;> trivial
    · rw [Crew.point?_set_of_ne same] at busy
      exact h.reaches u point busy

theorem stepped (h : Paced c past) (here : c.threads[t]? = some ⟨some point, memory⟩) :
    Paced ⟨(point.step c.shared).2, c.threads.set t (p.after memory (point.step c.shared).1)⟩
      (past ++ (point.deed c.shared).toList.map (t, ·)) := by
  have at_ := h.stands t _ here
  have reaches := h.reaches t point (Crew.point?_of_busy here)
  refine ⟨h.toSure.stepped here, h.laid.spanned_step h.spanned at_ reaches, ?_⟩
  intro u point' busy
  by_cases same : t = u
  · subst same
    rw [Crew.point?_set_self here, Program.point_after] at busy
    exact h.laid.reaches_step h.spanned at_ reaches busy
  · rw [Crew.point?_set_of_ne same] at busy
    refine (h.reaches u point' busy).mono reaches.tail_le fun g mine => ?_
    exact mine.kept h.laid h.spanned at_ reaches (Ne.symm same)

theorem turn (h : Paced c past) (i : Nat) :
    Paced (c.turn machine p i) (past ++ (c.deed p observer i).toList.map (i, ·)) :=
  Crew.turn_cases past h (fun _ op here _ => h.begun here op) fun _ _ here => h.stepped here

theorem follow (h : Paced c past) (schedule : List Nat) :
    Paced (c.follow machine p schedule) (past ++ c.history machine p observer schedule) :=
  Crew.follow_invariant (P := Paced) (fun _ _ i h => h.turn i) schedule h

end Paced

end SharedCollections.Queue

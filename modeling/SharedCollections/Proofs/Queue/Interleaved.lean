import SharedCollections.Proofs.Queue.Deeds
/-!
# Threads on a queue, interleaved

Whatever the schedule, the deeds of the threads on a queue are right in view of the deeds before
them (`Sure`): slots are reserved and claimed in the order of their numbers, and the claim numbered
`n` gets the value of the reservation numbered `n`.
-/

namespace SharedCollections.Queue

variable {α : Type} {q q' : Queue α} {l : Ledger α} {past : List (Nat × Deed α)} {t u g i : Nat}
  {v : α}

/-! ## Steps -/

/-- What a step of thread `t` comes to. -/
structure Stepped (t : Nat) (q : Queue α) (past : List (Nat × Deed α)) (point : Point α) :
    Prop where
  change : Change t q (ledger past) point.signal (point.step q).2
    (ledger (past ++ (point.deed q).toList.map (t, ·)))
  right : ∀ d ∈ point.deed q, Right t past d
  stands : At (point.step q).2 (past ++ (point.deed q).toList.map (t, ·)) t
    (point.step q).1.point?

namespace Stepped

variable {point : Point α} {progress : Progress (Point α) (Outcome α)}

/-- A step that is a deed. -/
theorem deed {d : Deed α} (step : point.step q = (progress, q'))
    (deed : point.deedOf progress = some d)
    (change : Change t q (ledger past) point.signal q' (ledger (past ++ [(t, d)])))
    (right : Right t past d)
    (stands : At q' (past ++ [(t, d)]) t progress.point?) : Stepped t q past point := by
  have eq : point.deed q = some d := by rw [Point.deed, step, deed]
  constructor
  · rw [eq, step]
    exact change
  · intro d' hd
    rw [eq, Option.mem_some_iff] at hd
    exact hd ▸ right
  · rw [eq, step]
    exact stands

/-- A step that is none. -/
theorem quiet (step : point.step q = (progress, q')) (none : point.deedOf progress = none)
    (change : Change t q (ledger past) point.signal q' (ledger past))
    (stands : At q' past t progress.point?) :
    Stepped t q past point := by
  have eq : point.deed q = .none := by rw [Point.deed, step, none]
  constructor
  · rw [eq, step, Option.toList_none, List.map_nil, List.append_nil]
    exact change
  · intro d hd
    rw [eq] at hd
    cases hd
  · rw [eq, step, Option.toList_none, List.map_nil, List.append_nil]
    exact stands

end Stepped

/-- A step on the handshake word of a slot, as a change of that word. -/
theorem modifyCell_slot (f : Slot → Slot) :
    q.modifyCell g i (fun c => { c with slot := f (q.cell g i).slot }) =
      q.modifyCell g i fun c => { c with slot := f c.slot } :=
  modifyCell_congr rfl

/-! ## Putting values in -/

/-- A thread that writes to its slot can publish it next. -/
theorem Laid.reserved_write (h : Laid q l) (mine : Reserved q l t v g i) :
    Reserved (q.modifyCell g i fun c => { c with value := some v }) l t v g i ∧
      ((q.modifyCell g i fun c => { c with value := some v }).place
        (Segment.size * g + i)).value = some v := by
  have place := h.place_modifyCell mine.slot_lt mine.mine
    (fun c => { c with value := some v }) (Segment.size * g + i)
  rw [if_pos rfl] at place
  refine ⟨⟨mine.slot_lt, mine.mine, ?_, fun last => ?_⟩, ?_⟩
  · rw [place]
    exact mine.unwritten
  · exact (size_modifySegment _ _).trans (mine.last last)
  · rw [place]

/-- A thread that has done its last deed has nothing to put in or take. -/
theorem at_ended {d : Deed α} (ends : d.Ends) : At q (past ++ [(t, d)]) t none := by
  intro d' hd
  rw [lastDeed_append_self] at hd
  exact Option.mem_some_iff.mp hd ▸ ends

theorem Laid.stepped_enqueuing (h : Laid q (ledger past)) {point : Enqueuing}
    (at_ : At q past t (some (.enqueuing v point))) : Stepped t q past (.enqueuing v point) := by
  obtain ⟨last, here⟩ := at_
  cases point with
  | loadingTail => exact .quiet rfl rfl (.still .refl) ⟨last, h.tail_lt⟩
  | checking g =>
    by_cases full : (q.segment g).isFull = true
    · have step : (Point.enqueuing v (.checking g)).step q =
          (.next (.enqueuing v .loadingTail), q.emit (.retried .queueEnqueue)) := by
        simp [Point.step, Enqueuing.step, full]
      exact .quiet step rfl (.still (still_emit _)) ⟨last, trivial⟩
    · have step : (Point.enqueuing v (.checking g)).step q =
          (.next (.enqueuing v (.reserving g)), q) := by
        simp [Point.step, Enqueuing.step, full]
      exact .quiet step rfl (.still .refl) ⟨last, here⟩
  | reserving g =>
    by_cases room : (q.segment g).reserved < Segment.size
    · have step : (Point.enqueuing v (.reserving g)).step q =
          (.next (.enqueuing v (.writing g (q.segment g).reserved)),
            q.modifySegment g Segment.reserve) := by
        simp [Point.step, Enqueuing.step, room]
      obtain ⟨size, number⟩ := h.reserved_eq here room
      refine .deed step rfl ?_ ⟨last, room, number.symm⟩ ⟨lastDeed_append_self _, ?_⟩
      · rw [ledger_reserved]
        exact .reserve v here room
      · rw [ledger_reserved]
        refine ⟨room, ?_, ?_, fun _ => (size_modifySegment _ _).trans size⟩
        · rw [← number, Ledger.reserve, List.getElem?_concat_length]
        · rw [place_reserve]
          exact h.fresh _ number.le
    · have step : (Point.enqueuing v (.reserving g)).step q =
          (.next (.enqueuing v .loadingTail),
            (q.modifySegment g Segment.reserve).emit (.retried .queueEnqueue)) := by
        simp [Point.step, Enqueuing.step, room]
      exact .quiet step rfl (.still ((still_reserve (Nat.not_lt.mp room)).emit _)) ⟨last, trivial⟩
  | writing g i => exact .quiet rfl rfl (.write here) ⟨last, h.reserved_write here⟩
  | publishing g i =>
    by_cases full : i + 1 = Segment.size
    · have step : (Point.enqueuing v (.publishing g i)).step q = (.next (.enqueuing v (.linking g)),
          q.modifyCell g i fun c => { c with slot := c.slot.markWritten }) := by
        simp [Point.step, Enqueuing.step, full]
      refine .quiet step rfl (.publish here.1 here.2) ⟨⟨g, i, last⟩, ?_, ?_⟩
      · rw [show Segment.size - 1 = i by omega]
        exact here.1.mine
      · exact (size_modifySegment _ _).trans (here.1.last full)
    · have step : (Point.enqueuing v (.publishing g i)).step q = (.done .done,
          q.modifyCell g i fun c => { c with slot := c.slot.markWritten }) := by
        simp [Point.step, Enqueuing.step, full]
      refine .deed step rfl ?_ ⟨v, g, i, last⟩ (at_ended trivial)
      rw [ledger_put]
      exact .publish here.1 here.2
  | linking g =>
    refine .quiet rfl rfl (.link here.1 here.2) ⟨last, ?_⟩
    exact Nat.lt_of_lt_of_eq (Nat.lt_succ_self _) size_linked.symm
  | swinging g => exact .quiet rfl rfl (.swing here) ⟨last, trivial⟩
  | reporting g =>
    refine .deed rfl rfl ?_ ⟨v, last⟩ (at_ended trivial)
    rw [ledger_put]
    exact .still ((still_emit _).emit _)

/-! ## Taking values -/

theorem Claimed.of_alike (h : Claimed q l t g i) (same : Alike q q') : Claimed q' l t g i where
  slot_lt := h.slot_lt
  mine := h.mine
  last last := same.head.trans (h.last last)
  intact u w put written := by
    rw [same.value]
    exact h.intact u w put (same.written _ ▸ written)

/-- The thread that has claimed a written slot finds the value there that was to go there. -/
theorem Laid.value_of_claimed (h : Laid q l) (mine : Claimed q l t g i)
    (written : (q.place (Segment.size * g + i)).slot.isWritten = true) :
    ∃ u v, l.puts[Segment.size * g + i]? = some (u, v) ∧ (q.cell g i).value = some v := by
  obtain ⟨u, v, put⟩ := h.reserved_of_claimed mine.mine
  rw [cell_eq_place mine.slot_lt]
  exact ⟨u, v, put, mine.intact u v put written⟩

/-- A thread that finds nothing between the cursors of a segment has caught up, unless there is a
segment behind. -/
theorem Laid.caughtUp (h : Laid q (ledger past)) (called : (t, .called .dequeue) ∈ past)
    (le : g ≤ q.head) {low : Nat} (low_le : low ≤ (q.segment g).claimed)
    (none : ¬low < (q.segment g).stop) :
    g + 1 < q.segments.size ∨ CaughtUp t past := by
  by_cases behind : g + 1 < q.segments.size
  · exact .inl behind
  · refine .inr ⟨past, [], (List.append_nil _).symm, called, nofun, ?_⟩
    have hg := le.trans_lt h.head_lt
    obtain ⟨-, -, stop, claimed, -⟩ := h.fits g hg
    have size_le := h.size_le
    have le_size := h.le_size
    have claims_le := h.claims_le
    have head_le := h.head_le
    simp only [Segment.size] at stop claimed size_le le_size head_le
    omega

/-- A thread that claims a slot is the only one to find its value there. -/
theorem Laid.stepped_claiming (h : Laid q (ledger past)) {low : Nat}
    (at_ : At q past t (some (.dequeuing (.removing g (.claiming low))))) :
    Stepped t q past (.dequeuing (.removing g (.claiming low))) := by
  obtain ⟨last, le, here⟩ := at_
  by_cases same : (q.segment g).claimed = low
  · have step : (Point.dequeuing (.removing g (.claiming low))).step q =
        (.next (.dequeuing (.removing g (.awaiting low))),
          q.modifySegment g fun s => { s with claimed := s.claimed + 1 }) := by
      rw [← modifySegment_congr (f := fun s => { s with claimed := low + 1 }) (by rw [same])]
      simp [Point.step, Dequeuing.step, Removing.step, same]
    subst same
    have left := here.2
    obtain ⟨head, number, more⟩ := h.claimed_eq le left
    have slot_lt := left.trans_le (q.segment g).stop_le_size
    refine .deed step rfl ?_ ⟨last, slot_lt, number.symm, more⟩
      ⟨lastDeed_append_self _, le, ?_⟩
    · rw [ledger_claimed]
      exact .claim le left
    · rw [ledger_claimed]
      refine ⟨slot_lt, ?_, fun _ => head, fun u w put written => ?_⟩
      · rw [← number, Ledger.claim, List.getElem?_concat_length]
      · rw [place_claim] at written ⊢
        exact h.intact _ number.le u w put written
  · have step : (Point.dequeuing (.removing g (.claiming low))).step q =
        (.next (.dequeuing (.removing g .readingLow)), q.emit (.retried .queueDequeue)) := by
      simp [Point.step, Dequeuing.step, Removing.step, same]
    exact .quiet step rfl (.still (still_emit _)) ⟨last, le, trivial⟩

/-- A thread marks its slot and waits for its readers to leave. -/
theorem stepped_taking {point : Slot.Taking}
    (at_ : At q past t (some (.dequeuing (.removing g (.taking i point))))) :
    Stepped t q past (.dequeuing (.removing g (.taking i point))) := by
  obtain ⟨last, le, here⟩ := at_
  cases point with
  | marking =>
    have step : (Point.dequeuing (.removing g (.taking i .marking))).step q =
        (.next (.dequeuing (.removing g
          (if (q.cell g i).slot.isRead then .taking i .waiting else .moving i))),
          q.modifyCell g i fun c => { c with slot := c.slot.markTaken }) := by
      rw [← modifyCell_slot Slot.markTaken]
      simp only [Point.step, Dequeuing.step, Removing.step, stepSlot, Slot.Taking.step]
      split <;> rfl
    have alike : Alike q (q.modifyCell g i fun c => { c with slot := c.slot.markTaken }) :=
      alike_markTaken
    refine .quiet step rfl (.mark here.1) ?_
    split <;> exact ⟨last, le, here.1.of_alike alike, (alike.written _).trans here.2⟩
  | waiting =>
    have step : (Point.dequeuing (.removing g (.taking i .waiting))).step q =
        (.next (.dequeuing (.removing g
          (if (q.cell g i).slot.isRead then .taking i .waiting else .moving i))), q) := by
      simp only [Point.step, Dequeuing.step, Removing.step, stepSlot, Slot.Taking.step]
      rw [modifyCell_eq_self rfl]
      split <;> rfl
    refine .quiet step rfl (.still .refl) ?_
    split <;> exact ⟨last, le, here⟩

/-- A thread moves the value that was to go there out of its slot. -/
theorem Laid.stepped_moving (h : Laid q (ledger past))
    (at_ : At q past t (some (.dequeuing (.removing g (.moving i))))) :
    Stepped t q past (.dequeuing (.removing g (.moving i))) := by
  obtain ⟨last, le, here⟩ := at_
  obtain ⟨u, v, put, value⟩ := h.value_of_claimed here.1 here.2
  by_cases full : i + 1 = Segment.size
  · have step : (Point.dequeuing (.removing g (.moving i))).step q =
        (.next (.dequeuing (.awaitingNext g v)),
          q.modifyCell g i fun c => { c with value := none }) := by
      simp [Point.step, Dequeuing.step, Removing.step, value, full]
    obtain rfl : i = Segment.size - 1 := by omega
    exact .quiet step rfl (.move here.1 here.2)
      ⟨last, here.1.mine, here.1.last full, u, put⟩
  · have step : (Point.dequeuing (.removing g (.moving i))).step q =
        (.done (.taken (some v)), q.modifyCell g i fun c => { c with value := none }) := by
      simp [Point.step, Dequeuing.step, Removing.step, value, full]
    refine .deed step rfl ?_ ⟨g, i, u, last, put⟩ (at_ended trivial)
    rw [ledger_answered]
    exact .move here.1 here.2

theorem Laid.stepped_removing (h : Laid q (ledger past)) {point : Removing}
    (at_ : At q past t (some (.dequeuing (.removing g point)))) :
    Stepped t q past (.dequeuing (.removing g point)) := by
  cases point with
  | claiming => exact h.stepped_claiming at_
  | taking => exact stepped_taking at_
  | moving => exact h.stepped_moving at_
  | readingLow =>
    obtain ⟨last, le, -⟩ := at_
    exact .quiet rfl rfl (.still .refl) ⟨last, le, Nat.min_le_left _ _⟩
  | readingStop low =>
    obtain ⟨last, le, here⟩ := at_
    by_cases left : low < (q.segment g).stop
    · have step : (Point.dequeuing (.removing g (.readingStop low))).step q =
          (.next (.dequeuing (.removing g (.claiming low))), q) := by
        simp [Point.step, Dequeuing.step, Removing.step, left]
      exact .quiet step rfl (.still .refl) ⟨last, le, here, left⟩
    · have step : (Point.dequeuing (.removing g (.readingStop low))).step q =
          (.next (.dequeuing (.checkingNext g)), q) := by
        simp [Point.step, Dequeuing.step, Removing.step, left]
      exact .quiet step rfl (.still .refl)
        ⟨last, le, h.caughtUp (mem_of_lastDeed last) le here left⟩
  | awaiting i =>
    obtain ⟨last, le, here⟩ := at_
    by_cases written : (q.cell g i).slot.isWritten = true
    · have step : (Point.dequeuing (.removing g (.awaiting i))).step q =
          (.next (.dequeuing (.removing g (.asking i))), q) := by
        simp [Point.step, Dequeuing.step, Removing.step, written]
      rw [cell_eq_place here.slot_lt] at written
      exact .quiet step rfl (.still .refl) ⟨last, le, here, written⟩
    · have step : (Point.dequeuing (.removing g (.awaiting i))).step q =
          (.next (.dequeuing (.removing g (.awaiting i))), q) := by
        simp [Point.step, Dequeuing.step, Removing.step, written]
      exact .quiet step rfl (.still .refl) ⟨last, le, here⟩
  | asking i =>
    obtain ⟨last, le, here⟩ := at_
    by_cases none : q.takers = 0
    · have step : (Point.dequeuing (.removing g (.asking i))).step q =
          (.next (.dequeuing (.removing g (.moving i))), q) := by
        simp [Point.step, Dequeuing.step, Removing.step, none]
      exact .quiet step rfl (.still .refl) ⟨last, le, here⟩
    · have step : (Point.dequeuing (.removing g (.asking i))).step q =
          (.next (.dequeuing (.removing g (.taking i .marking))), q) := by
        simp [Point.step, Dequeuing.step, Removing.step, none]
      exact .quiet step rfl (.still .refl) ⟨last, le, here⟩

theorem Laid.stepped_dequeuing (h : Laid q (ledger past)) {point : Dequeuing α}
    (at_ : At q past t (some (.dequeuing point))) : Stepped t q past (.dequeuing point) := by
  cases point with
  | removing g point => exact h.stepped_removing at_
  | loadingHead =>
    obtain ⟨last, -⟩ := at_
    exact .quiet rfl rfl (.still .refl) ⟨last, le_rfl, trivial⟩
  | checkingNext g =>
    obtain ⟨last, le, here⟩ := at_
    have next := (h.fits g (le.trans_lt h.head_lt)).next
    by_cases behind : g + 1 < q.segments.size
    · rw [if_pos behind] at next
      have step : (Point.dequeuing (.checkingNext g)).step q =
          (.next (.dequeuing .loadingHead), q) := by
        simp [Point.step, Dequeuing.step, next]
      exact .quiet step rfl (.still .refl) ⟨last, trivial⟩
    · rw [if_neg behind] at next
      have step : (Point.dequeuing (.checkingNext g)).step q = (.done (.taken none), q) := by
        simp [Point.step, Dequeuing.step, next]
      refine .deed step rfl ?_ ⟨last, here.resolve_left behind⟩ (at_ended trivial)
      rw [ledger_answered]
      exact .still .refl
  | awaitingNext g v =>
    obtain ⟨last, here⟩ := at_
    have next := (h.fits g (here.head.ge.trans_lt h.head_lt)).next
    by_cases behind : g + 1 < q.segments.size
    · rw [if_pos behind] at next
      have step : (Point.dequeuing (.awaitingNext g v)).step q =
          (.next (.dequeuing (.awaitingTail g (g + 1) v)), q) := by
        simp [Point.step, Dequeuing.step, next]
      exact .quiet step rfl (.still .refl) ⟨last, here, rfl, behind⟩
    · rw [if_neg behind] at next
      have step : (Point.dequeuing (.awaitingNext g v)).step q =
          (.next (.dequeuing (.awaitingNext g v)), q) := by
        simp [Point.step, Dequeuing.step, next]
      exact .quiet step rfl (.still .refl) ⟨last, here⟩
  | awaitingTail g next v =>
    obtain ⟨last, here, rfl, behind⟩ := at_
    by_cases tail : q.tail = g
    · have step : (Point.dequeuing (.awaitingTail g (g + 1) v)).step q =
          (.next (.dequeuing (.awaitingNext g v)), q) := by
        simp [Point.step, Dequeuing.step, tail]
      exact .quiet step rfl (.still .refl) ⟨last, here⟩
    · have step : (Point.dequeuing (.awaitingTail g (g + 1) v)).step q =
          (.next (.dequeuing (.advancing (g + 1) v)), q) := by
        simp [Point.step, Dequeuing.step, tail]
      exact .quiet step rfl (.still .refl) ⟨last, g, here, rfl, behind⟩
  | advancing next v =>
    obtain ⟨last, g, here, rfl, behind⟩ := at_
    obtain rfl := here.head
    obtain ⟨u, put⟩ := here.value
    refine .deed rfl rfl ?_ ⟨q.head, Segment.size - 1, u, last, put⟩ (at_ended trivial)
    rw [ledger_answered]
    exact .advance here behind

/-! ## Other operations -/

theorem change_looking (point : Looking α) :
    Change t q l (point.signal g i) (point.step g i q).2 l := by
  cases point with
  | awaiting => exact .still .refl
  | reading point =>
    cases point with
    | arriving =>
      simp only [Looking.step, stepSlot, Slot.Reading.step]
      rw [modifyCell_slot Slot.arrive]
      exact .arrive g i
    | looking =>
      simp only [Looking.step, stepSlot, Slot.Reading.step]
      rw [modifyCell_eq_self rfl]
      exact .still .refl
    | leaving seen =>
      cases seen <;> simp only [Looking.step, stepSlot, Slot.Reading.step]
      all_goals
        rw [modifyCell_slot Slot.leave]
        exact .leave g i

theorem change_peeking (point : Peeking α) : Change t q l point.signal (point.step q).2 l := by
  cases point with
  | raising => exact .raise
  | lowering => exact .lower
  | looking g i point => exact change_looking point
  | _ => exact .still .refl

theorem change_probing (point : Probing) : Change t q l .none (point.step q).2 l := by
  cases point with
  | readingStop g low =>
    simp only [Probing.step]
    exact .still .refl
  | _ => exact .still .refl

theorem change_surveying (point : Surveying) : Change t q l .none (point.step q).2 l := by
  cases point with
  | checkingHead | checkingTail | checkingLow | checkingStop =>
    simp only [Surveying.step, resurvey]
    split
    · exact .still .refl
    · exact .still (still_emit _)
  | _ => exact .still .refl

theorem change_iterating (point : Iterating α) :
    Change t q l point.signal (point.step q).2 l := by
  cases point with
  | scanning c =>
    simp only [Iterating.step]
    split
    · exact .still .refl
    · split
      · exact .still .refl
      · split <;> exact .still .refl
  | looking c g i point => exact change_looking point
  | hopping => exact .still .refl

theorem at_lift {π ρ : Type} {progress : Progress π ρ} {wrap : π → Point α} {finish : ρ → Outcome α}
    (ended : ∀ d ∈ lastDeed t past, d.Ends) (wrapped : ∀ point, At q past t (some (wrap point))) :
    At q past t (progress.lift wrap fun r => .done (finish r)).point? := by
  cases progress with
  | next point => exact wrapped point
  | done | fail => exact ended

/-- Every step is a change that the thread may make at its point, and after it the thread stands
where it says it does. -/
theorem Laid.stepped (h : Laid q (ledger past)) {point : Point α}
    (at_ : At q past t (some point)) : Stepped t q past point := by
  cases point with
  | enqueuing v point => exact h.stepped_enqueuing at_
  | dequeuing point => exact h.stepped_dequeuing at_
  | peeking point =>
    exact .quiet rfl rfl (change_peeking point) (at_lift at_.1 fun _ => ⟨at_.1, trivial⟩)
  | probing point =>
    exact .quiet rfl rfl (change_probing point) (at_lift at_.1 fun _ => ⟨at_.1, trivial⟩)
  | surveying point =>
    exact .quiet rfl rfl (change_surveying point) (at_lift at_.1 fun _ => ⟨at_.1, trivial⟩)
  | raising => exact .quiet rfl rfl .raise ⟨at_.1, trivial⟩
  | opening point =>
    exact .quiet rfl rfl (change_surveying point) (at_lift at_.1 fun _ => ⟨at_.1, trivial⟩)
  | iterating point =>
    exact .quiet rfl rfl (change_iterating point) (at_lift at_.1 fun _ => ⟨at_.1, trivial⟩)
  | closing => exact .quiet rfl rfl .lower at_.1

/-! ## Runs -/

variable {μ : Type} {c : Crew (Queue α) (Point α) μ}

/-- What holds of a queue and its past at any moment. -/
structure Sure (c : Crew (Queue α) (Point α) μ) (past : List (Nat × Deed α)) : Prop where
  laid : Laid c.shared (ledger past)
  stands : ∀ t thread, c.threads[t]? = some thread → At c.shared past t thread.point
  right : AllDeeds Right past

theorem Sure.idle (memories : List μ) : Sure (Crew.idle (Queue.empty : Queue α) memories) [] where
  laid := .empty
  stands t thread here := by
    obtain ⟨memory, -, rfl⟩ := List.mem_map.mp (List.mem_of_getElem? here)
    exact nofun
  right := allDeeds_nil

theorem At.begun (at_ : At q past t none) (op : Operation α) :
    (∀ d ∈ observer.begun op, Right t past d) ∧
      At q (past ++ (observer.begun op).toList.map (t, ·)) t (some op.begin) := by
  cases op with
  | enqueue | dequeue =>
    refine ⟨?_, lastDeed_append_self _, trivial⟩
    rintro _ ⟨⟩
    exact at_
  | _ =>
    refine ⟨nofun, ?_⟩
    change At q (past ++ []) t _
    rw [List.append_nil]
    exact ⟨at_, trivial⟩

theorem change_begun (op : Operation α) : Change t q (ledger past) .none q
    (ledger (past ++ (observer.begun op).toList.map (t, ·))) :=
  (ledger_begun op).symm ▸ .still .refl

/-- A thread that does something stays sure, and so do the others. -/
theorem Sure.set (h : Sure c past) {signal : Signal} {thread : Thread (Point α) μ}
    {d : Option (Deed α)}
    (change : Change t c.shared (ledger past) signal q' (ledger (past ++ d.toList.map (t, ·))))
    (right : ∀ x ∈ d, Right t past x)
    (stands : At q' (past ++ d.toList.map (t, ·)) t thread.point) :
    Sure ⟨q', c.threads.set t thread⟩ (past ++ d.toList.map (t, ·)) where
  laid := change.laid h.laid
  right := h.right.append right
  stands u other here := by
    by_cases same : t = u
    · subst same
      obtain ⟨-, rfl⟩ : t < c.threads.length ∧ thread = other := by
        simpa [List.getElem?_set] using here
      exact stands
    · rw [List.getElem?_set_ne same] at here
      refine (h.stands u other here).kept (change.grows h.laid)
        (change.rely h.laid (Ne.symm same)) ?_ h.laid.head_lt
      intro x hx
      obtain ⟨_, -, rfl⟩ := List.mem_map.mp hx
      exact same

section

variable {p : Program (Operation α) (Outcome α) μ} {memory : μ}

theorem Sure.begun (h : Sure c past) (here : c.threads[t]? = some ⟨none, memory⟩)
    (op : Operation α) :
    Sure ⟨c.shared, c.threads.set t ⟨some op.begin, memory⟩⟩
      (past ++ (observer.begun op).toList.map (t, ·)) := by
  obtain ⟨right, stands⟩ := (h.stands t _ here).begun op
  exact h.set (change_begun op) right stands

theorem Sure.stepped (h : Sure c past) {point : Point α}
    (here : c.threads[t]? = some ⟨some point, memory⟩) :
    Sure ⟨(point.step c.shared).2, c.threads.set t (p.after memory (point.step c.shared).1)⟩
      (past ++ (point.deed c.shared).toList.map (t, ·)) := by
  obtain ⟨change, right, stands⟩ := h.laid.stepped (h.stands t _ here)
  refine h.set change right ?_
  rw [Program.point_after]
  exact stands

theorem Sure.turn (h : Sure c past) (i : Nat) :
    Sure (c.turn machine p i) (past ++ (c.deed p observer i).toList.map (i, ·)) :=
  Crew.turn_cases past h (fun _ op here _ => h.begun here op) fun _ _ here => h.stepped here

/-- Whatever the schedule, threads stay sure. -/
theorem Sure.follow (h : Sure c past) (schedule : List Nat) :
    Sure (c.follow machine p schedule) (past ++ c.history machine p observer schedule) :=
  Crew.follow_invariant (P := Sure) (fun _ _ i h => h.turn i) schedule h

end

/-! ## Slots in order -/

def reservedSlots (past : List (Nat × Deed α)) : List (Nat × Nat) :=
  past.filterMap fun
    | (_, .reserved _ g i) => some (g, i)
    | _ => none

def claimedSlots (past : List (Nat × Deed α)) : List (Nat × Nat) :=
  past.filterMap fun
    | (_, .claimed g i) => some (g, i)
    | _ => none

/-- The first `n` slots of all segments, by segment. -/
def slots (n : Nat) : List (Nat × Nat) :=
  (List.range n).map fun k => (k / Segment.size, k % Segment.size)

theorem slots_succ {n : Nat} (hi : i < Segment.size) (here : Segment.size * g + i = n) :
    slots (n + 1) = slots n ++ [(g, i)] := by
  have segment : n / Segment.size = g := by
    simp only [Segment.size] at hi here ⊢
    omega
  have slot : n % Segment.size = i := by
    simp only [Segment.size] at hi here ⊢
    omega
  rw [slots, List.range_succ, List.map_append, List.map_singleton, segment, slot]
  rfl

/-- Slots are reserved in the order of their numbers, and so they are claimed. -/
theorem slots_eq_of_right (h : AllDeeds Right past) :
    reservedSlots past = slots (ledger past).puts.length ∧
      claimedSlots past = slots (ledger past).claims.length := by
  refine h.induction (P := fun past =>
    reservedSlots past = slots (ledger past).puts.length ∧
      claimedSlots past = slots (ledger past).claims.length) ⟨rfl, rfl⟩ ?_
  intro past t d _ ih right
  obtain ⟨reserved, claimed⟩ := ih
  rw [reservedSlots, claimedSlots, List.filterMap_append, List.filterMap_append]
  change reservedSlots past ++ _ = _ ∧ claimedSlots past ++ _ = _
  rw [reserved, claimed]
  cases d with
  | reserved v g i =>
    obtain ⟨-, hi, here⟩ := right
    rw [ledger_reserved, Ledger.reserve, List.length_append]
    exact ⟨(slots_succ hi here).symm, List.append_nil _⟩
  | claimed g i =>
    obtain ⟨-, hi, here, -⟩ := right
    rw [ledger_claimed, Ledger.claim, List.length_append]
    exact ⟨List.append_nil _, (slots_succ hi here).symm⟩
  | called =>
    rw [ledger_called]
    exact ⟨List.append_nil _, List.append_nil _⟩
  | put =>
    rw [ledger_put]
    exact ⟨List.append_nil _, List.append_nil _⟩
  | answered =>
    rw [ledger_answered]
    exact ⟨List.append_nil _, List.append_nil _⟩
  | failed => cases right

/-- Let any threads work on a queue, each by a program of its own, and interleave their steps by any
schedule. The reservations go to the slots in the order of their numbers, and so do the claims, so
none is handed out or claimed twice. Every deed is right in view of the deeds before it: a call that
puts a value in reserves one slot for it before it ends, the thread with the claim numbered `n`
answers with the value of the reservation numbered `n`, a call answers that there is no value only
if at some moment since it began every slot that was reserved had been claimed, and no call fails. A
thread without a call has ended those that it began. There is a segment for every 32 reservations,
and the indices of segments count up. -/
theorem fifo_interleaved {μ : Type} (p : Program (Operation α) (Outcome α) μ) (memories : List μ)
    (schedule : List Nat) :
    let start : Crew (Queue α) (Point α) μ := Crew.idle Queue.empty memories
    let q := (start.follow machine p schedule).shared
    let past := start.history machine p observer schedule
    reservedSlots past = slots (ledger past).puts.length ∧
    claimedSlots past = slots (ledger past).claims.length ∧
    (∀ before t d after, past = before ++ (t, d) :: after → Right t before d) ∧
    (∀ (t : Nat) memory, (start.follow machine p schedule).threads[t]? = some ⟨none, memory⟩ →
      ∀ d ∈ lastDeed t past, d.Ends) ∧
    (∀ g < q.segments.size, (q.segment g).index = g) ∧
    Segment.size * (q.segments.size - 1) ≤ (ledger past).puts.length ∧
    (ledger past).puts.length ≤ Segment.size * q.segments.size := by
  have sure := (Sure.idle (α := α) memories).follow (p := p) schedule
  rw [List.nil_append] at sure
  obtain ⟨reserved, claimed⟩ := slots_eq_of_right sure.right
  have size_le := sure.laid.size_le
  refine ⟨reserved, claimed, sure.right, fun t memory here => sure.stands t _ here,
    fun g hg => (sure.laid.fits g hg).index, ?_, sure.laid.le_size⟩
  simp only [Segment.size] at size_le ⊢
  omega

end SharedCollections.Queue

import SharedCollections.Proofs.Queue.Clients
/-!
# Values stay while they are looked at

The count of snapshots in progress is the number of snapshots that the threads have in progress, and
a slot counts as many readers as look into it. A value is gone from the step on that lets a thread
move it out. Then either its slot is taken and no closure runs on the value, or all snapshots in
progress are beyond the slot (`Shut`): those that begin later read that the slot is claimed. So no
closure ever runs on a value that is gone (`Guarded.not_gone`).
-/

namespace SharedCollections.Queue

variable {α : Type} {q' : Queue α} {c : Crew (Queue α) (Point α) (Client α)}
  {past past' : List (Nat × Deed α)} {signal : Signal} {t g i p : Nat} {w w' : Worker α}

/-! ## Sums over threads -/

section

variable {f : Worker α → Nat} {ws : List (Worker α)}

/-- A sum over the threads. -/
def total (f : Worker α → Nat) (ws : List (Worker α)) : Nat := (ws.map f).sum

theorem total_set (here : ws[t]? = some w) (w' : Worker α) :
    total f (ws.set t w') + f w = total f ws + f w' :=
  sum_map_set here f w'

theorem le_total (mem : w ∈ ws) : f w ≤ total f ws :=
  List.le_sum_of_mem (List.mem_map_of_mem mem)

theorem total_eq_zero (zero : ∀ w ∈ ws, f w = 0) : total f ws = 0 := by
  refine List.sum_eq_zero_iff_forall_eq_nat.mpr fun x mem => ?_
  obtain ⟨w, here, rfl⟩ := List.mem_map.mp mem
  exact zero w here

theorem total_le_length (one : ∀ w, f w ≤ 1) : total f ws ≤ ws.length := by
  induction ws with
  | nil => exact Nat.le_refl 0
  | cons w ws ih =>
    have first := one w
    simp only [total, List.map_cons, List.sum_cons, List.length_cons] at ih ⊢
    omega

end

/-! ## What is gone -/

/-- The value of slot `p` has been moved out, or a thread is about to do so without asking again. -/
def Gone (c : Crew (Queue α) (Point α) (Client α)) (p : Nat) : Prop :=
  (c.shared.place p).slot.isWritten = true ∧ (c.shared.place p).value = none ∨
    ∃ w ∈ c.threads, Worker.Moves p w

/-- No closure runs on slot `p`, or will again. -/
def Shut (c : Crew (Queue α) (Point α) (Client α)) (p : Nat) : Prop :=
  (c.shared.place p).slot.isTaken = true ∧ (∀ w ∈ c.threads, ¬Worker.LooksAt p w) ∨
    ∀ w ∈ c.threads, Worker.Beyond p w

/-- A value is gone only from a slot that has been claimed. -/
theorem Sure.claimed_of_gone (h : Sure c past) (gone : Gone c p) :
    p < (ledger past).claims.length := by
  rcases gone with ⟨written, vacant⟩ | ⟨w, mem, g, i, moves, rfl⟩
  · by_contra unclaimed
    have reserved : p < (ledger past).puts.length := by
      by_contra unreserved
      rw [h.laid.fresh p (Nat.not_lt.mp unreserved)] at written
      cases written
    have value := h.laid.intact p (Nat.not_lt.mp unclaimed) _ _
      (List.getElem?_eq_getElem reserved) written
    cases value.symm.trans vacant
  · obtain ⟨t, here⟩ := List.mem_iff_getElem?.mp mem
    have at_ := h.stands t w here
    rw [moves] at at_
    exact (List.getElem?_eq_some_iff.mp at_.2.2.1.mine).1

/-- A thread without a snapshot in progress looks at nothing. -/
theorem Worker.Stands.beyond {q : Queue α} (stands : w.Stands q) (none : w.snapshots = 0)
    (p : Nat) :
    w.Beyond p := by
  have cursors : w.memory.cursors = [] :=
    List.eq_nil_of_length_eq_zero (Nat.eq_zero_of_add_eq_zero_left none)
  refine ⟨fun point here => ?_, fun c mem => ?_⟩
  · have runs := (stands.point point here).2
    have snapshots : point.snapshots = 0 := by
      rw [Worker.snapshots, here] at none
      exact Nat.eq_zero_of_add_eq_zero_right none
    cases point with
    | peeking point =>
      cases point with
      | raising => trivial
      | _ => cases snapshots
    | opening => cases snapshots
    | iterating => exact absurd cursors runs
    | _ => trivial
  · rw [cursors] at mem
    cases mem

theorem Worker.Stands.mono {q : Queue α} {l l' : Ledger α} (h : w.Stands q)
    (grows : Grows q l q' l') : w.Stands q' :=
  ⟨fun point here => ⟨(h.point point here).1.mono grows, (h.point point here).2⟩,
    fun c mem => (h.cursors c mem).mono grows⟩

/-- What holds of clients and their queue at any moment. -/
structure Guarded (c : Crew (Queue α) (Point α) (Client α)) (past : List (Nat × Deed α)) :
    Prop extends Sure c past where
  few : c.threads.length < 2 ^ 62
  takers : c.shared.takers = total Worker.snapshots c.threads
  readers : ∀ p, (c.shared.place p).slot.readers = total (readersAt p ·.look?) c.threads
  workers : ∀ w ∈ c.threads, Worker.Stands c.shared w
  shut : ∀ p, Gone c p → Shut c p

namespace Guarded

/-- The counts go up and down with the threads that they count. -/
theorem counts_set (h : Guarded c past) (here : c.threads[t]? = some w)
    (change : Change t c.shared (ledger past) signal q' (ledger past'))
    (worked : Worked c.shared (ledger past).claims.length signal q' w w') :
    q'.takers = total Worker.snapshots (c.threads.set t w') ∧
      ∀ p, (q'.place p).slot.readers = total (readersAt p ·.look?) (c.threads.set t w') := by
  have mem := List.mem_of_getElem? here
  constructor
  · have sum := total_set (f := Worker.snapshots) here w'
    have le : w.snapshots ≤ total Worker.snapshots c.threads := le_total mem
    have step := worked.snapshots
    have takers := change.takers
    rw [h.takers] at takers
    have one_way := (signal.one_way 0).1
    omega
  · intro p
    have sum := total_set (f := (readersAt p ·.look?)) here w'
    have le : readersAt p w.look? ≤ total (readersAt p ·.look?) c.threads :=
      le_total (f := (readersAt p ·.look?)) mem
    have before : total (readersAt p ·.look?) c.threads ≤ _ :=
      total_le_length fun w => readersAt_le_one w.look?
    have after : total (readersAt p ·.look?) (c.threads.set t w') ≤ _ :=
      total_le_length fun w => readersAt_le_one w.look?
    rw [List.length_set] at after
    have step := worked.readers p
    have readers := change.readers (p := p) h.laid worked.inside
    rw [h.readers] at readers
    have few := h.few
    have one_way := (signal.one_way p).2
    omega

/-- A value that is gone after a turn was gone before, unless the thread has just been let
through. -/
theorem gone_of_set (h : Guarded c past) (here : c.threads[t]? = some w)
    (change : Change t c.shared (ledger past) signal q' (ledger past'))
    (worked : Worked c.shared (ledger past).claims.length signal q' w w')
    (gone : Gone ⟨q', c.threads.set t w'⟩ p) : Gone c p ∨ w'.Moves p := by
  rcases gone with ⟨written, vacant⟩ | ⟨x, mem, moves⟩
  · rcases change.value_cases h.laid p with same | ⟨g, i, signal, rfl⟩ | filled
    · exact .inl (.inl ⟨same.1 ▸ written, same.2 ▸ vacant⟩)
    · exact .inl (.inr ⟨w, List.mem_of_getElem? here, worked.moved g i signal⟩)
    · exact absurd vacant filled.2
  · rcases List.mem_or_eq_of_mem_set mem with before | rfl
    · exact .inl (.inr ⟨x, before, moves⟩)
    · exact .inr moves

theorem set (h : Guarded c past) (here : c.threads[t]? = some w)
    (sure : Sure ⟨q', c.threads.set t w'⟩ past')
    (change : Change t c.shared (ledger past) signal q' (ledger past'))
    (worked : Worked c.shared (ledger past).claims.length signal q' w w') :
    Guarded ⟨q', c.threads.set t w'⟩ past' := by
  obtain ⟨takers, readers⟩ := h.counts_set here change worked
  have grows := change.grows h.laid
  have workers : ∀ x ∈ c.threads.set t w', Worker.Stands q' x := by
    intro x mem
    rcases List.mem_or_eq_of_mem_set mem with before | rfl
    · exact (h.workers x before).mono grows
    · exact worked.stands
  refine ⟨sure, (List.length_set ..).trans_lt h.few, takers, readers, workers, fun p gone => ?_⟩
  rcases h.gone_of_set here change worked gone with before | moves
  · rcases h.shut p before with ⟨taken, nobody⟩ | beyond
    · refine .inl ⟨grows.taken p taken, fun x mem looks => ?_⟩
      rcases List.mem_or_eq_of_mem_set mem with other | rfl
      · exact nobody x other looks
      · rw [worked.looks p looks] at taken
        cases taken
    · refine .inr fun x mem => ?_
      rcases List.mem_or_eq_of_mem_set mem with other | rfl
      · exact beyond x other
      · exact worked.beyond p (h.claimed_of_gone before) (beyond w (List.mem_of_getElem? here))
  · rcases worked.moves p moves with none | ⟨taken, unread⟩
    · -- there is no snapshot, so those that begin from now on will find the slot claimed
      refine .inr fun x mem => (workers x mem).beyond ?_ p
      have le : Worker.snapshots x ≤ total Worker.snapshots _ := le_total mem
      exact Nat.eq_zero_of_le_zero (le.trans (takers.symm.trans none).le)
    · refine .inl ⟨taken, fun x mem looks => ?_⟩
      obtain ⟨g, i, look, number⟩ := looks
      have le : readersAt p (Worker.look? x) ≤ total (readersAt p ·.look?) _ :=
        le_total (f := (readersAt p ·.look?)) mem
      rw [← readers p, unread, look] at le
      simp [readersAt, number, Looking.readers] at le

/-- No closure runs on a value that is gone. -/
theorem not_gone (h : Guarded c past) (mem : w ∈ c.threads) (looks : w.LooksAt p) : ¬Gone c p := by
  intro gone
  rcases h.shut p gone with ⟨-, nobody⟩ | beyond
  · exact nobody w mem looks
  · obtain ⟨g, i, look, rfl⟩ := looks
    obtain ⟨point, here, look⟩ := Option.bind_eq_some_iff.mp look
    exact Nat.lt_irrefl _ (((beyond w mem).point point here).look look)

section

variable {point : Point α} {client : Client α}

/-- Where a closure runs, the value is there. -/
theorem exists_value (h : Guarded c past) (here : c.threads[t]? = some ⟨some point, client⟩)
    (look : point.look? = some (g, i, .reading .looking)) :
    i < Segment.size ∧ (c.shared.place (Segment.size * g + i)).slot.isWritten = true ∧
      ∃ v, (c.shared.cell g i).value = some v := by
  have mem := List.mem_of_getElem? here
  obtain ⟨-, slot_lt, written⟩ := ((h.workers _ mem).point point rfl).1.look look
  refine ⟨slot_lt, written, Option.ne_none_iff_exists'.mp fun vacant => ?_⟩
  refine h.not_gone mem ⟨g, i, look, rfl⟩ (.inl ⟨written, ?_⟩)
  rwa [← cell_eq_place slot_lt]

/-- While a closure runs on a value, no turn moves the value out. -/
theorem value_turn (h : Guarded c past) (here : c.threads[t]? = some ⟨some point, client⟩)
    (look : point.look? = some (g, i, .reading .looking)) (u : Nat) :
    ((c.turn machine Client.program u).shared.cell g i).value = (c.shared.cell g i).value := by
  obtain ⟨slot_lt, written, -⟩ := h.exists_value here look
  have stays := h.not_gone (List.mem_of_getElem? here) ⟨g, i, look, rfl⟩
  refine Crew.turn_cases (o := observer)
    (P := fun c' _ => (c'.shared.cell g i).value = (c.shared.cell g i).value) past rfl
    (fun _ _ _ _ => rfl) fun point' client' other => ?_
  rw [cell_eq_place slot_lt, cell_eq_place slot_lt]
  rcases (h.laid.stepped (h.stands u _ other)).change.value_cases h.laid (Segment.size * g + i)
    with same | ⟨g', i', signal, number⟩ | filled
  · exact same.2
  · refine absurd (.inr ⟨_, List.mem_of_getElem? other, g', i', ?_, number⟩) stays
    exact congrArg some (Point.of_move signal)
  · rw [filled.1] at written
    cases written

end

theorem idle (scripts : List (List (Request α))) (few : scripts.length < 2 ^ 62) :
    Guarded (Crew.idle (Queue.empty : Queue α) (scripts.map (⟨·, []⟩))) [] := by
  have resting (w : Worker α)
      (mem : w ∈ (Crew.idle (Queue.empty : Queue α) (scripts.map (⟨·, []⟩))).threads) :
      ∃ script, w = ⟨none, ⟨script, []⟩⟩ := by
    obtain ⟨client, from_script, rfl⟩ := List.mem_map.mp mem
    obtain ⟨script, -, rfl⟩ := List.mem_map.mp from_script
    exact ⟨script, rfl⟩
  refine ⟨.idle _, ?_, ?_, fun p => ?_, fun w mem => ?_, fun p gone => ?_⟩
  · simpa [Crew.idle] using few
  · refine (total_eq_zero fun w mem => ?_).symm
    obtain ⟨script, rfl⟩ := resting w mem
    rfl
  · change ((Queue.empty : Queue α).place p).slot.readers = _
    rw [place_empty]
    refine (by decide : Slot.empty.readers = 0).trans (total_eq_zero fun w mem => ?_).symm
    obtain ⟨script, rfl⟩ := resting w mem
    rfl
  · obtain ⟨script, rfl⟩ := resting w mem
    exact ⟨nofun, nofun⟩
  · rcases gone with ⟨written, -⟩ | ⟨w, mem, g, i, moves, -⟩
    · change ((Queue.empty : Queue α).place p).slot.isWritten = true at written
      rw [place_empty] at written
      cases (by decide : Slot.empty.isWritten = false).symm.trans written
    · obtain ⟨script, rfl⟩ := resting w mem
      cases moves

theorem turn (h : Guarded c past) (i : Nat) :
    Guarded (c.turn machine Client.program i)
      (past ++ (c.deed Client.program observer i).toList.map (i, ·)) := by
  refine Crew.turn_cases past h (fun client op here next => ?_) fun point client here => ?_
  · exact h.set here (h.begun here op) (change_begun op)
      (.begun (h.workers _ (List.mem_of_getElem? here)) next)
  · have at_ := h.stands i _ here
    refine h.set here (h.stepped here) (h.laid.stepped at_).change
      (.stepped h.laid at_ (h.workers _ (List.mem_of_getElem? here)) fun g i look => ?_)
    exact Option.ne_none_iff_exists'.mpr (h.exists_value here look).2.2

theorem follow (h : Guarded c past) (schedule : List Nat) :
    Guarded (c.follow machine Client.program schedule)
      (past ++ c.history machine Client.program observer schedule) :=
  Crew.follow_invariant (P := Guarded) (fun _ _ i h => h.turn i) schedule h

end Guarded

/-- Let clients with any requests work on a queue, and interleave their steps by any schedule.
Whenever a thread runs its closure on a slot, the value is there, and it stays there whoever takes
the next turn; and no step fails, as one that looks for a value would that is not there. There are
fewer threads than the word of a slot has room for readers (`Slot.iterate_arrive_two_pow`); a thread
is a reader of one slot at a time. -/
theorem looks_find_values (scripts : List (List (Request α))) (few : scripts.length < 2 ^ 62)
    (schedule : List Nat) :
    let start : Crew (Queue α) (Point α) (Client α) := Crew.idle Queue.empty (scripts.map (⟨·, []⟩))
    let c := start.follow machine Client.program schedule
    ∀ (t : Nat) (point : Point α) (client : Client α),
      c.threads[t]? = some ⟨some point, client⟩ →
      (∀ g i, point.look? = some (g, i, .reading .looking) →
        ∃ v, (c.shared.cell g i).value = some v ∧
          ∀ u, ((c.turn machine Client.program u).shared.cell g i).value = some v) ∧
      ∀ f, (point.step c.shared).1 ≠ .fail f := by
  intro start c t point client here
  have guarded : Guarded c _ := (Guarded.idle scripts few).follow schedule
  refine ⟨fun g i look => ?_, fun f failed => ?_⟩
  · obtain ⟨-, -, v, value⟩ := guarded.exists_value here look
    exact ⟨v, value, fun u => (guarded.value_turn here look u).trans value⟩
  · have spec := guarded.laid.stands_step (guarded.stands t _ here)
      ((guarded.workers _ (List.mem_of_getElem? here)).point point rfl).1
      fun g i look => Option.ne_none_iff_exists'.mpr (guarded.exists_value here look).2.2
    rw [failed] at spec
    exact spec

/-- A taker waits until the peek is over that it has found at work. -/
theorem looks_find_values_peek :
    let scripts : List (List (Request Nat)) := [[.enqueue 5], [.peek], [.dequeue]]
    let schedule := List.replicate 6 0 ++ List.replicate 7 1 ++ List.replicate 9 2
    let start : Crew (Queue Nat) (Point Nat) (Client Nat) :=
      Crew.idle Queue.empty (scripts.map (⟨·, []⟩))
    let c := start.follow machine Client.program schedule
    scripts.length < 2 ^ 62 ∧ ∃ v, (c.shared.cell 0 0).value = some v ∧
      ∀ u, ((c.turn machine Client.program u).shared.cell 0 0).value = some v := by
  have here : ((Crew.idle Queue.empty ([[.enqueue 5], [.peek], [.dequeue]].map (⟨·, []⟩))).follow
      machine Client.program (List.replicate 6 0 ++ List.replicate 7 1 ++ List.replicate 9 2) :
        Crew (Queue Nat) (Point Nat) (Client Nat)).threads[1]? =
      some ⟨some (.peeking (.looking 0 0 (.reading .looking))), ⟨[.peek], []⟩⟩ := by
    rfl
  exact ⟨by decide, (looks_find_values _ (by decide) _ 1 _ _ here).1 0 0 rfl⟩

end SharedCollections.Queue

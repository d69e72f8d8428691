import SharedCollections.Proofs.Queue.Snapshots
/-!
# What signals count

The count of snapshots in progress and the counts of readers change by signals only, and values are
moved out by a signal only. A thread counts as a reader of a slot from its arrival there until it
leaves (`readersAt`), and it arrives and leaves by signals.
-/

namespace SharedCollections.Queue

variable {α : Type} {q q' : Queue α} {l l' : Ledger α} {signal : Signal} {t g i p : Nat}

namespace Signal

def raised : Signal → Nat
  | raise => 1
  | _ => 0

def lowered : Signal → Nat
  | lower => 1
  | _ => 0

/-- How many readers arrive at slot `p`. -/
def arrived (p : Nat) : Signal → Nat
  | arrive g i => if Segment.size * g + i = p then 1 else 0
  | _ => 0

/-- How many readers leave slot `p`. -/
def left (p : Nat) : Signal → Nat
  | leave g i => if Segment.size * g + i = p then 1 else 0
  | _ => 0

/-- Readers arrive at slots that are there, and leave them. -/
def Inside (q : Queue α) : Signal → Prop
  | arrive g i | leave g i => g < q.segments.size ∧ i < Segment.size
  | _ => True

theorem one_way (signal : Signal) (p : Nat) :
    (signal.raised = 0 ∨ signal.lowered = 0) ∧ (signal.arrived p = 0 ∨ signal.left p = 0) := by
  cases signal with
  | raise | arrive => exact ⟨.inr rfl, .inr rfl⟩
  | _ => exact ⟨.inl rfl, .inl rfl⟩

end Signal

/-! ## Counts -/

theorem Change.takers (change : Change t q l signal q' l') (raised : signal.lowered ≤ q.takers) :
    q'.takers + signal.lowered = q.takers + signal.raised := by
  cases change with
  | still same => exact same.takers
  | lower => exact Nat.sub_add_cancel raised
  | _ => rfl

theorem readers_modifyCell (f : Cell α → Cell α)
    (readers : ∀ c, (f c).slot.readers = c.slot.readers) :
    ((q.modifyCell g i f).place p).slot.readers = (q.place p).slot.readers := by
  rcases place_modifyCell_cases (q := q) g i f p with same | changed
  · rw [same]
  · rw [changed, readers]

/-- A slot counts one more reader for an arrival, and one less when a reader leaves, if there are
not too many for its word. -/
theorem Change.readers (change : Change t q l signal q' l') (h : Laid q l)
    (inside : signal.Inside q) (room : (q.place p).slot.readers + signal.arrived p < 2 ^ 62)
    (read : signal.left p ≤ (q.place p).slot.readers) :
    (q'.place p).slot.readers + signal.left p = (q.place p).slot.readers + signal.arrived p := by
  cases change with
  | still same => rw [same.place]; rfl
  | raise | lower | swing | advance => rfl
  | arrive g i =>
    rw [place_modifyCell inside.1 (h.fits g inside.1).cells inside.2]
    simp only [Signal.arrived, Signal.left, eq_comm (a := p)] at room ⊢
    split
    · next here =>
      rw [if_pos here] at room
      exact Slot.readers_arrive _ room
    · rfl
  | leave g i =>
    rw [place_modifyCell inside.1 (h.fits g inside.1).cells inside.2]
    simp only [Signal.arrived, Signal.left, eq_comm (a := p)] at read ⊢
    split
    · next here =>
      rw [if_pos here] at read
      rw [Slot.readers_leave _ read]
      exact Nat.sub_add_cancel read
    · rfl
  | mark => exact readers_modifyCell _ fun c => c.slot.readers_markTaken
  | move | write => exact readers_modifyCell _ fun _ => rfl
  | publish => exact readers_modifyCell _ fun c => c.slot.readers_markWritten
  | reserve => rw [place_reserve]; rfl
  | claim => rw [place_claim]; rfl
  | link => rw [place_linked]; rfl

/-- What becomes of the value of a slot: it stays, it is moved out, or it comes to a slot that was
not written. -/
theorem Change.value_cases (change : Change t q l signal q' l') (h : Laid q l) (p : Nat) :
    (q'.place p).slot.isWritten = (q.place p).slot.isWritten ∧
        (q'.place p).value = (q.place p).value ∨
      (∃ g i, signal = .move g i ∧ Segment.size * g + i = p) ∨
      (q.place p).slot.isWritten = false ∧ (q'.place p).value ≠ none := by
  cases change with
  | still same => exact .inl ⟨same.alike.written p, same.alike.value p⟩
  | raise | lower | swing | advance => exact .inl ⟨rfl, rfl⟩
  | arrive => exact .inl ⟨alike_arrive.written p, alike_arrive.value p⟩
  | leave => exact .inl ⟨alike_leave.written p, alike_leave.value p⟩
  | mark => exact .inl ⟨alike_markTaken.written p, alike_markTaken.value p⟩
  | @move g i mine =>
    obtain ⟨u, v, put⟩ := h.reserved_of_claimed mine.mine
    rw [h.place_modifyCell mine.slot_lt put]
    by_cases here : p = Segment.size * g + i
    · exact .inr (.inl ⟨g, i, rfl, here.symm⟩)
    · rw [if_neg here]
      exact .inl ⟨rfl, rfl⟩
  | write mine =>
    rw [h.place_modifyCell mine.slot_lt mine.mine]
    split
    · next here => exact .inr (.inr ⟨here ▸ mine.unwritten, nofun⟩)
    · exact .inl ⟨rfl, rfl⟩
  | publish mine value =>
    rw [h.place_modifyCell mine.slot_lt mine.mine]
    split
    · next here =>
      refine .inr (.inr ⟨here ▸ mine.unwritten, ?_⟩)
      rw [here]
      exact fun none => nomatch value.symm.trans none
    · exact .inl ⟨rfl, rfl⟩
  | reserve => exact .inl (by rw [place_reserve]; exact ⟨rfl, rfl⟩)
  | claim => exact .inl (by rw [place_claim]; exact ⟨rfl, rfl⟩)
  | link => exact .inl (by rw [place_linked]; exact ⟨rfl, rfl⟩)

/-! ## Readers -/

/-- Whether a reader has arrived and not left. -/
def Looking.readers : Looking α → Nat
  | reading .looking | reading (.leaving _) => 1
  | _ => 0

/-- How many readers of slot `p` there are, given which slot a thread looks into. -/
def readersAt (p : Nat) : Option (Nat × Nat × Looking α) → Nat
  | some (g, i, look) => if Segment.size * g + i = p then look.readers else 0
  | none => 0

theorem readersAt_le_one (look : Option (Nat × Nat × Looking α)) : readersAt p look ≤ 1 := by
  have one (look : Looking α) : look.readers ≤ 1 := by
    unfold Looking.readers
    split <;> decide
  unfold readersAt
  split
  · split
    · exact one _
    · exact Nat.zero_le _
  · exact Nat.zero_le _

theorem Point.of_look {point : Point α} {look : Looking α}
    (here : point.look? = some (g, i, look)) :
    point = .peeking (.looking g i look) ∨ ∃ c, point = .iterating (.looking c g i look) := by
  cases point with
  | peeking point =>
    cases point with
    | looking =>
      obtain ⟨⟩ := here
      exact .inl rfl
    | _ => cases here
  | iterating point =>
    cases point with
    | looking c =>
      obtain ⟨⟩ := here
      exact .inr ⟨c, rfl⟩
    | _ => cases here
  | _ => cases here

/-- A thread that looks into a slot goes on with its look. -/
theorem Point.look_step {point : Point α} {look : Looking α}
    (here : point.look? = some (g, i, look)) :
    point.signal = look.signal g i ∧
      (point.step q).1.point?.bind look? = (look.step g i q).1.point?.map (g, i, ·) := by
  rcases eq : look.step g i q with ⟨progress, q'⟩
  rcases of_look here with rfl | ⟨c, rfl⟩
  all_goals
    refine ⟨rfl, ?_⟩
    simp only [Point.step, Peeking.step, Iterating.step, eq]
    cases progress with
    | next | fail => rfl
    | done seen => cases seen <;> rfl

/-- A look into a slot begins by waiting. -/
theorem Point.look_step_of_none {point : Point α} (none : point.look? = none)
    {look : Looking α} (after : (point.step q).1.point?.bind look? = some (g, i, look)) :
    look = .awaiting := by
  obtain ⟨point', step, here⟩ := Option.bind_eq_some_iff.mp after
  cases Point.next step with
  | @peeking point _ inner =>
    cases point with
    | looking => cases none
    | readingStop =>
      simp only [Peeking.step] at inner
      split at inner <;> obtain ⟨⟩ := inner <;> obtain ⟨⟩ := here
      rfl
    | checkingNext =>
      simp only [Peeking.step] at inner
      split at inner <;> obtain ⟨⟩ := inner <;> cases here
    | lowering => cases inner
    | raising | loadingHead | readingLow =>
      obtain ⟨⟩ := inner
      cases here
  | @iterating point _ inner =>
    cases point with
    | looking => cases none
    | scanning c =>
      simp only [Iterating.step] at inner
      split at inner
      · cases inner
      · split at inner
        · obtain ⟨⟩ := inner
          obtain ⟨⟩ := here
          rfl
        · split at inner <;> obtain ⟨⟩ := inner
          cases here
    | hopping =>
      obtain ⟨⟩ := inner
      cases here
  | _ => cases here

/-- A thread that does not look into a slot does not arrive at one or leave one. -/
theorem Point.signal_of_none {point : Point α} (none : point.look? = none) :
    point.signal.arrived p = 0 ∧ point.signal.left p = 0 ∧ point.signal.Inside q := by
  cases point with
  | dequeuing point =>
    cases point with
    | removing g point =>
      cases point with
      | taking i phase => cases phase <;> exact ⟨rfl, rfl, trivial⟩
      | _ => exact ⟨rfl, rfl, trivial⟩
    | _ => exact ⟨rfl, rfl, trivial⟩
  | peeking point | iterating point =>
    cases point with
    | looking => cases none
    | _ => exact ⟨rfl, rfl, trivial⟩
  | _ => exact ⟨rfl, rfl, trivial⟩

theorem Point.Stands.look {point : Point α} (stands : point.Stands q) {look : Looking α}
    (here : point.look? = some (g, i, look)) : look.Stands q g i := by
  rcases of_look here with rfl | ⟨c, rfl⟩
  · exact stands
  · exact stands.2.2.2

/-- A snapshot that looks at a slot is not beyond it. -/
theorem Point.Beyond.look {point : Point α} (beyond : point.Beyond p) {look : Looking α}
    (here : point.look? = some (g, i, look)) : p < Segment.size * g + i := by
  rcases of_look here with rfl | ⟨c, rfl⟩ <;> exact beyond

theorem Point.Stands.inside {point : Point α} (stands : point.Stands q) :
    point.signal.Inside q := by
  cases here : point.look? with
  | none => exact (signal_of_none (p := 0) here).2.2
  | some x =>
    obtain ⟨g, i, look⟩ := x
    have there := stands.look here
    rw [(look_step (q := q) here).1]
    cases look with
    | awaiting => trivial
    | reading look =>
      cases look with
      | looking => trivial
      | arriving | leaving => exact ⟨there.1, there.2.1⟩

/-- A reader counts from the step by which it arrives to the one by which it leaves. -/
theorem Looking.readersAt_step (look : Looking α) (g i p : Nat) :
    readersAt p ((look.step g i q).1.point?.map (g, i, ·)) + (look.signal g i).left p =
      readersAt p (some (g, i, look)) + (look.signal g i).arrived p := by
  cases look with
  | awaiting =>
    simp only [Looking.step]
    split <;> rfl
  | reading look =>
    cases look with
    | arriving =>
      cases taken : (q.cell g i).slot.isTaken <;>
        simp only [Looking.step, stepSlot, Slot.Reading.step, taken] <;>
        simp [Progress.point?, readersAt, Looking.readers, Looking.signal, Signal.arrived,
          Signal.left]
    | looking =>
      simp only [Looking.step, stepSlot, Slot.Reading.step]
      rfl
    | leaving seen =>
      cases seen <;> simp only [Looking.step, stepSlot, Slot.Reading.step] <;>
        simp [Progress.point?, readersAt, Looking.readers, Looking.signal, Signal.arrived,
          Signal.left]

/-- A step arrives at a slot or leaves it as its thread becomes or ceases to be a reader there. -/
theorem Point.readersAt_step (point : Point α) (p : Nat) :
    readersAt p ((point.step q).1.point?.bind look?) + point.signal.left p =
      readersAt p point.look? + point.signal.arrived p := by
  cases here : point.look? with
  | none =>
    obtain ⟨arrived, left, -⟩ := signal_of_none (p := p) (q := q) here
    rw [arrived, left]
    cases after : (point.step q).1.point?.bind look? with
    | none => rfl
    | some x =>
      obtain ⟨g, i, look⟩ := x
      obtain rfl := look_step_of_none here after
      exact ite_self _
  | some x =>
    obtain ⟨g, i, look⟩ := x
    obtain ⟨signal, after⟩ := look_step (q := q) here
    rw [signal, after]
    exact look.readersAt_step g i p

/-- A closure is run on a slot only by a thread that has found the slot not taken at its arrival. -/
theorem Point.looks_step {point : Point α}
    (after : (point.step q).1.point?.bind look? = some (g, i, .reading .looking)) :
    point.look? = some (g, i, .reading .arriving) ∧ (q.cell g i).slot.isTaken = false := by
  cases here : point.look? with
  | none => cases look_step_of_none here after
  | some x =>
    obtain ⟨g', i', look⟩ := x
    rw [(look_step here).2, Option.map_eq_some_iff] at after
    obtain ⟨look', step, same⟩ := after
    obtain ⟨⟩ := same
    cases look with
    | awaiting =>
      simp only [Looking.step] at step
      split at step <;> cases step
    | reading look =>
      cases look with
      | arriving =>
        cases taken : (q.cell g i).slot.isTaken
        · exact ⟨rfl, rfl⟩
        · simp only [Looking.step, stepSlot, Slot.Reading.step, taken] at step
          cases step
      | looking => cases step
      | leaving seen => cases seen <;> cases step

end SharedCollections.Queue

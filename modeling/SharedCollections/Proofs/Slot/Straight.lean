import SharedCollections.Proofs.Slot
import SharedCollections.Proofs.Straight
/-!
# Slots with one user

A reader leaves a slot as it found it, also if its look fails or reads the slot again, so whoever is
alone with a slot never meets a reader when it takes the value, and waits for no value that it has
written (`Reached.straight`).
-/

namespace SharedCollections.Slot

/-- A taker waits for readers. -/
def Taking.back : Taking → Taking → Bool
  | _, waiting => true
  | _, _ => false

/-- Whatever a thread that waits for the value does but ending is to wait on. -/
def awaitBack (_ _ : Unit) : Bool := true

/-! ## Looks -/

/-- A computation that looks at a slot, as often as it likes and again from within a look. Looks may
fail, and their faults may be caught. -/
inductive Looks : {α : Type} → Action Slot α → Prop where
  | pure {α : Type} (x : α) : Looks (pure x)
  | fail {α : Type} (f : Fault) : Looks (throw f : Action Slot α)
  | bind {α β : Type} {a : Action Slot α} {f : α → Action Slot β} (first : Looks a)
      (rest : ∀ x, Looks (f x)) : Looks (a >>= f)
  | attempt {α : Type} {a : Action Slot α} (h : Looks a) : Looks a.attempt
  | readWith {α : Type} {look : Action Slot α} (h : Looks look) : Looks (readWith look)

/-- However looks end, the slot is as it was. -/
theorem Looks.after_eq {α : Type} {a : Action Slot α} (h : Looks a) (s : Slot) : a.after s = s := by
  induction h generalizing s with
  | pure | fail => rfl
  | @bind α β a f _ _ first rest =>
    have here := first s
    cases run : a.run s with
    | error e t =>
      rw [Action.after_of_error run] at here
      rw [Action.after_of_error (Action.run_bind_error run f), here]
    | ok x t =>
      rw [Action.after_of_ok run] at here
      subst here
      rw [Action.after, Action.run_bind_ok run]
      exact rest x t
  | attempt _ ih => rw [Action.after_attempt, ih]
  | @readWith α look _ ih =>
    by_cases taken : s.isTaken = true
    · have run : (Slot.readWith look).run s = .ok none s.arrive.leave := if_pos taken
      rw [Action.after_of_ok run, arrive_leave]
    · -- the look ends in the slot at which its reader has arrived
      have inside := ih s.arrive
      cases run : look.run s.arrive with
      | ok seen t =>
        have run' : (Slot.readWith look).run s = .ok (some seen) t.leave := by
          rw [Slot.readWith, Action.run_mk, if_neg taken, run]
        rw [Action.after_of_ok run']
        rw [Action.after_of_ok run] at inside
        rw [inside, arrive_leave]
      | error f t =>
        have run' : (Slot.readWith look).run s = .error f t.leave := by
          rw [Slot.readWith, Action.run_mk, if_neg taken, run]
        rw [Action.after_of_error run']
        rw [Action.after_of_error run] at inside
        rw [inside, arrive_leave]

/-! ## Slots with one user -/

/-- What one thread makes of a new slot, whose value it has written if `done` is set. -/
inductive Reached : (done : Bool) → Slot → Prop where
  | new : Reached false empty
  | write {done : Bool} {s : Slot} (h : Reached done s) : Reached true s.markWritten
  | take {done : Bool} {s : Slot} (h : Reached done s) : Reached done (take.after s)
  | look {done : Bool} {s : Slot} (h : Reached done s) {α : Type} {a : Action Slot α}
      (looks : Looks a) : Reached done (a.after s)

namespace Reached

variable {done : Bool} {s : Slot}

/-- Nobody is looking at the slot, which is written if its user has seen to that. -/
theorem quiet (h : Reached done s) : s.isRead = false ∧ s.isWritten = done := by
  induction h with
  | new => decide
  | write _ ih => exact ⟨(isRead_markWritten _).trans ih.1, isWritten_markWritten _⟩
  | @take done s _ ih =>
    have run : Slot.take.run s = .ok () s.markTaken := by
      rw [Slot.take, run_alone, drive_succ, Taking.step, ih.1]
      rfl
    rw [Action.after_of_ok run]
    exact ⟨(isRead_markTaken _).trans ih.1, (isWritten_markTaken _).trans ih.2⟩
  | look _ looks ih => rwa [looks.after_eq]

/-- Taking the value never waits, and waiting for it ends at once when it has been written. -/
theorem straight (h : Reached done s) : Straight Taking.step Taking.back .marking s ∧
    (done = true → Straight awaitStep awaitBack () s) := by
  obtain ⟨unread, written⟩ := h.quiet
  constructor
  · have mark : Taking.step .marking s = (.done (), s.markTaken) := by
      rw [Taking.step, unread]
      rfl
    exact .done mark
  · rintro rfl
    have look : awaitStep () s = (.done (), s) := by
      rw [awaitStep, if_pos written]
    exact .done look

end Reached

end SharedCollections.Slot

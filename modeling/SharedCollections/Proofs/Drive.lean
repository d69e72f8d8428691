import SharedCollections.Step
/-!
# Running computations and operations

Reading or changing the state is a step of a computation of its own. An operation that runs another
one reads the points of that one as points of its own, through `Progress.lift`. So what the inner
operation comes to alone is what the outer one makes of it, and the outer one goes on from there
(`drive_lift`).
-/

namespace SharedCollections

namespace Action

variable {σ α : Type}

theorem run_modify_bind (f : σ → σ) (a : Unit → Action σ α) (s : σ) :
    (modify f >>= a).run s = (a ()).run (f s) := rfl

theorem run_get_bind (a : σ → Action σ α) (s : σ) : (get >>= a).run s = (a s).run s := rfl

/-- A computation that returns a value ends in some state. -/
theorem exists_run_of_run' {a : Action σ α} {s : σ} {x : α} (h : a.run' s = some x) :
    ∃ t, a.run s = .ok x t := by
  delta EStateM.run' at h
  cases run : a.run s with
  | ok y t =>
    rw [run] at h
    exact ⟨t, congrArg (EStateM.Result.ok · t) (Option.some.inj h)⟩
  | error f t =>
    rw [run] at h
    cases h

/-- The state in which a run ends, with or without a fault. -/
def after (a : Action σ α) (s : σ) : σ :=
  match a.run s with
  | .ok _ s => s
  | .error _ s => s

theorem after_of_ok {a : Action σ α} {s t : σ} {x : α} (h : a.run s = .ok x t) :
    a.after s = t := by
  rw [after, h]

theorem after_of_error {a : Action σ α} {s t : σ} {f : Fault} (h : a.run s = .error f t) :
    a.after s = t := by
  rw [after, h]

theorem after_attempt (a : Action σ α) (s : σ) : a.attempt.after s = a.after s := by
  rw [after, after, attempt, run_mk]
  cases a.run s <;> rfl

end Action

section

variable {σ π π' ρ ρ' : Type} {step : π → σ → Progress π ρ × σ}
  {outer : π' → σ → Progress π' ρ' × σ}

/-- What is left of an operation after the step that came to this, for at most `bound` steps. -/
def resume (step : π → σ → Progress π ρ × σ) (bound : Nat) : Progress π ρ × σ → Ending σ ρ
  | (.next p, s) => drive step bound p s
  | (.done r, s) => .ok r s
  | (.fail f, s) => .error f s

theorem drive_succ (step : π → σ → Progress π ρ × σ) (bound : Nat) (p : π) (s : σ) :
    drive step (bound + 1) p s = resume step bound (step p s) := by
  rw [drive]
  rcases step p s with ⟨_ | _ | _, t⟩ <;> rfl

@[simp] theorem resume_next (bound : Nat) (p : π) (s : σ) :
    resume step bound (.next p, s) = drive step bound p s := rfl

@[simp] theorem resume_done (bound : Nat) (r : ρ) (s : σ) :
    resume step bound (.done r, s) = .ok r s := rfl

theorem resume_mono {bound bound' : Nat} {x : Progress π ρ × σ} {s : σ} {r : ρ}
    (h : resume step bound x = .ok r s) (le : bound ≤ bound') :
    resume step bound' x = .ok r s := by
  rcases x with ⟨_ | _ | _, t⟩
  · exact drive_mono h le
  · exact h
  · exact h

/-- The outer operation goes on with what the inner one comes to. -/
theorem drive_lift {point : π → π'} {finish : ρ → Progress π' ρ'}
    (lifts : ∀ p s, outer (point p) s = ((step p s).1.lift point finish, (step p s).2))
    {n b : Nat} {p : π} {s t : σ} {r : ρ} (inner : drive step n p s = .ok r t)
    {r' : ρ'} {t' : σ} (rest : resume outer b (finish r, t) = .ok r' t') :
    drive outer (n + b) (point p) s = .ok r' t' := by
  induction n generalizing p s with
  | zero => cases inner
  | succ n ih =>
    rw [drive_succ] at inner
    rw [Nat.succ_add, drive_succ, lifts]
    generalize step p s = x at inner ⊢
    obtain ⟨_ | _ | _, u⟩ := x
    · exact ih inner
    · cases inner
      exact resume_mono rest (Nat.le_add_left _ _)
    · cases inner

end

end SharedCollections

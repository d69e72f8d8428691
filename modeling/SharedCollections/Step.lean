/-!
# Operations in steps

An operation on shared state is a sequence of points. One step reads or changes the state once and
leaves either the next point or the result, so the steps of several operations can be interleaved
in any order. `drive` runs one operation alone.
-/

namespace SharedCollections

/-- How a call can end without a result. -/
inductive Fault where
  /-- The entry count of a stripe stood at the largest word. -/
  | stripeOverflow (stripe : Nat)
  /-- A function handed in by the caller failed. -/
  | raised (message : String)
  /-- A value was looked at that is not in its slot. -/
  | vacant
  /-- The call was still waiting or retrying when its bound of steps was used up. -/
  | stalled
deriving DecidableEq, Repr

namespace Fault

def message : Fault → String
  | stripeOverflow stripe => s!"entry count of stripe {stripe} overflowed"
  | raised message => message
  | vacant => "no value in the slot"
  | stalled => "no progress"

end Fault

/-- How a call ends: with a result or with a fault, and in either case in a state. -/
abbrev Ending (σ α : Type) := EStateM.Result Fault σ α

/-- A computation on the state `σ` that keeps the state it reached when it fails. -/
abbrev Action (σ α : Type) := EStateM Fault σ α

namespace Action

variable {σ τ α β : Type}

@[simp] theorem run_pure (x : α) (s : σ) : (pure x : Action σ α).run s = .ok x s := rfl

theorem run_bind (a : Action σ α) (f : α → Action σ β) (s : σ) :
    (a >>= f).run s = match a.run s with
      | .ok x s => (f x).run s
      | .error e s => .error e s := by
  simp only [EStateM.run, bind, EStateM.bind]; cases a s <;> rfl

theorem run_bind_ok {a : Action σ α} {x : α} {s t : σ} (h : a.run s = .ok x t)
    (f : α → Action σ β) : (a >>= f).run s = (f x).run t := by
  rw [run_bind, h]

theorem run_bind_error {a : Action σ α} {e : Fault} {s t : σ} (h : a.run s = .error e t)
    (f : α → Action σ β) : (a >>= f).run s = .error e t := by
  rw [run_bind, h]

/-- The computation with this effect. -/
def mk (f : σ → Ending σ α) : Action σ α := f

@[simp] theorem run_mk (f : σ → Ending σ α) (s : σ) : (mk f).run s = f s := rfl

/-- How many of a list pass a test, which is run for one after the other. -/
def countPassing (test : β → Action σ Bool) : List β → Action σ Nat
  | [] => pure 0
  | x :: xs => do
    let passed ← test x
    return (if passed then 1 else 0) + (← countPassing test xs)

/-- Runs `a`, turning a fault into a value. -/
def attempt (a : Action σ α) : Action σ (Except Fault α) := mk fun s =>
  match a.run s with
  | .ok x s => .ok (.ok x) s
  | .error e s => .ok (.error e) s

end Action

/-- What one step of an operation leaves behind. -/
inductive Progress (π ρ : Type) where
  | next (point : π)
  | done (result : ρ)
  | fail (fault : Fault)
deriving Repr

namespace Progress

variable {π π' ρ ρ' : Type}

/-- Reads the points of an inner operation as points of an outer one. -/
def lift (point : π → π') (finish : ρ → Progress π' ρ') : Progress π ρ → Progress π' ρ'
  | next p => next (point p)
  | done r => finish r
  | fail f => fail f

@[simp] theorem lift_next (point : π → π') (finish : ρ → Progress π' ρ') (p : π) :
    lift point finish (next p) = next (point p) := rfl

@[simp] theorem lift_done (point : π → π') (finish : ρ → Progress π' ρ') (r : ρ) :
    lift point finish (done r) = finish r := rfl

@[simp] theorem lift_fail (point : π → π') (finish : ρ → Progress π' ρ') (f : Fault) :
    lift point finish (fail f) = fail f := rfl

end Progress

section

variable {σ π ρ : Type}

/-- Runs an operation alone from a point on, for at most `bound` steps. -/
def drive (step : π → σ → Progress π ρ × σ) : (bound : Nat) → π → σ → Ending σ ρ
  | 0, _, s => .error .stalled s
  | bound + 1, p, s =>
    match step p s with
    | (.next q, s) => drive step bound q s
    | (.done r, s) => .ok r s
    | (.fail f, s) => .error f s

@[simp] theorem drive_zero (step : π → σ → Progress π ρ × σ) (p : π) (s : σ) :
    drive step 0 p s = .error .stalled s := rfl

theorem drive_succ_next {step : π → σ → Progress π ρ × σ} {p q : π} {s t : σ} (bound : Nat)
    (h : step p s = (.next q, t)) : drive step (bound + 1) p s = drive step bound q t := by
  simp [drive, h]

theorem drive_succ_done {step : π → σ → Progress π ρ × σ} {p : π} {s t : σ} {r : ρ} (bound : Nat)
    (h : step p s = (.done r, t)) : drive step (bound + 1) p s = .ok r t := by
  simp [drive, h]

/-- A larger bound changes nothing once an operation has ended. -/
theorem drive_mono {step : π → σ → Progress π ρ × σ} {bound bound' : Nat} {p : π} {s t : σ} {r : ρ}
    (h : drive step bound p s = .ok r t) (le : bound ≤ bound') :
    drive step bound' p s = .ok r t := by
  induction bound generalizing bound' p s with
  | zero => simp at h
  | succ n ih =>
    obtain ⟨m, rfl⟩ : ∃ m, bound' = m + 1 := ⟨bound' - 1, by omega⟩
    rcases hs : step p s with ⟨outcome, u⟩
    cases outcome with
    | next q =>
      rw [drive_succ_next _ hs] at h ⊢
      exact ih h (by omega)
    | done _ => rwa [drive_succ_done _ hs] at h ⊢
    | fail _ => simp [drive, hs] at h

/-- `drive` as a computation. -/
def alone (step : π → σ → Progress π ρ × σ) (bound : Nat) (p : π) : Action σ ρ :=
  .mk (drive step bound p)

@[simp] theorem run_alone (step : π → σ → Progress π ρ × σ) (bound : Nat) (p : π) (s : σ) :
    (alone step bound p).run s = drive step bound p s := rfl

end

end SharedCollections

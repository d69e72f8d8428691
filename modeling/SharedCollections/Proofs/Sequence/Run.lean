import Mathlib.Data.List.Forall2
import SharedCollections.Proofs.Drive
import SharedCollections.Proofs.Sequence.Opened
import SharedCollections.Sequence
/-!
# Runs on a sequence

One thread uses a sequence and any number of cursors on it, in any order. A run is compared with an
ideal system that makes the same moves: where every move answers alike and leaves the two systems
related, so does every run (`exists_follow`).
-/

namespace SharedCollections

/-! ## Runs and ideal runs -/

section

variable {σ ξ μ ρ : Type}

/-- Makes moves one after the other. -/
def follow (move : μ → Action σ ρ) : List μ → Action σ (List ρ)
  | [] => pure []
  | m :: ms => do
    let r ← move m
    return r :: (← follow move ms)

/-- The answers of an ideal system to moves, and the system after them. -/
def answers (move : ξ → μ → ρ × ξ) (x : ξ) : List μ → List ρ × ξ
  | [] => ([], x)
  | m :: ms => ((move x m).1 :: (answers move (move x m).2 ms).1, (answers move (move x m).2 ms).2)

/-- Answers that fit those of an ideal system one by one. -/
theorem exists_follow_fitting {κ : Type} {move : μ → Action σ ρ} {ideal : ξ → μ → κ × ξ}
    {Fits : ρ → κ → Prop} {R : σ → ξ → Prop}
    (step : ∀ {s x}, R s x → ∀ m, ∃ r s', (move m).run s = .ok r s' ∧ Fits r (ideal x m).1 ∧
      R s' (ideal x m).2)
    {s : σ} {x : ξ} (h : R s x) (moves : List μ) :
    ∃ rs s', (follow move moves).run s = .ok rs s' ∧
      List.Forall₂ Fits rs (answers ideal x moves).1 ∧ R s' (answers ideal x moves).2 := by
  induction moves generalizing s x with
  | nil => exact ⟨[], s, rfl, .nil, h⟩
  | cons m moves ih =>
    obtain ⟨r, s₁, first, fits, h₁⟩ := step h m
    obtain ⟨rs, s₂, rest, all, h₂⟩ := ih h₁
    refine ⟨r :: rs, s₂, ?_, .cons fits all, h₂⟩
    rw [follow, Action.run_bind_ok first, Action.run_bind_ok rest]
    rfl

theorem exists_follow {move : μ → Action σ ρ} {ideal : ξ → μ → ρ × ξ} {R : σ → ξ → Prop}
    (step : ∀ {s x}, R s x → ∀ m, ∃ s', (move m).run s = .ok (ideal x m).1 s' ∧ R s' (ideal x m).2)
    {s : σ} {x : ξ} (h : R s x) (moves : List μ) :
    ∃ s', (follow move moves).run s = .ok (answers ideal x moves).1 s' ∧
      R s' (answers ideal x moves).2 := by
  have alike : ∀ {s x}, R s x → ∀ m, ∃ r s', (move m).run s = .ok r s' ∧ r = (ideal x m).1 ∧
      R s' (ideal x m).2 := by
    intro s x rel m
    obtain ⟨s', run, rel'⟩ := step rel m
    exact ⟨_, s', run, rfl, rel'⟩
  obtain ⟨rs, s', run, same, rel⟩ := exists_follow_fitting alike h moves
  obtain rfl : rs = (answers ideal x moves).1 := by rwa [List.forall₂_eq_eq_eq] at same
  exact ⟨s', run, rel⟩

/-- What every move of an ideal system preserves is preserved by all of them. -/
theorem answers_induction {ideal : ξ → μ → ρ × ξ} {P : ξ → Prop}
    (step : ∀ {x}, P x → ∀ m, P (ideal x m).2) {x : ξ} (h : P x) (moves : List μ) :
    P (answers ideal x moves).2 := by
  induction moves generalizing x with
  | nil => exact h
  | cons m moves ih => exact ih (step h m)

end

namespace Sequence

/-! ## Moves -/

/-- What a thread can do with a sequence and the cursors on it. `χ` holds the moves that only one
kind of sequence has; cursors are numbered. -/
inductive Move (χ α : Type) where
  | put (v : α)
  | extend (vs : List α)
  | take
  | peek
  | isEmpty
  | size
  | toList
  | openCursor
  | next (i : Nat)
  | closeCursor (i : Nat)
  | special (x : χ)

structure Run (σ κ : Type) where
  collection : σ
  cursors : Opened κ

namespace Run

variable {σ κ χ α β : Type}

/-- Runs a computation on the sequence. -/
def act (a : Action σ β) : Action (Run σ κ) β := .mk fun s =>
  match a.run s.collection with
  | .ok x c => .ok x { s with collection := c }
  | .error f c => .error f { s with collection := c }

def setCursor (i : Nat) (c : Option κ) (s : Run σ κ) : Run σ κ :=
  { s with cursors := s.cursors.set i c }

variable [Sequence σ α κ]

/-- A new sequence without cursors. -/
def start : Run σ κ := ⟨Sequence.empty, .empty⟩

/-- Makes a move. A cursor that is closed has nothing to give. -/
def move (special : χ → Action σ (Reply α)) : Move χ α → Action (Run σ κ) (Reply α)
  | .put v => do act (put v); return .done
  | .extend vs => do act (Sequence.extend vs); return .done
  | .take => do return .value (← act take?)
  | .peek => do return .value (← act peek?)
  | .isEmpty => do return .flag (← act isEmpty)
  | .size => do return .count (← act size)
  | .toList => do return .values (← act toList)
  | .openCursor => do
    let c ← act openCursor
    modify fun s => { s with cursors := s.cursors.add c }
    return .done
  | .next i => do
    match (← get).cursors.get? i with
    | none => return .value none
    | some c =>
      let (v, c) ← act (next? c)
      modify (setCursor i (some c))
      return .value v
  | .closeCursor i => do
    match (← get).cursors.get? i with
    | none => return .flag false
    | some c =>
      act (closeCursor c)
      modify (setCursor i none)
      return .flag true
  | .special x => act (special x)

/-! ## What a move comes to -/

section

omit [Sequence σ α κ] in
theorem run_act {a : Action σ β} {v : β} {q q' : σ} (h : a.run q = .ok v q')
    (cursors : Opened κ) : (act a).run ⟨q, cursors⟩ = .ok v ⟨q', cursors⟩ := by
  rw [act, Action.run_mk, h]

variable {special : χ → Action σ (Reply α)} {q q' : σ} {cursors : Opened κ} {c c' : κ}
  {v : Option α} {i : Nat}

theorem run_next_of_none (closed : cursors.get? i = none) :
    (move special (.next i)).run ⟨q, cursors⟩ = .ok (.value none) ⟨q, cursors⟩ := by
  rw [move, Action.run_get_bind, closed]
  rfl

theorem run_next_of_some (cursor : cursors.get? i = some c)
    (run : (next? c).run q = .ok (v, c') q') :
    (move special (.next i)).run ⟨q, cursors⟩ = .ok (.value v) ⟨q', cursors.set i (some c')⟩ := by
  rw [move, Action.run_get_bind, cursor]
  exact Action.run_bind_ok (run_act run cursors) _

theorem run_closeCursor_of_none (closed : cursors.get? i = none) :
    (move special (.closeCursor i)).run ⟨q, cursors⟩ = .ok (.flag false) ⟨q, cursors⟩ := by
  rw [move, Action.run_get_bind, closed]
  rfl

theorem run_closeCursor_of_some (cursor : cursors.get? i = some c)
    (run : (Sequence.closeCursor c).run q = .ok () q') :
    (move special (.closeCursor i)).run ⟨q, cursors⟩ =
      .ok (.flag true) ⟨q', cursors.set i none⟩ := by
  rw [move, Action.run_get_bind, cursor]
  exact Action.run_bind_ok (run_act run cursors) _

end

end Run

/-! ## Sessions -/

namespace Session

variable {σ κ α β : Type}

theorem run_act {a : Action σ β} {v : β} {q q' : σ} (h : a.run q = .ok v q') (hasSink : Bool)
    (cursors : List (String × κ)) :
    (act a).run ⟨q, hasSink, cursors⟩ = .ok v ⟨q', hasSink, cursors⟩ := by
  simp only [act, Action.run_mk, h]

/-- What holds of all cursors and of one more holds when that one is set. -/
theorem forall_setCursor {P : κ → Prop} {cursors : List (String × κ)} {c : κ}
    (all : ∀ x ∈ cursors, P x.2) (new : P c) (name : String) (q : σ) (hasSink : Bool) :
    ∀ x ∈ (setCursor name c ⟨q, hasSink, cursors⟩ : Session σ κ).cursors, P x.2 := by
  intro x hx
  rcases List.mem_cons.mp hx with rfl | old
  · exact new
  · exact all x (List.mem_of_mem_filter old)

variable [Sequence σ α κ] {q : σ}

/-- Closing a cursor leaves the collection as it is if that is so for every cursor. -/
theorem exists_run_close (quiet : ∀ c : κ, (closeCursor c).run q = .ok () q) (name : String)
    (hasSink : Bool) (cursors : List (String × κ)) :
    ∃ was cursors', (close name).run (⟨q, hasSink, cursors⟩ : Session σ κ) =
      .ok was ⟨q, hasSink, cursors'⟩ ∧ cursors' ⊆ cursors := by
  rw [close, Action.run_get_bind]
  cases cursors.lookup name with
  | none => exact ⟨false, cursors, rfl, List.Subset.refl _⟩
  | some c =>
    rw [Action.run_modify_bind]
    exact ⟨true, _, Action.run_bind_ok (run_act (quiet c) hasSink _) _,
      fun _ => List.mem_of_mem_filter⟩

/-- Moving a cursor leaves the collection as it is if that is so for every cursor for which `P`
holds, as it does for all that there are. -/
theorem exists_run_walk {P : κ → Prop} {move : κ → Action σ (β × κ)}
    (quiet : ∀ c, P c → ∃ x c', (move c).run q = .ok (x, c') q ∧ P c') (name : String)
    (missing : β) (hasSink : Bool) {cursors : List (String × κ)} (all : ∀ x ∈ cursors, P x.2) :
    ∃ x cursors', (walk name move missing).run (⟨q, hasSink, cursors⟩ : Session σ κ) =
      .ok x ⟨q, hasSink, cursors'⟩ ∧ ∀ x ∈ cursors', P x.2 := by
  rw [walk, Action.run_get_bind]
  cases found : cursors.lookup name with
  | none => exact ⟨missing, cursors, rfl, all⟩
  | some c =>
    obtain ⟨before, behind, rfl, -⟩ := List.lookup_eq_some_iff.mp found
    obtain ⟨x, c', run, holds⟩ :=
      quiet c (all (name, c) (List.mem_append_right _ List.mem_cons_self))
    exact ⟨x, _, Action.run_bind_ok (run_act run hasSink _) _,
      forall_setCursor all holds name q hasSink⟩

end Session

end Sequence

end SharedCollections

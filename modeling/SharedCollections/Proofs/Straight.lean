import SharedCollections.Proofs.Drive
/-!
# Straight runs

An operation that waits, or that lost a race and tries again, goes back to a point where it was
before. It runs straight if it comes to its end without going back, so that each of its loops is
left in the first pass (`Straight`). An operation that comes to a result runs straight if its way is
clear at every step, for some notion of a clear way that rules out the steps back and is preserved
by all others (`Straight.of_drive`).
-/

namespace SharedCollections

variable {σ π ρ : Type}

/-- From `p` and `s` the operation comes to a result without a step back, where `back p q` says that
a step from `p` to `q` is one more pass of a loop. -/
inductive Straight (step : π → σ → Progress π ρ × σ) (back : π → π → Bool) : π → σ → Prop where
  | done {p : π} {s t : σ} {r : ρ} (last : step p s = (.done r, t)) : Straight step back p s
  | next {p q : π} {s t : σ} (first : step p s = (.next q, t)) (on : back p q = false)
      (rest : Straight step back q t) : Straight step back p s

namespace Straight

variable {step : π → σ → Progress π ρ × σ} {back : π → π → Bool} {p : π} {s t : σ} {r : ρ}

/-- What runs straight comes to a result after finitely many steps. -/
theorem exists_drive (h : Straight step back p s) : ∃ n r t, drive step n p s = .ok r t := by
  induction h with
  | done last => exact ⟨1, _, _, drive_succ_done 0 last⟩
  | next first _ _ ih =>
    obtain ⟨n, r, t, run⟩ := ih
    exact ⟨n + 1, r, t, (drive_succ_next n first).trans run⟩

/-- An operation that comes to a result runs straight if its way is clear and stays so. -/
theorem of_drive {Clear : π → σ → Prop}
    (clear : ∀ {p q s t}, Clear p s → step p s = (.next q, t) → back p q = false ∧ Clear q t)
    {n : Nat} (run : drive step n p s = .ok r t) (h : Clear p s) : Straight step back p s := by
  induction n generalizing p s with
  | zero => cases run
  | succ n ih =>
    rcases first : step p s with ⟨_ | _ | _, u⟩
    · obtain ⟨on, rest⟩ := clear h first
      exact .next first on (ih ((drive_succ_next n first).symm.trans run) rest)
    · exact .done first
    · rw [drive_succ, first] at run
      cases run

end Straight

end SharedCollections

import SharedCollections.History.Register
import SharedCollections.Proofs.History.Linearization
/-!
# The memory of the search

A search that remembers where it failed answers what it would answer without that memory, for any
logs: what it remembers is true (`Searching.Truthful`), a failed search goes back to where it
started, and the bound it is given does not matter once it is large enough. With what the search
without a memory finds, this says that checking a history is exact.
-/

namespace SharedCollections.History

variable {μ ω ρ : Type} (apply : Model μ ω ρ) [DecidableEq ρ] (logs : List (Log ω ρ))

/-- A bound that is large enough may be any. -/
theorem explore_eq_of_le {a b : Nat} {model : μ} {positions : List Nat}
    (ha : leftCount logs positions ≤ a) (hb : leftCount logs positions ≤ b) :
    explore apply logs a model positions = explore apply logs b model positions := by
  induction a generalizing b model positions with
  | zero =>
    have nothing := pending_eq_nil_iff.mpr (List.eq_nil_of_length_eq_zero (Nat.le_zero.mp ha))
    cases b <;> simp [explore, nothing]
  | succ a ih =>
    cases b with
    | zero =>
      have nothing := pending_eq_nil_iff.mpr (List.eq_nil_of_length_eq_zero (Nat.le_zero.mp hb))
      simp [explore, nothing]
    | succ b =>
      rw [Bool.eq_iff_iff]
      simp only [explore, Bool.or_eq_true, List.any_eq_true, Prod.exists]
      refine or_congr_right (exists_congr fun thread => exists_congr fun e =>
        and_congr_right fun pend => ?_)
      have := leftCount_advance pend
      rw [ih (b := b) (by omega) (by omega)]

/-- Whether going on with a candidate succeeds. -/
def succeeds (bound : Nat) (model : μ) (positions : List Nat) (candidate : Nat × Stamped ω ρ) :
    Bool :=
  !isBlocked (pending logs positions) candidate.1 candidate.2 &&
    let (next, reply) := apply model candidate.2.call
    reply = candidate.2.reply &&
      explore apply logs bound next (positions.modify candidate.1 (· + 1))

theorem explore_succ (bound : Nat) (model : μ) (positions : List Nat) :
    explore apply logs (bound + 1) model positions =
      ((pending logs positions).isEmpty ||
        (pending logs positions).any (succeeds apply logs bound model positions)) := rfl

/-! ## The search with a memory -/

variable [DecidableEq μ] [Hashable μ]

/-- Where the search is said to have failed, it fails. -/
def Searching.Truthful (s : Searching μ) : Prop :=
  ∀ positions model, (positions, model) ∈ s.failed →
    explore apply logs (leftCount logs positions) model positions = false

/-- What a search that started at `positions` has to come to: the answer of the search without a
memory, with a memory that is still true, and back where it started unless it succeeded. -/
structure Answers (positions : List Nat) (answer : Bool) (r : Bool × Searching μ) : Prop where
  answer_eq : r.1 = answer
  truthful : r.2.Truthful apply logs
  restored : r.1 = false → r.2.positions = positions

/-- Trying candidates finds out whether one of them succeeds, if going on from each of them does. At
the end of the list the failure of all candidates is the failure of the search. -/
theorem tryEach_answers {bound : Nat} {model : μ} {positions : List Nat}
    {go : μ → Searching μ → Bool × Searching μ}
    (spec : ∀ next thread e (t : Searching μ), (thread, e) ∈ pending logs positions →
      t.Truthful apply logs → t.positions = positions.modify thread (· + 1) →
      Answers apply logs t.positions (explore apply logs bound next t.positions) (go next t))
    {candidates : List (Nat × Stamped ω ρ)} (sub : candidates ⊆ pending logs positions)
    (failure : candidates.any (succeeds apply logs bound model positions) = false →
      explore apply logs (leftCount logs positions) model positions = false)
    {s : Searching μ} (truthful : s.Truthful apply logs) (here : s.positions = positions) :
    Answers apply logs positions (candidates.any (succeeds apply logs bound model positions))
      (tryEach apply (pending logs positions) model go candidates s) := by
  induction candidates generalizing s with
  | nil =>
    refine ⟨rfl, fun positions' model' mem => ?_, fun _ => here⟩
    rcases Std.HashSet.mem_insert.mp mem with same | mem
    · obtain ⟨rfl, rfl⟩ := Prod.mk.inj (eq_of_beq same)
      exact here ▸ failure rfl
    · exact truthful positions' model' mem
  | cons candidate candidates ih =>
    obtain ⟨thread, e⟩ := candidate
    obtain ⟨pend, sub⟩ := List.cons_subset.mp sub
    rw [List.any_cons] at failure ⊢
    rw [tryEach]
    rcases step : apply model e.call with ⟨next, reply⟩
    dsimp only
    split
    · next refused =>
      have fails : succeeds apply logs bound model positions (thread, e) = false := by
        rcases refused with blocked | wrong
        · simp [succeeds, blocked]
        · simp [succeeds, step, wrong]
      rw [fails, Bool.false_or] at failure ⊢
      exact ih sub failure truthful here
    · next accepted =>
      obtain ⟨free, rfl⟩ : isBlocked (pending logs positions) thread e = false ∧
          reply = e.reply := by simpa using accepted
      have head : succeeds apply logs bound model positions (thread, e) =
          explore apply logs bound next (positions.modify thread (· + 1)) := by
        simp [succeeds, free, step]
      have tried := spec next thread e
        { s with positions := s.positions.modify thread (· + 1) } pend truthful (by rw [here])
      rw [here, ← head] at tried
      rw [here]
      obtain ⟨answer_eq, truthful', restored⟩ := tried
      split
      · next t h =>
        rw [h] at answer_eq truthful'
        exact ⟨by rw [← answer_eq, Bool.true_or], truthful', fun h => by simp at h⟩
      · next t h =>
        rw [h] at answer_eq truthful' restored
        rw [← answer_eq, Bool.false_or] at failure ⊢
        refine ih sub failure truthful' ?_
        have undo : ((· - 1) : Nat → Nat) ∘ (· + 1) = id := funext fun n => Nat.add_sub_cancel n 1
        rw [restored rfl, List.modify_modify_eq, undo, List.modify_id]

/-- With a truthful memory, the search answers what it answers without one. -/
theorem search_answers {bound : Nat} {model : μ} {s : Searching μ}
    (truthful : s.Truthful apply logs) (le : leftCount logs s.positions ≤ bound) :
    Answers apply logs s.positions (explore apply logs bound model s.positions)
      (search apply logs bound model s) := by
  induction bound generalizing model s with
  | zero => exact ⟨rfl, truthful, fun _ => rfl⟩
  | succ bound ih =>
    rw [search, explore_succ]
    split
    · next nothing => exact ⟨by simp [nothing], truthful, fun h => by simp at h⟩
    · next something =>
      have enough : explore apply logs (leftCount logs s.positions) model s.positions =
          (pending logs s.positions).any (succeeds apply logs bound model s.positions) := by
        rw [explore_eq_of_le apply logs (le_refl _) le, explore_succ]
        simp [something]
      rw [Bool.eq_false_iff.mpr something, Bool.false_or]
      split
      · next known =>
        exact ⟨(enough ▸ truthful _ _ known).symm, truthful, fun _ => rfl⟩
      · next unknown =>
        refine tryEach_answers apply logs (fun next thread e t pend truthful here => ?_)
          (List.Subset.refl _) (fun h => enough.trans h) truthful rfl
        have := leftCount_advance pend
        exact ih truthful (by rw [here]; omega)

/-- The search finds a linearization of logs whose calls were made one after the other exactly if
there is one. -/
theorem check_eq_true_iff (initial : μ) (sequential : ∀ log ∈ logs, log.Sequential) :
    check apply logs initial = true ↔ ∃ order, Linearizes apply initial logs.flatten order := by
  have truthful : Searching.Truthful apply logs (⟨logs.map fun _ => 0, ∅⟩ : Searching μ) :=
    fun _ _ mem => absurd mem Std.HashSet.not_mem_empty
  have all : leftCount logs (logs.map fun _ => 0) = callCount logs := by
    rw [leftCount, rests_zero, callCount]
  rw [check, (search_answers apply logs truthful all.le).answer_eq,
    explore_iff apply logs (by rw [rests_zero]; exact .of_sequential sequential) all.le, rests_zero]

/-- Two threads with a register that holds 0. The first read comes back before the write does and
sees it all the same; the calls of the first thread follow one another. -/
def overlap : List (Log Access Datum) :=
  [[⟨0, .write (.int 1), .null, 0, 3⟩, ⟨0, .read, .ofPayload (.int 1), 4, 5⟩],
    [⟨1, .read, .ofPayload (.int 1), 1, 2⟩]]

theorem check_overlap :
    (∀ log ∈ overlap, log.Sequential) ∧ check Access.apply overlap (.int 0) = true := by
  have sequential : ∀ log ∈ overlap, log.Sequential := by
    intro log h
    constructor
    · revert log; decide
    · revert log; decide
  refine ⟨sequential, (check_eq_true_iff Access.apply overlap (.int 0) sequential).mpr
    ⟨[⟨0, .write (.int 1), .null, 0, 3⟩, ⟨1, .read, .ofPayload (.int 1), 1, 2⟩,
      ⟨0, .read, .ofPayload (.int 1), 4, 5⟩], ?_, ?_, ?_⟩⟩
  · decide
  · decide
  · exact ⟨rfl, rfl, rfl, trivial⟩

end SharedCollections.History

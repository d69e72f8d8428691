import SharedCollections.Proofs.History.Memory
/-!
# Backtracking without a bound

The search for a linearization that is written with a bound takes the course of one that has none
and moves its positions in place: `Searches` says how that one goes, one call of the search at a
time. It ends from any positions within the logs, whatever the time stamps are and whatever it
remembers (`searches_search`). It goes back to where it started if it fails, and stands at the end
of every log if it does not. What it answers is whether the calls left have a completion
(`Completes`), as long as nothing that has one is remembered as a failure.
-/

namespace SharedCollections.History

variable {μ ω ρ : Type} (apply : Model μ ω ρ) (logs : List (Log ω ρ))

/-- The calls left can all be made one after the other from a state on, each of them as the first
call left of its thread, not blocked by another thread, and with the reply that was recorded. -/
inductive Completes : μ → List Nat → Prop
  | finished {model : μ} {positions : List Nat} (nothing : pending logs positions = []) :
      Completes model positions
  | next {model next : μ} {positions : List Nat} {thread : Nat} {e : Stamped ω ρ}
      (pend : (thread, e) ∈ pending logs positions)
      (free : isBlocked (pending logs positions) thread e = false)
      (reply : apply model e.call = (next, e.reply))
      (rest : Completes next (positions.modify thread (· + 1))) :
      Completes model positions

/-- The search that remembers nothing finds out whether there is a completion. -/
theorem explore_eq_true_iff_completes [DecidableEq ρ] {bound : Nat} {model : μ}
    {positions : List Nat} (le : leftCount logs positions ≤ bound) :
    explore apply logs bound model positions = true ↔ Completes apply logs model positions := by
  induction bound generalizing model positions with
  | zero =>
    have nothing : pending logs positions = [] :=
      pending_eq_nil_iff.mpr (List.eq_nil_of_length_eq_zero (Nat.le_zero.mp le))
    exact ⟨fun _ => .finished nothing, fun _ => by simp [explore, nothing]⟩
  | succ bound ih =>
    have left {thread : Nat} {e : Stamped ω ρ} (pend : (thread, e) ∈ pending logs positions) :
        leftCount logs (positions.modify thread (· + 1)) ≤ bound := by
      have := leftCount_advance pend
      omega
    simp only [explore, Bool.or_eq_true, List.isEmpty_iff, List.any_eq_true, Prod.exists,
      Bool.and_eq_true, Bool.not_eq_true', decide_eq_true_eq]
    constructor
    · rintro (nothing | ⟨thread, e, pend, free, reply, rest⟩)
      · exact .finished nothing
      · exact .next pend free (Prod.ext rfl reply) ((ih (left pend)).mp rest)
    · rintro (nothing | ⟨pend, free, reply, rest⟩)
      · exact .inl nothing
      · refine .inr ⟨_, _, pend, free, ?_, ?_⟩
        · rw [reply]
        · rw [reply]
          exact (ih (left pend)).mpr rest

/-! ## Positions within the logs -/

/-- There is one position in each log, which is at its end or before it. -/
structure Within (positions : List Nat) : Prop where
  length_eq : positions.length = logs.length
  le : ∀ (thread position : Nat) (log : Log ω ρ), positions[thread]? = some position →
    logs[thread]? = some log → position ≤ log.length

variable {logs}

theorem mem_pending_iff_getElem? {positions : List Nat} {thread : Nat} {e : Stamped ω ρ} :
    (thread, e) ∈ pending logs positions ↔ ∃ position log, positions[thread]? = some position ∧
      logs[thread]? = some log ∧ log[position]? = some e := by
  simp only [mem_pending, rests, List.getElem?_zipWith_eq_some,
    show ∀ (log : Log ω ρ) position, log[position]? = (log.drop position).head? from
      fun log position => List.head?_drop.symm, List.head?_eq_some_iff]
  constructor
  · rintro ⟨rest, position, log, hp, hl, h⟩
    exact ⟨position, log, hp, hl, rest, h⟩
  · rintro ⟨position, log, hp, hl, rest, h⟩
    exact ⟨rest, position, log, hp, hl, h⟩

theorem Within.advance {positions : List Nat} (within : Within logs positions) {thread : Nat}
    {e : Stamped ω ρ} (pend : (thread, e) ∈ pending logs positions) :
    Within logs (positions.modify thread (· + 1)) := by
  obtain ⟨position, log, hp, hl, he⟩ := mem_pending_iff_getElem?.mp pend
  have before : position < log.length := (List.getElem?_eq_some_iff.mp he).1
  refine ⟨by rw [List.length_modify, within.length_eq], fun other position' log' hp' hl' => ?_⟩
  rw [List.getElem?_modify] at hp'
  by_cases same : thread = other
  · subst same
    obtain rfl : log' = log := by simpa [hl] using hl'.symm
    obtain rfl : position + 1 = position' := by simpa [hp] using hp'
    exact before
  · exact within.le other position' log' (by simpa [same] using hp') hl'

/-- Where no calls are left, every position is at the end of its log. -/
theorem Within.eq_of_pending_eq_nil {positions : List Nat} (within : Within logs positions)
    (nothing : pending logs positions = []) : positions = logs.map List.length := by
  refine List.ext_getElem (by rw [within.length_eq, List.length_map]) fun thread hp hl => ?_
  rw [List.length_map] at hl
  rw [List.getElem_map]
  refine Nat.le_antisymm (within.le thread _ _ (List.getElem?_eq_getElem hp)
    (List.getElem?_eq_getElem hl)) (Nat.le_of_not_lt fun before => ?_)
  have pend : (thread, logs[thread][positions[thread]]) ∈ pending logs positions :=
    mem_pending_iff_getElem?.mpr ⟨_, _, List.getElem?_eq_getElem hp, List.getElem?_eq_getElem hl,
      List.getElem?_eq_getElem before⟩
  rw [nothing] at pend
  exact List.not_mem_nil pend

/-! ## The course of the search -/

variable (logs) [DecidableEq μ] [Hashable μ]

mutual

/-- The search for an order of the calls left from `model` on answers `answer` and leaves the last
of its arguments behind: all calls are in order, the search has been here before, or it tries the
threads that have a call left. -/
inductive Searches : μ → Searching μ → Bool → Searching μ → Prop
  | finished {model : μ} {s : Searching μ} (nothing : pending logs s.positions = []) :
      Searches model s true s
  | known {model : μ} {s : Searching μ} (something : pending logs s.positions ≠ [])
      (known : (s.positions, model) ∈ s.failed) : Searches model s false s
  | unknown {model : μ} {s t : Searching μ} {answer : Bool}
      (something : pending logs s.positions ≠ []) (unknown : (s.positions, model) ∉ s.failed)
      (tries : Tries model ((pending logs s.positions).map Prod.fst) s answer t) :
      Searches model s answer t

/-- Trying some threads from `model` on, one after the other: a thread is passed over if its call is
blocked or would come back with another reply. The search goes on behind the call of a thread that
is not, and comes back before that call if it fails. Where no thread is left it is a failure to
remember. -/
inductive Tries : μ → List Nat → Searching μ → Bool → Searching μ → Prop
  | exhausted {model : μ} {s : Searching μ} :
      Tries model [] s false { s with failed := s.failed.insert (s.positions, model) }
  | blocked {model : μ} {thread : Nat} {threads : List Nat} {e : Stamped ω ρ} {s t : Searching μ}
      {answer : Bool} (pend : (thread, e) ∈ pending logs s.positions)
      (blocked : isBlocked (pending logs s.positions) thread e = true)
      (rest : Tries model threads s answer t) : Tries model (thread :: threads) s answer t
  | wrong {model : μ} {thread : Nat} {threads : List Nat} {e : Stamped ω ρ} {s t : Searching μ}
      {answer : Bool} (pend : (thread, e) ∈ pending logs s.positions)
      (free : isBlocked (pending logs s.positions) thread e = false)
      (wrong : (apply model e.call).2 ≠ e.reply)
      (rest : Tries model threads s answer t) : Tries model (thread :: threads) s answer t
  | succeeded {model next : μ} {thread : Nat} {threads : List Nat} {e : Stamped ω ρ}
      {s t : Searching μ} (pend : (thread, e) ∈ pending logs s.positions)
      (free : isBlocked (pending logs s.positions) thread e = false)
      (reply : apply model e.call = (next, e.reply))
      (deeper : Searches next { s with positions := s.positions.modify thread (· + 1) } true t) :
      Tries model (thread :: threads) s true t
  | failed {model next : μ} {thread : Nat} {threads : List Nat} {e : Stamped ω ρ}
      {s t u : Searching μ} {answer : Bool} (pend : (thread, e) ∈ pending logs s.positions)
      (free : isBlocked (pending logs s.positions) thread e = false)
      (reply : apply model e.call = (next, e.reply))
      (deeper : Searches next { s with positions := s.positions.modify thread (· + 1) } false t)
      (rest : Tries model threads { t with positions := t.positions.modify thread (· - 1) }
        answer u) :
      Tries model (thread :: threads) s answer u

end

/-- Where a search or a part of it may leave the positions that it found at `positions`. -/
def Leaves (positions : List Nat) (r : Bool × Searching μ) : Prop :=
  r.2.positions = if r.1 then logs.map List.length else positions

variable [DecidableEq ρ]

/-- Trying candidates in a copy of the calls left takes the course of trying their threads in place,
as the positions are back where they were whenever a candidate is looked at. -/
theorem tries_tryEach {model : μ} {positions : List Nat}
    {go : μ → Searching μ → Bool × Searching μ}
    (spec : ∀ next thread e (t : Searching μ), (thread, e) ∈ pending logs positions →
      t.positions = positions.modify thread (· + 1) →
      Searches apply logs next t (go next t).1 (go next t).2 ∧
        Leaves logs t.positions (go next t))
    {candidates : List (Nat × Stamped ω ρ)} (sub : candidates ⊆ pending logs positions)
    {s : Searching μ} (here : s.positions = positions) :
    let r := tryEach apply (pending logs positions) model go candidates s
    Tries apply logs model (candidates.map Prod.fst) s r.1 r.2 ∧ Leaves logs positions r := by
  induction candidates generalizing s with
  | nil => exact ⟨.exhausted, here⟩
  | cons candidate candidates ih =>
    obtain ⟨thread, e⟩ := candidate
    obtain ⟨pend, sub⟩ := List.cons_subset.mp sub
    subst here
    rw [tryEach, List.map_cons]
    rcases step : apply model e.call with ⟨next, reply⟩
    dsimp only
    split
    · next refused =>
      obtain ⟨tries, leaves⟩ := ih sub rfl
      refine ⟨?_, leaves⟩
      by_cases blocked : isBlocked (pending logs s.positions) thread e = true
      · exact .blocked pend blocked tries
      · have wrong : (apply model e.call).2 ≠ e.reply := by
          rw [step]
          exact refused.resolve_left blocked
        exact .wrong pend (Bool.eq_false_iff.mpr blocked) wrong tries
    · next accepted =>
      obtain ⟨free, rfl⟩ : isBlocked (pending logs s.positions) thread e = false ∧
          reply = e.reply := by simpa using accepted
      obtain ⟨deeper, leaves⟩ := spec next thread e
        { s with positions := s.positions.modify thread (· + 1) } pend rfl
      split
      · next t h =>
        rw [h] at deeper leaves
        exact ⟨.succeeded pend free step deeper, leaves⟩
      · next t h =>
        rw [h] at deeper leaves
        have undo : ((· - 1) : Nat → Nat) ∘ (· + 1) = id := funext fun n => Nat.add_sub_cancel n 1
        have back : t.positions.modify thread (· - 1) = s.positions := by
          rw [show t.positions = _ from leaves]
          simp [List.modify_modify_eq, undo, List.modify_id]
        obtain ⟨tries, leaves⟩ :=
          ih (s := { t with positions := t.positions.modify thread (· - 1) }) sub back
        exact ⟨.failed pend free step deeper tries, leaves⟩

/-- With a bound on the calls left, the search takes the course of the one without a bound. -/
theorem searches_search {bound : Nat} {model : μ} {s : Searching μ}
    (within : Within logs s.positions) (le : leftCount logs s.positions ≤ bound) :
    let r := search apply logs bound model s
    Searches apply logs model s r.1 r.2 ∧ Leaves logs s.positions r := by
  induction bound generalizing model s with
  | zero =>
    have nothing : pending logs s.positions = [] :=
      pending_eq_nil_iff.mpr (List.eq_nil_of_length_eq_zero (Nat.le_zero.mp le))
    have : search apply logs 0 model s = (true, s) := by simp [search, nothing]
    rw [this]
    exact ⟨.finished nothing, within.eq_of_pending_eq_nil nothing⟩
  | succ bound ih =>
    rw [search]
    split
    · next nothing =>
      have nothing := List.isEmpty_iff.mp nothing
      exact ⟨.finished nothing, within.eq_of_pending_eq_nil nothing⟩
    · next something =>
      have something : pending logs s.positions ≠ [] := fun h => something (by rw [h]; rfl)
      split
      · next known => exact ⟨.known something known, rfl⟩
      · next unknown =>
        obtain ⟨tries, leaves⟩ := tries_tryEach apply logs
          (fun next thread e (t : Searching μ) pend here => ih (here ▸ within.advance pend) (by
            have := leftCount_advance pend
            rw [here]
            omega))
          (List.Subset.refl _) rfl
        exact ⟨.unknown something unknown tries, leaves⟩

/-- What is remembered as a failure has no completion exactly if the memory is true. -/
theorem truthful_iff {s : Searching μ} : s.Truthful apply logs ↔
    ∀ positions model, (positions, model) ∈ s.failed → ¬ Completes apply logs model positions := by
  simp only [Searching.Truthful, ← explore_eq_true_iff_completes apply logs (le_refl _),
    Bool.not_eq_true]

/-- A search that remembers failures is the plain search: from any positions within the logs, and
with any memory that has no place with a completion, it ends and answers what the search without a
memory answers, which is whether there is a completion. A failed search leaves the positions as they
were and a search that succeeds leaves each at the end of its log, and what is remembered has no
completion. -/
theorem search_eq_explore {bound : Nat} {model : μ} {s : Searching μ}
    (within : Within logs s.positions) (le : leftCount logs s.positions ≤ bound)
    (failures : ∀ positions model, (positions, model) ∈ s.failed →
      ¬ Completes apply logs model positions) :
    ∃ answer t, search apply logs bound model s = (answer, t) ∧
      Searches apply logs model s answer t ∧
      (∀ plain, leftCount logs s.positions ≤ plain →
        explore apply logs plain model s.positions = answer) ∧
      (answer = true ↔ Completes apply logs model s.positions) ∧
      (∀ positions model, (positions, model) ∈ t.failed →
        ¬ Completes apply logs model positions) ∧
      (answer = false → t.positions = s.positions) ∧
      (answer = true → t.positions = logs.map List.length) := by
  obtain ⟨searches, leaves⟩ : _ ∧ Leaves logs s.positions (search apply logs bound model s) :=
    searches_search apply logs within le
  obtain ⟨answer_eq, truthful, restored⟩ : Answers apply logs s.positions _
      (search apply logs bound model s) :=
    search_answers apply logs ((truthful_iff apply logs).mpr failures) le
  have plain : ∀ plain, leftCount logs s.positions ≤ plain →
      explore apply logs plain model s.positions = (search apply logs bound model s).1 :=
    fun plain enough => by rw [answer_eq, explore_eq_of_le apply logs enough le]
  refine ⟨_, _, rfl, searches, plain, ?_, (truthful_iff apply logs).mp truthful, restored,
    fun found => ?_⟩
  · rw [answer_eq, explore_eq_true_iff_completes apply logs le]
  · rw [Leaves, if_pos found] at leaves
    exact leaves

/-- Three threads with a register that holds 0. The two writes commute, so the search comes twice to
the read, which reads what nobody wrote and comes back before it is made. -/
def commuting : List (Log Access Datum) :=
  [[⟨0, .write (.int 2), .null, 0, 8⟩], [⟨1, .write (.int 2), .null, 1, 9⟩],
    [⟨2, .read, .ofPayload (.int 1), 7, 3⟩]]

theorem search_commuting :
    let s : Searching Payload := ⟨[0, 0, 0], (∅ : Std.HashSet _).insert ([0, 1, 0], .int 0)⟩
    Within commuting s.positions ∧ leftCount commuting s.positions ≤ 3 ∧
      (∀ positions model, (positions, model) ∈ s.failed →
        ¬ Completes Access.apply commuting model positions) ∧
      ∃ t, search Access.apply commuting 3 (.int 0) s = (false, t) ∧ t.positions = [0, 0, 0] ∧
        ∀ positions model, (positions, model) ∈ t.failed →
          ¬ Completes Access.apply commuting model positions := by
  intro s
  have within : Within commuting s.positions :=
    ⟨rfl, fun thread position log hp _ => by
      have zero : position ∈ [0, 0, 0] := List.mem_of_getElem? hp
      obtain rfl : position = 0 := by simpa using zero
      exact Nat.zero_le _⟩
  have failures : ∀ positions model, (positions, model) ∈ s.failed →
      ¬ Completes Access.apply commuting model positions := by
    intro positions model mem
    obtain ⟨rfl, rfl⟩ : [0, 1, 0] = positions ∧ Payload.int 0 = model := by simpa [s] using mem
    have left : leftCount commuting [0, 1, 0] ≤ 2 := by decide
    rw [← explore_eq_true_iff_completes Access.apply commuting left]
    decide
  have left : leftCount commuting s.positions ≤ 3 := by decide
  obtain ⟨answer, t, ends, -, plain, -, failures', restored, -⟩ :
      ∃ answer t, search Access.apply commuting 3 (.int 0) s = (answer, t) ∧ _ :=
    search_eq_explore Access.apply commuting within left failures
  obtain rfl : false = answer := (by decide : _ = false).symm.trans (plain 3 left)
  exact ⟨within, left, failures, t, ends, restored rfl, failures'⟩

end SharedCollections.History

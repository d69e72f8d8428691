import SharedCollections.History.Search
import Mathlib.Data.List.Chain
/-!
# What the search for a linearization finds

The search looks at the first call left of each thread only, and asks only of those whether they
have to come before a candidate. That is enough for logs whose calls follow one another in time: the
first call left of a thread then stands for all that the thread has left (`isBlocked_eq_false_iff`).
The statements below speak of what is left of the logs and not of positions in them, so that a step
of the search takes the head off one log.
-/

namespace SharedCollections.History

variable {μ ω ρ : Type}

/-! ## Linearizations -/

/-- Whether one thread alone, making the calls in this order, gets the replies that were recorded.
-/
def Replays (apply : Model μ ω ρ) : μ → List (Stamped ω ρ) → Prop
  | _, [] => True
  | model, e :: order =>
    (apply model e.call).2 = e.reply ∧ Replays apply (apply model e.call).1 order

/-- `order` has every one of `calls` exactly once, no call behind one that was made after it came
back, and replies that one thread alone would get. -/
structure Linearizes (apply : Model μ ω ρ) (initial : μ) (calls order : List (Stamped ω ρ)) :
    Prop where
  perm : order.Perm calls
  inTime : order.Pairwise fun e f => ¬ f.precedes e
  replays : Replays apply initial order

/-- The calls of a log were made one after the other. -/
structure Log.Sequential (log : Log ω ρ) : Prop where
  ends : ∀ e ∈ log, e.invoked ≤ e.returned
  follows : log.IsChain fun e f => e.returned < f.invoked

/-! ## What is left of the logs -/

/-- What is left of each log behind the calls that have been put in order. -/
def rests (logs : List (Log ω ρ)) (positions : List Nat) : List (Log ω ρ) :=
  List.zipWith List.drop positions logs

theorem rests_zero (logs : List (Log ω ρ)) : rests logs (logs.map fun _ => 0) = logs := by
  induction logs with
  | nil => rfl
  | cons log logs ih => simpa [rests] using ih

/-- Taking the call at a position is taking the head of what is left. -/
theorem rests_advance (logs : List (Log ω ρ)) (positions : List Nat) (thread : Nat) :
    rests logs (positions.modify thread (· + 1)) =
      (rests logs positions).modify thread List.tail := by
  refine List.ext_getElem? fun other => ?_
  simp only [rests, List.getElem?_zipWith, List.getElem?_modify]
  cases positions[other]? <;> cases logs[other]? <;> simp
  split <;> simp

theorem mem_pending {logs : List (Log ω ρ)} {positions : List Nat} {thread : Nat}
    {e : Stamped ω ρ} :
    (thread, e) ∈ pending logs positions ↔
      ∃ rest, (rests logs positions)[thread]? = some (e :: rest) := by
  simp only [pending, rests, List.mem_filterMap, Prod.exists, List.mem_zipIdx_iff_getElem?,
    List.getElem?_zip_eq_some, Option.map_eq_some_iff, Prod.mk.injEq, List.getElem?_zipWith_eq_some]
  constructor
  · rintro ⟨log, position, _, ⟨hl, hp⟩, e, he, rfl, rfl⟩
    rw [← List.head?_drop, List.head?_eq_some_iff] at he
    obtain ⟨rest, he⟩ := he
    exact ⟨rest, position, log, hp, hl, he⟩
  · rintro ⟨rest, position, log, hp, hl, he⟩
    refine ⟨log, position, thread, ⟨hl, hp⟩, e, ?_, rfl, rfl⟩
    rw [← List.head?_drop, he, List.head?_cons]

theorem pending_eq_nil_iff {logs : List (Log ω ρ)} {positions : List Nat} :
    pending logs positions = [] ↔ (rests logs positions).flatten = [] := by
  simp only [List.flatten_eq_nil_iff, List.eq_nil_iff_forall_not_mem (l := pending _ _),
    Prod.forall, mem_pending, not_exists]
  constructor
  · intro h rest hrest
    obtain ⟨thread, ht⟩ := List.getElem?_of_mem hrest
    cases rest with
    | nil => rfl
    | cons e rest => exact absurd ht (h thread e rest)
  · intro h thread e rest ht
    exact absurd (h _ (List.mem_of_getElem? ht)) (by simp)

/-- The head of one log and all that is left without it. -/
theorem perm_cons_flatten_modify_tail {logs : List (Log ω ρ)} {thread : Nat} {e : Stamped ω ρ}
    {rest : Log ω ρ} (h : logs[thread]? = some (e :: rest)) :
    logs.flatten.Perm (e :: (logs.modify thread List.tail).flatten) := by
  induction logs generalizing thread with
  | nil => simp at h
  | cons log logs ih =>
    cases thread with
    | zero =>
      obtain rfl : log = e :: rest := by simpa using h
      simp
    | succ thread =>
      have : logs.flatten.Perm (e :: (logs.modify thread List.tail).flatten) :=
        ih (by simpa using h)
      simpa using (this.append_left log).trans List.perm_middle

/-! ## Logs in time -/

/-- The order in time of what is left of all logs. -/
structure InTime (logs : List (Log ω ρ)) : Prop where
  ends : ∀ log ∈ logs, ∀ e ∈ log, e.invoked ≤ e.returned
  follows : ∀ log ∈ logs, log.Pairwise fun e f => e.returned < f.invoked

theorem Log.Sequential.pairwise {log : Log ω ρ} (h : log.Sequential) :
    log.Pairwise fun e f => e.returned < f.invoked := by
  obtain ⟨ends, follows⟩ := h
  induction log with
  | nil => exact .nil
  | cons e log ih =>
    have tail := ih (fun f hf => ends f (List.mem_cons_of_mem _ hf)) follows.tail
    refine List.pairwise_cons.mpr ⟨fun f hf => ?_, tail⟩
    cases log with
    | nil => simp at hf
    | cons g log =>
      have first : e.returned < g.invoked := follows.rel
      have := ends g (by simp)
      rcases List.mem_cons.mp hf with rfl | hf
      · exact first
      · have := List.rel_of_pairwise_cons tail hf
        omega

theorem InTime.of_sequential {logs : List (Log ω ρ)} (h : ∀ log ∈ logs, log.Sequential) :
    InTime logs :=
  ⟨fun log hlog => (h log hlog).ends, fun log hlog => (h log hlog).pairwise⟩

theorem InTime.modify_tail {logs : List (Log ω ρ)} (h : InTime logs) (thread : Nat) :
    InTime (logs.modify thread List.tail) := by
  have sublist : ∀ log ∈ logs.modify thread List.tail, ∃ log' ∈ logs, log.Sublist log' := by
    intro log hlog
    obtain ⟨other, ho⟩ := List.getElem?_of_mem hlog
    rw [List.getElem?_modify] at ho
    obtain ⟨log', hl, rfl⟩ := Option.map_eq_some_iff.mp ho
    refine ⟨log', List.mem_of_getElem? hl, ?_⟩
    split
    · exact List.tail_sublist log'
    · exact List.Sublist.refl log'
  constructor
  · intro log hlog e he
    obtain ⟨log', hlog', hs⟩ := sublist log hlog
    exact h.ends log' hlog' e (hs.subset he)
  · intro log hlog
    obtain ⟨log', hlog', hs⟩ := sublist log hlog
    exact (h.follows log' hlog').sublist hs

/-- Within one log, nothing has come back before the first call was made. -/
theorem InTime.not_precedes_head {logs : List (Log ω ρ)} (h : InTime logs) {e f : Stamped ω ρ}
    {rest : Log ω ρ} (hlog : e :: rest ∈ logs) (hf : f ∈ e :: rest) : ¬ f.precedes e := by
  have he := h.ends _ hlog e List.mem_cons_self
  have hf' := h.ends _ hlog f hf
  have := h.follows _ hlog
  simp only [Stamped.precedes, decide_eq_true_eq, not_lt]
  rcases List.mem_cons.mp hf with rfl | hr
  · exact he
  · have := List.rel_of_pairwise_cons this hr
    omega

/-- What comes back before a call is made makes the head of its log come back before that, too. -/
theorem InTime.head_precedes {logs : List (Log ω ρ)} (h : InTime logs) {e f g : Stamped ω ρ}
    {rest : Log ω ρ} (hlog : g :: rest ∈ logs) (hf : f ∈ g :: rest) (hfe : f.precedes e) :
    g.precedes e := by
  have hf' := h.ends _ hlog f hf
  simp only [Stamped.precedes, decide_eq_true_eq] at hfe ⊢
  rcases List.mem_cons.mp hf with rfl | hr
  · exact hfe
  · have := List.rel_of_pairwise_cons (h.follows _ hlog) hr
    omega

/-- The heads of the other logs stand for all that is left: a head that none of them precedes is
preceded by nothing. -/
theorem isBlocked_eq_false_iff {logs : List (Log ω ρ)} {positions : List Nat}
    (h : InTime (rests logs positions)) {thread : Nat} {e : Stamped ω ρ} {rest : Log ω ρ}
    (he : (rests logs positions)[thread]? = some (e :: rest)) :
    isBlocked (pending logs positions) thread e = false ↔
      ∀ f ∈ (rests logs positions).flatten, ¬ f.precedes e := by
  simp only [isBlocked, List.any_eq_false, Prod.forall, Bool.and_eq_true, bne_iff_ne, ne_eq,
    not_and]
  constructor
  · intro hfree f hf hfe
    obtain ⟨log, hlog, hf⟩ := List.mem_flatten.mp hf
    obtain ⟨other, hother⟩ := List.getElem?_of_mem hlog
    cases log with
    | nil => simp at hf
    | cons g log =>
      by_cases hsame : other = thread
      · obtain ⟨rfl, rfl⟩ : g = e ∧ log = rest := by simpa [hsame, he, eq_comm] using hother
        exact h.not_precedes_head hlog hf hfe
      · exact hfree other g (mem_pending.mpr ⟨log, hother⟩) hsame (h.head_precedes hlog hf hfe)
  · intro hfree other f hf _ hfe
    obtain ⟨log, hlog⟩ := mem_pending.mp hf
    exact hfree f (List.mem_flatten.mpr ⟨_, List.mem_of_getElem? hlog, List.mem_cons_self⟩) hfe

/-! ## The search without a memory -/

variable (apply : Model μ ω ρ)

/-- A call that can come first is the head of a log, and nothing left precedes it. -/
theorem exists_linearizes_iff {logs : List (Log ω ρ)} {positions : List Nat}
    (h : InTime (rests logs positions)) (model : μ) :
    (∃ order, Linearizes apply model (rests logs positions).flatten order) ↔
      (rests logs positions).flatten = [] ∨
        ∃ thread e, (thread, e) ∈ pending logs positions ∧
          isBlocked (pending logs positions) thread e = false ∧
          (apply model e.call).2 = e.reply ∧
          ∃ order, Linearizes apply (apply model e.call).1
            (rests logs (positions.modify thread (· + 1))).flatten order := by
  constructor
  · rintro ⟨order, perm, inTime, replays⟩
    cases order with
    | nil => exact .inl perm.nil_eq.symm
    | cons e order =>
      right
      have self : ¬ e.precedes e := by
        obtain ⟨log, hlog, he⟩ := List.mem_flatten.mp (perm.subset List.mem_cons_self)
        have := h.ends log hlog e he
        simpa [Stamped.precedes] using this
      have first : ∀ f ∈ (rests logs positions).flatten, ¬ f.precedes e := by
        intro f hf
        rcases List.mem_cons.mp (perm.symm.subset hf) with rfl | hf
        · exact self
        · exact List.rel_of_pairwise_cons inTime hf
      obtain ⟨log, hlog, he⟩ := List.mem_flatten.mp (perm.subset List.mem_cons_self)
      obtain ⟨thread, ht⟩ := List.getElem?_of_mem hlog
      -- `e` heads its log, for the head of that log would precede it otherwise
      obtain ⟨rest, rfl⟩ : ∃ rest, log = e :: rest := by
        cases log with
        | nil => simp at he
        | cons g rest =>
          rcases List.mem_cons.mp he with rfl | he
          · exact ⟨rest, rfl⟩
          · have := List.rel_of_pairwise_cons (h.follows _ hlog) he
            exact absurd (by simpa [Stamped.precedes] using this)
              (first g (List.mem_flatten.mpr ⟨_, hlog, List.mem_cons_self⟩))
      refine ⟨thread, e, mem_pending.mpr ⟨rest, ht⟩, (isBlocked_eq_false_iff h ht).mpr first,
        replays.1, order, ?_, inTime.of_cons, replays.2⟩
      rw [rests_advance]
      exact (perm.trans (perm_cons_flatten_modify_tail ht)).cons_inv
  · rintro (nothing | ⟨thread, e, pend, free, reply, order, perm, inTime, replays⟩)
    · exact ⟨[], by rw [nothing], .nil, trivial⟩
    · obtain ⟨rest, ht⟩ := mem_pending.mp pend
      rw [rests_advance] at perm
      have perm' := (perm.cons e).trans (perm_cons_flatten_modify_tail ht).symm
      have first := (isBlocked_eq_false_iff h ht).mp free
      refine ⟨e :: order, perm', List.pairwise_cons.mpr ⟨fun f hf => ?_, inTime⟩, reply, replays⟩
      exact first f (perm'.subset (List.mem_cons_of_mem _ hf))

/-- How many calls are left. -/
def leftCount (logs : List (Log ω ρ)) (positions : List Nat) : Nat :=
  (rests logs positions).flatten.length

theorem leftCount_advance {logs : List (Log ω ρ)} {positions : List Nat} {thread : Nat}
    {e : Stamped ω ρ} (h : (thread, e) ∈ pending logs positions) :
    leftCount logs positions = leftCount logs (positions.modify thread (· + 1)) + 1 := by
  obtain ⟨rest, ht⟩ := mem_pending.mp h
  rw [leftCount, leftCount, rests_advance, (perm_cons_flatten_modify_tail ht).length_eq,
    List.length_cons]

variable [DecidableEq ρ] (logs : List (Log ω ρ))

theorem explore_iff {bound : Nat} {model : μ} {positions : List Nat}
    (h : InTime (rests logs positions)) (le : leftCount logs positions ≤ bound) :
    explore apply logs bound model positions = true ↔
      ∃ order, Linearizes apply model (rests logs positions).flatten order := by
  induction bound generalizing model positions with
  | zero =>
    have nothing : (rests logs positions).flatten = [] :=
      List.eq_nil_of_length_eq_zero (Nat.le_zero.mp le)
    rw [exists_linearizes_iff apply h]
    simp [explore, pending_eq_nil_iff.mpr nothing, nothing]
  | succ bound ih =>
    rw [exists_linearizes_iff apply h, ← pending_eq_nil_iff]
    simp only [explore, Bool.or_eq_true, List.isEmpty_iff, List.any_eq_true, Prod.exists,
      Bool.and_eq_true, Bool.not_eq_true', decide_eq_true_eq]
    refine or_congr_right (exists_congr fun thread => exists_congr fun e =>
      and_congr_right fun pend => and_congr_right fun _ => and_congr_right fun _ => ?_)
    refine ih ?_ ?_
    · rw [rests_advance]
      exact h.modify_tail thread
    · have := leftCount_advance pend
      omega

end SharedCollections.History

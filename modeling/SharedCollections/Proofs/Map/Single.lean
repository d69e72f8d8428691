import SharedCollections.Map.Workload
import SharedCollections.Proofs.Map.Refinement
import SharedCollections.Proofs.Map.Upsert
/-!
# Commands on one key

What a command on one key answers depends on the value of that key alone, and the key is all that it
gives another value (`Command.onKey`). So in a sequence of such commands each key has a history of
its own: the commands on it answer, and leave it, as if there were no other keys
(`Models.runEach`).
-/

namespace SharedCollections

namespace Map

variable {κ ν : Type}

/-! ## Keys and values -/

namespace Command

/-- The key of a command that works on one key and calls nothing that works on the map. -/
def key? : Command κ ν → Option κ
  | .plain (.insertIfNew k _) | .plain (.insertNew k _) | .plain (.insert k _) | .plain (.get? k)
  | .plain (.erase? k) | .plain (.eraseIfEq k _) | .plain (.replaceIfEq k _ _)
  | .plain (.getOrInsert k _) | .upsert k _ [] _ => some k
  | _ => none

/-- What a command on one key answers if the key has the value `current`, and the value that the key
has afterwards. -/
def onKey [DecidableEq ν] : Command κ ν → (current : Option ν) → Reply κ ν × Option ν
  | .plain (.insertIfNew _ v), current => (.flag current.isNone, some (current.getD v))
  | .plain (.insertNew _ v), none => (.done, some v)
  | .plain (.insertNew _ _), some w => (.misuse .duplicateKey, some w)
  | .plain (.insert _ v), _ => (.done, some v)
  | .plain (.get? _), current => (.value current, current)
  | .plain (.erase? _), current => (.value current, none)
  | .plain (.eraseIfEq _ v), current =>
    (.flag (current = some v), if current = some v then none else current)
  | .plain (.replaceIfEq _ v expected), current =>
    (.flag (current = some expected), if current = some expected then some v else current)
  | .plain (.getOrInsert _ v), current =>
    (.value (some (current.getD v)), some (current.getD v))
  | .upsert _ v _ _, none => (.updated v [], some v)
  | .upsert k _ _ formula, some w =>
    match formula k (some w) with
    | .ok v => (.updated v [[]], some v)
    | .error f => (.fault f, some w)
  | _, current => (.done, current)

/-- What commands on one key answer one after the other if the key has the value `current` at first,
and the value that it has at last. -/
def replay [DecidableEq ν] : List (Command κ ν) → (current : Option ν) → List (Reply κ ν) × Option ν
  | [], current => ([], current)
  | c :: cs, current =>
    let (r, current) := c.onKey current
    let (rs, current) := replay cs current
    (r :: rs, current)

theorem replay_cons [DecidableEq ν] (c : Command κ ν) (cs : List (Command κ ν))
    (current : Option ν) : replay (c :: cs) current =
      ((c.onKey current).1 :: (replay cs (c.onKey current).2).1,
        (replay cs (c.onKey current).2).2) := rfl

theorem replay_snd [DecidableEq ν] (cs : List (Command κ ν)) (current : Option ν) :
    (replay cs current).2 = cs.foldl (fun current c => (c.onKey current).2) current := by
  induction cs generalizing current with
  | nil => rfl
  | cons c cs ih => exact ih _

end Command

variable [DecidableEq κ]

/-! ## One command -/

/-- Gives `k` the value `v?`, or none. -/
def Dict.assign (k : κ) (v? : Option ν) (d : Dict κ ν) : Dict κ ν :=
  match v? with
  | some v => d.insert k v
  | none => d.erase k

theorem Dict.lookup_assign (k : κ) (v? : Option ν) (d : Dict κ ν) (j : κ) :
    (Dict.assign k v? d).lookup j = if j = k then v? else d.lookup j := by
  by_cases same : j = k
  · subst same
    cases v? <;> simp [assign]
  · cases v? <;> simp [assign, same]

theorem Dict.assign_of_eq {k : κ} {v? : Option ν} {d : Dict κ ν} (h : d.lookup k = v?) :
    Dict.assign k v? d = d := by
  refine Finmap.ext_lookup fun j => ?_
  rw [Dict.lookup_assign]
  split
  · next same => rw [same, h]
  · rfl

theorem Dict.isNone_lookup (k : κ) (d : Dict κ ν) : (d.lookup k).isNone = decide (k ∉ d) := by
  rw [Bool.eq_iff_iff, Option.isNone_iff_eq_none, Finmap.lookup_eq_none, decide_eq_true_iff]

theorem Dict.addNew_eq (k : κ) (v : ν) (d : Dict κ ν) :
    Dict.addNew k v d = Dict.assign k (some ((d.lookup k).getD v)) d := by
  rw [Dict.addNew]
  split
  · next present =>
    obtain ⟨w, value⟩ := Finmap.mem_iff.mp present
    rw [value, Option.getD_some, Dict.assign_of_eq value]
  · next absent =>
    rw [Finmap.lookup_eq_none.mpr absent]
    rfl

variable [DecidableEq ν]

/-- A finite map answers a command on one key by the value of the key, and changes that alone. -/
theorem Answers.onKey {c : Plain κ ν} {d d' : Dict κ ν} {r : Reply κ ν} {k : κ}
    (h : Answers c d r d') (on : (Command.plain c).key? = some k) :
    r = ((Command.plain c).onKey (d.lookup k)).1 ∧
      d' = Dict.assign k ((Command.plain c).onKey (d.lookup k)).2 d := by
  cases h with
  | insertIfNew =>
    cases on
    exact ⟨by rw [Command.onKey, Dict.isNone_lookup], Dict.addNew_eq _ _ _⟩
  | insertNew absent =>
    cases on
    rw [Finmap.lookup_eq_none.mpr absent]
    exact ⟨rfl, rfl⟩
  | duplicateKey present =>
    cases on
    obtain ⟨w, value⟩ := Finmap.mem_iff.mp present
    rw [value]
    exact ⟨rfl, (Dict.assign_of_eq value).symm⟩
  | insert | erase? =>
    cases on
    exact ⟨rfl, rfl⟩
  | get? =>
    cases on
    exact ⟨rfl, (Dict.assign_of_eq rfl).symm⟩
  | getOrInsert =>
    cases on
    exact ⟨rfl, Dict.addNew_eq _ _ _⟩
  | @eraseIfEq k v d =>
    cases on
    refine ⟨rfl, ?_⟩
    rw [Command.onKey]
    dsimp only
    split
    · rfl
    · exact (Dict.assign_of_eq rfl).symm
  | @replaceIfEq k v expected d =>
    cases on
    refine ⟨rfl, ?_⟩
    rw [Command.onKey]
    dsimp only
    split
    · rfl
    · exact (Dict.assign_of_eq rfl).symm
  | _ => cases on

namespace Models

variable {m : Map κ ν} {d : Dict κ ν}

/-- A run answers and gives `k` a value as `p` says, unless a stripe overflows. -/
def EndsOnKey (k : κ) (d : Dict κ ν) (p : Reply κ ν × Option ν) :
    Ending (Map κ ν) (Reply κ ν) → Prop
  | .ok r m => r = p.1 ∧ Models m (d.assign k p.2)
  | .error f m => .fault f = p.1 ∧ Models m (d.assign k p.2) ∨ ∃ s, f = .stripeOverflow s

/-- An upsert whose functions leave the map alone takes one pass, as nothing comes between. -/
theorem upsert (h : Models m d) (k : κ) (v : ν) (formula : Formula κ ν) :
    EndsOnKey k d ((Command.upsert k v [] formula).onKey (d.lookup k))
      ((Command.upsert k v [] formula).run.run m) := by
  let add : Nat → Action (Map κ ν) (ν × List (Reply κ ν)) := fun _ => pure (v, [])
  let update : Nat → ν → Action (Map κ ν) (ν × List (Reply κ ν)) := fun n current => do
    let replies ← runNth [] n
    return (← formula.eval k (some current), replies)
  let s : Upsert.Stage κ ν (List (Reply κ ν)) := ⟨m, [], []⟩
  have called : Models (m.emit .called) d := h.retrace _
  rw [Command.run]
  change EndsOnKey _ _ _ ((Map.upsertWith k add update 1 >>= _).run m)
  have pass : (Map.upsertWith k add update 1).run m = Upsert.resume k add update 1 s := rfl
  cases found : m.find? k with
  | some e =>
    have value := h.lookup_of_find? found
    cases computed : formula k (some e.value) with
    | ok w =>
      have made : Upsert.outcome k add update s = .ok (w, []) (m.emit .called) := by
        rw [Upsert.outcome_of_some found]
        simp only [update, runNth, call, record, Formula.eval, computed]
        rfl
      have here : (m.emit .called).find? k = some e := found
      obtain ⟨he, rfl⟩ := mem_of_find?_eq_some found
      rw [Upsert.resume_of_some found made, run_replaceIf_of_some here, beq_self_eq_true] at pass
      rw [Action.run_bind_ok pass, value, Command.onKey, computed]
      exact ⟨rfl, (called.substitute he w).guarded _⟩
    | error f =>
      have failed : Upsert.outcome k add update s = .error f (m.emit .called) := by
        rw [Upsert.outcome_of_some found]
        simp only [update, runNth, call, record, Formula.eval, computed]
        rfl
      rw [Upsert.resume_of_error failed] at pass
      rw [Action.run_bind_error pass, value, Command.onKey, computed]
      exact .inl ⟨rfl, (Dict.assign_of_eq value).symm ▸ called⟩
  | none =>
    have absent := h.find?_eq_none.mp found
    have made : Upsert.outcome k add update s = .ok (v, []) (m.emit .called) := by
      rw [Upsert.outcome_of_none found]
      rfl
    have ends := called.insertIfNew k v
    rw [Upsert.resume_of_none found made] at pass
    cases write : (Map.insertIfNew k v).run (m.emit .called) with
    | ok added m' =>
      rw [write] at ends pass
      obtain ⟨rfl, h'⟩ := ends
      rw [decide_eq_true absent] at pass
      rw [Action.run_bind_ok pass, Finmap.lookup_eq_none.mpr absent]
      rw [Dict.addNew, if_neg absent] at h'
      exact ⟨rfl, h'⟩
    | error f m' =>
      rw [write] at ends pass
      obtain ⟨i, rfl, -⟩ := ends
      rw [Action.run_bind_error pass]
      exact .inr ⟨i, rfl⟩

/-- A command on one key answers by the value of the key, and changes that alone. -/
theorem command (h : Models m d) {c : Command κ ν} {k : κ} (on : c.key? = some k) :
    EndsOnKey k d (c.onKey (d.lookup k)) (c.run.run m) := by
  cases c with
  | plain c =>
    have ends := h.plain (c := c) (by cases c <;> first | rfl | cases on)
    rw [Command.run]
    cases run : c.run.run m with
    | ok r m' =>
      rw [run] at ends
      obtain ⟨d', answers, h'⟩ := ends
      obtain ⟨rfl, rfl⟩ := answers.onKey on
      exact ⟨rfl, h'⟩
    | error f m' =>
      rw [run] at ends
      obtain ⟨s, rfl, -⟩ := ends
      exact .inr ⟨s, rfl⟩
  | upsert k' v scripts formula =>
    cases scripts with
    | nil =>
      cases on
      exact h.upsert k v formula
    | cons => cases on
  | _ => cases on

/-- What becomes of a command on one key if a fault is an answer, too. -/
theorem attempt (h : Models m d) {c : Command κ ν} {k : κ} (on : c.key? = some k) :
    ∃ r m', c.run.attempt.run m = .ok r m' ∧
      ((∃ s, Reply.ofAttempt r = .fault (.stripeOverflow s)) ∨
        Reply.ofAttempt r = (c.onKey (d.lookup k)).1 ∧
          Models m' (d.assign k (c.onKey (d.lookup k)).2)) := by
  have ends := h.command on
  rw [Action.attempt, Action.run_mk]
  cases run : c.run.run m with
  | ok r m' =>
    rw [run] at ends
    exact ⟨.ok r, m', rfl, .inr ends⟩
  | error f m' =>
    rw [run] at ends
    refine ⟨.error f, m', rfl, ends.symm.imp_left ?_⟩
    rintro ⟨s, rfl⟩
    exact ⟨s, rfl⟩

end Models

/-! ## Sequences of commands -/

/-- Faults are answers, so there is an answer to every command. -/
theorem exists_run_runEach (cs : List (Command κ ν)) (m : Map κ ν) :
    ∃ rs m', (runEach cs).run m = .ok rs m' ∧ rs.length = cs.length := by
  induction cs generalizing m with
  | nil => exact ⟨[], m, rfl, rfl⟩
  | cons c cs ih =>
    obtain ⟨r, m', run⟩ : ∃ r m', c.run.attempt.run m = .ok r m' := by
      rw [Action.attempt, Action.run_mk]
      cases c.run.run m <;> exact ⟨_, _, rfl⟩
    obtain ⟨rs, m'', run', length⟩ := ih m'
    rw [runEach, Action.run_bind_ok run]
    exact ⟨_, m'', Action.run_bind_ok run' _, congrArg (· + 1) length⟩

/-- The answers to the commands on `k`. -/
def repliesOn (k : κ) (cs : List (Command κ ν)) (rs : List (Reply κ ν)) : List (Reply κ ν) :=
  ((cs.zip rs).filter (·.1.key? = some k)).map (·.2)

/-- Unless a stripe overflows, every key has the history that the commands on it make, as if there
were no other keys. -/
theorem Models.history {m m' : Map κ ν} {d : Dict κ ν} (h : Models m d) {cs : List (Command κ ν)}
    {rs : List (Reply κ ν)} (on : ∀ c ∈ cs, c.key?.isSome) (run : (runEach cs).run m = .ok rs m')
    (fits : ∀ s, .fault (.stripeOverflow s) ∉ rs) :
    ∃ d', Models m' d' ∧ ∀ k, Command.replay (cs.filter (·.key? = some k)) (d.lookup k) =
      (repliesOn k cs rs, d'.lookup k) := by
  induction cs generalizing m d rs with
  | nil =>
    cases run
    exact ⟨d, h, fun k => rfl⟩
  | cons c cs ih =>
    obtain ⟨k, key⟩ := Option.isSome_iff_exists.mp (on c List.mem_cons_self)
    obtain ⟨r, m₁, run₁, head⟩ := h.attempt key
    obtain ⟨rs', m₂, run₂, -⟩ := exists_run_runEach cs m₁
    rw [runEach, Action.run_bind_ok run₁, Action.run_bind_ok run₂] at run
    cases run
    rcases head with ⟨s, overflow⟩ | ⟨answer, h₁⟩
    · exact absurd (overflow ▸ List.mem_cons_self) (fits s)
    · have fits' : ∀ s, .fault (.stripeOverflow s) ∉ rs' :=
        fun s mem => fits s (List.mem_cons_of_mem _ mem)
      obtain ⟨d', h', history⟩ :=
        ih h₁ (fun c hc => on c (List.mem_cons_of_mem _ hc)) run₂ fits'
      refine ⟨d', h', fun j => ?_⟩
      specialize history j
      rw [Dict.lookup_assign] at history
      by_cases same : c.key? = some j
      · obtain rfl : k = j := Option.some.inj (key.symm.trans same)
        rw [if_pos rfl] at history
        rw [repliesOn, List.zip_cons_cons, List.filter_cons_of_pos (by simpa using same),
          List.filter_cons_of_pos (by simpa using same), Command.replay_cons, history, answer]
        rfl
      · have other : j ≠ k := fun eq => same (eq ▸ key)
        rw [if_neg other] at history
        rw [repliesOn, List.zip_cons_cons, List.filter_cons_of_neg (by simpa using same),
          List.filter_cons_of_neg (by simpa using same), history]
        rfl

end Map

end SharedCollections

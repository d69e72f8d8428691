import SharedCollections.Map.Command
import SharedCollections.Proofs.Drive
import SharedCollections.Proofs.Map.Change
/-!
# Parts of operations

An operation on a map comes in parts: what it does with one stripe locked, or with all of them, and
what it does in between. Between two parts other threads, cursors and the functions of a caller see
the map. Here are the runs of the parts, one equation for each way in which a part can end, and the
change that each of them makes.
-/

namespace SharedCollections

namespace Map

variable {κ ν α β : Type}

/-! ## Runs with one stripe locked -/

/-- The map after a stripe was locked and unlocked. -/
def guarded (stripe : Nat) (m : Map κ ν) : Map κ ν :=
  (m.emit (.locked stripe)).emit (.unlocked stripe)

theorem run_lockKey (k : κ) (m : Map κ ν) :
    (lockKey k).run m = .ok (m.target k) (m.emit (.locked (m.target k).stripe)) := by
  rw [lockKey, run_alone, drive_succ_next _ rfl]
  exact drive_succ_done _ (by simp [Locking.step, emit, generation, target])

/-- A part that locks the stripe of a key goes on with the chain of the key. -/
theorem run_lockKey_bind (k : κ) (f : Target → List (Entry κ ν) → Action (Map κ ν) α)
    (m : Map κ ν) :
    (do let t ← lockKey k; let chain ← chainOf t; f t chain : Action (Map κ ν) α).run m =
      (f (m.target k) (m.table.chain (m.target k).bucket)).run
        (m.emit (.locked (m.target k).stripe)) := by
  rw [Action.run_bind_ok (run_lockKey k m)]
  exact Action.run_bind_ok rfl _

section

variable [DecidableEq κ] {m : Map κ ν} {k : κ} {e : Entry κ ν}

/-- An entry that a search finds. -/
theorem mem_of_find?_eq_some (found : m.find? k = some e) : e ∈ m.entries ∧ e.key = k := by
  have here := List.mem_of_find?_eq_some found
  have isFor := List.find?_some found
  rw [Entry.isFor, Bool.and_eq_true, beq_iff_eq, beq_iff_eq] at isFor
  exact ⟨m.table.mem_entries.mpr ⟨_, here⟩, isFor.2⟩

theorem find?_chain : (m.table.chain (m.target k).bucket).find? (Entry.isFor (m.target k).hash k) =
    m.find? k := rfl

theorem run_insertLocked_of_some (found : m.find? k = some e) (v : ν) (replace : Bool) :
    (insertLocked k v replace).run m =
      .ok (⟨false, if replace then v else e.value⟩, none)
        (guarded (m.target k).stripe
          (if replace then m.substitute (m.target k) e k v else m)) := by
  rw [insertLocked, run_lockKey_bind, find?_chain, found]
  cases replace <;> rfl

/-- What an insert asks for that adds an entry to a map. -/
def requestAfter (k : κ) (m : Map κ ν) : Option Request :=
  m.requestFor (m.target k) (m.table.count (m.target k).stripe + 1)
    (m.table.chain (m.target k).bucket).length

theorem run_insertLocked_of_none (absent : m.find? k = none)
    (room : m.table.count (m.target k).stripe < Word.top) (v : ν) (replace : Bool) :
    (insertLocked k v replace).run m =
      .ok (⟨true, v⟩, m.requestAfter k) (guarded (m.target k).stripe (m.added k v)) := by
  have count : (countIn (m.target k).stripe).run
      ((m.emit (.locked (m.target k).stripe)).link (m.target k) k v) =
      .ok (m.table.count (m.target k).stripe + 1)
        ((m.added k v).emit (.locked (m.target k).stripe)) := by
    rw [countIn, Action.run_mk, Table.increment?_eq]
    rw [if_pos (by exact room)]
    rfl
  rw [insertLocked, run_lockKey_bind, find?_chain, absent]
  dsimp only
  rw [Action.run_modify_bind, Action.run_bind_ok count]
  rfl

theorem run_insertLocked_of_full (absent : m.find? k = none)
    (full : ¬m.table.count (m.target k).stripe < Word.top) (v : ν) (replace : Bool) :
    (insertLocked k v replace).run m =
      .error (.stripeOverflow (m.target k).stripe)
        (guarded (m.target k).stripe (m.link (m.target k) k v)) := by
  have count : (countIn (m.target k).stripe).run
      ((m.emit (.locked (m.target k).stripe)).link (m.target k) k v) =
      .error (.stripeOverflow (m.target k).stripe)
        (guarded (m.target k).stripe (m.link (m.target k) k v)) := by
    rw [countIn, Action.run_mk, Table.increment?_eq]
    rw [if_neg (by exact full)]
    rfl
  rw [insertLocked, run_lockKey_bind, find?_chain, absent]
  dsimp only
  rw [Action.run_modify_bind, Action.run_bind_error count]

theorem run_removeIf_of_none (absent : m.find? k = none) (accept : ν → Bool) :
    (removeIf k accept).run m = .ok none (guarded (m.target k).stripe m) := by
  rw [removeIf, run_lockKey_bind, find?_chain, absent]
  rfl

theorem run_removeIf_of_some (found : m.find? k = some e) (accept : ν → Bool) :
    (removeIf k accept).run m =
      .ok (if accept e.value then some e.value else none)
        (guarded (m.target k).stripe (if accept e.value then m.erased e else m)) := by
  obtain ⟨-, rfl⟩ := mem_of_find?_eq_some found
  rw [removeIf, run_lockKey_bind, find?_chain, found]
  dsimp only
  split <;> rfl

theorem run_replaceIf_of_none (absent : m.find? k = none) (v : ν) (accept : Entry κ ν → Bool) :
    (replaceIf k v accept).run m = .ok false (guarded (m.target k).stripe m) := by
  rw [replaceIf, run_lockKey_bind, find?_chain, absent]
  rfl

theorem run_replaceIf_of_some (found : m.find? k = some e) (v : ν) (accept : Entry κ ν → Bool) :
    (replaceIf k v accept).run m =
      .ok (accept e)
        (guarded (m.target k).stripe
          (if accept e then m.substitute (m.target k) e k v else m)) := by
  rw [replaceIf, run_lockKey_bind, find?_chain, found]
  dsimp only
  split <;> rfl

end

/-! ## Runs with all stripes locked -/

/-- A look at the table under all locks. -/
theorem exists_run_exclusively (f : Table κ ν → α) (m : Map κ ν) :
    ∃ trace, (exclusively do return f (← get).table).run m = .ok (f m.table) (m.retrace trace) :=
  ⟨_, rfl⟩

theorem exists_run_clear (m : Map κ ν) :
    ∃ trace, clear.run m = .ok () (m.cleared.retrace trace) := ⟨_, rfl⟩

theorem exists_run_recordEach (event : Nat → Event) (first last : Nat) (m : Map κ ν) :
    ∃ trace, (recordEach event first last).run m = .ok () (m.retrace trace) := ⟨_, rfl⟩

/-! ## Growth -/

section

variable {m m' : Map κ ν} {regenerate : Bool}

theorem run_replaceTable_of_ok (g : m.grown regenerate = .ok m') (trace : Trace) :
    (replaceTable regenerate).run (m.retrace trace) = .ok () (m'.retrace trace) := by
  rw [replaceTable, Action.run_mk, grown_retrace, g]
  rfl

theorem exists_run_replaceTable_of_error {f : Fault} (g : m.grown regenerate = .error f)
    (trace : Trace) :
    ∃ trace', (replaceTable regenerate).run (m.retrace trace) = .error f (m.retrace trace') := by
  rw [replaceTable, Action.run_mk, grown_retrace, g]
  exact ⟨_, rfl⟩

/-- What a request for growth comes to. -/
theorem exists_run_grow (r : Request) (m : Map κ ν) :
    ∃ trace, (grow r).run m = match m.judge r with
      | .late => .ok () (m.retrace trace)
      | .sparse => .ok () (m.doubled.retrace trace)
      | .grow regenerate =>
        match m.grown regenerate with
        | .ok m' => .ok () (m'.retrace trace)
        | .error f => .error f (m.retrace trace) := by
  have same : (m.emit (.locked 0)).judge r = m.judge r := rfl
  rw [grow, record, Action.run_modify_bind, Action.run_get_bind, same]
  cases m.judge r with
  | late => exact ⟨_, rfl⟩
  | sparse => exact ⟨_, rfl⟩
  | grow regenerate =>
    obtain ⟨trace, locked⟩ := exists_run_recordEach .locked 1 (m.emit (.locked 0)).lockCount
      (m.emit (.locked 0))
    replace locked : (recordEach .locked 1 (m.emit (.locked 0)).lockCount).run
      (m.emit (.locked 0)) = .ok () (m.retrace trace) := locked
    dsimp only
    rw [Action.run_get_bind, Action.run_bind_ok locked]
    cases g : m.grown regenerate with
    | ok m' =>
      rw [Action.run_bind_ok (run_replaceTable_of_ok g trace)]
      exact ⟨_, rfl⟩
    | error f =>
      obtain ⟨trace', failed⟩ := exists_run_replaceTable_of_error g trace
      rw [Action.run_bind_error failed]
      exact ⟨_, rfl⟩

end

/-! ## Parts -/

/-- A part of an operation. -/
inductive Part (κ ν : Type) where
  | insert (k : κ) (v : ν) (replace : Bool)
  | grow (r : Request)
  | remove (k : κ) (accept : ν → Bool)
  | update (k : κ) (v : ν) (accept : Entry κ ν → Bool)
  | clear
  /-- A whole-map operation that only looks at the map. -/
  | look
  /-- An event outside of all locks. -/
  | note (e : Event)

variable [DecidableEq κ]

namespace Part

/-- The map after a part of an operation. -/
def after : Part κ ν → Map κ ν → Map κ ν
  | insert k v replace, m => (insertLocked k v replace).after m
  | grow r, m => (Map.grow r).after m
  | remove k accept, m => (removeIf k accept).after m
  | update k v accept, m => (replaceIf k v accept).after m
  | clear, m => Map.clear.after m
  | look, m => size.after m
  | note e, m => m.emit e

/-- The map after parts of operations, one after the other. -/
def afterAll (parts : List (Part κ ν)) (m : Map κ ν) : Map κ ν :=
  parts.foldl (fun m p => p.after m) m

theorem afterAll_append (parts parts' : List (Part κ ν)) (m : Map κ ν) :
    afterAll (parts ++ parts') m = afterAll parts' (afterAll parts m) :=
  List.foldl_append

theorem edit_insert (k : κ) (v : ν) (replace : Bool) (m : Map κ ν) :
    Edit m ((insertLocked k v replace).after m) := by
  cases found : m.find? k with
  | some e =>
    obtain ⟨he, rfl⟩ := mem_of_find?_eq_some found
    rw [Action.after_of_ok (run_insertLocked_of_some found v replace)]
    cases replace
    · exact .none _
    · exact .substituted he _
  | none =>
    by_cases room : m.table.count (m.target k).stripe < Word.top
    · rw [Action.after_of_ok (run_insertLocked_of_none found room v replace)]
      exact .added found room _
    · rw [Action.after_of_error (run_insertLocked_of_full found room v replace)]
      exact .overflowed found room _

theorem change_grow (r : Request) (m : Map κ ν) : Change m ((Map.grow r).after m) := by
  obtain ⟨trace, run⟩ := exists_run_grow r m
  cases judged : m.judge r with
  | late =>
    rw [judged] at run
    exact Action.after_of_ok run ▸ .none trace
  | sparse =>
    rw [judged] at run
    exact Action.after_of_ok run ▸ .doubled trace
  | grow regenerate =>
    rw [judged] at run
    cases g : m.grown regenerate with
    | ok m' =>
      simp only [g] at run
      exact Action.after_of_ok run ▸ .grown g trace
    | error f =>
      simp only [g] at run
      exact Action.after_of_error run ▸ .none trace

theorem edit_remove (k : κ) (accept : ν → Bool) (m : Map κ ν) :
    Edit m ((removeIf k accept).after m) := by
  cases found : m.find? k with
  | none =>
    rw [Action.after_of_ok (run_removeIf_of_none found accept)]
    exact .none _
  | some e =>
    rw [Action.after_of_ok (run_removeIf_of_some found accept)]
    split
    · exact .erased (mem_of_find?_eq_some found).1 _
    · exact .none _

theorem edit_update (k : κ) (v : ν) (accept : Entry κ ν → Bool) (m : Map κ ν) :
    Edit m ((replaceIf k v accept).after m) := by
  cases found : m.find? k with
  | none =>
    rw [Action.after_of_ok (run_replaceIf_of_none found v accept)]
    exact .none _
  | some e =>
    obtain ⟨he, rfl⟩ := mem_of_find?_eq_some found
    rw [Action.after_of_ok (run_replaceIf_of_some found v accept)]
    split
    · exact .substituted he _
    · exact .none _

theorem edit_look (m : Map κ ν) : Edit m (size.after m) := by
  obtain ⟨trace, run⟩ := exists_run_exclusively Table.total m
  rw [size, Action.after_of_ok run]
  exact .none trace

/-- A part makes one change. -/
theorem change (p : Part κ ν) (m : Map κ ν) : Change m (p.after m) := by
  cases p with
  | insert k v replace => exact (edit_insert k v replace m).change
  | grow r => exact change_grow r m
  | remove k accept => exact (edit_remove k accept m).change
  | update k v accept => exact (edit_update k v accept m).change
  | clear =>
    obtain ⟨trace, run⟩ := exists_run_clear m
    rw [after, Action.after_of_ok run]
    exact .cleared trace
  | look => exact (edit_look m).change
  | note e => exact .none _

end Part

end Map

end SharedCollections

import SharedCollections.Proofs.Map.Part
/-!
# The shape of a map

What a map grows by is its shape: how many buckets and locks there are, how hashes are made, and
when to grow. Entries come and go without touching it (`Edit.shape_eq`). A call for growth leaves it
as it is, doubles the budget or has another table installed (`Answered`).
-/

namespace SharedCollections

namespace Map

variable {κ ν : Type}

/-! ## Shapes -/

/-- A map but for its entries. -/
structure Shape where
  policy : Policy
  growLocks : Bool
  /-- The number of tables before the current one. -/
  generation : Nat
  buckets : Nat
  locks : Nat
  salt : Option UInt64
  budget : Nat
  rehashes : Nat
deriving DecidableEq

def shape (m : Map κ ν) : Shape where
  policy := m.policy
  growLocks := m.growLocks
  generation := m.generation
  buckets := m.table.buckets.size
  locks := m.lockCount
  salt := m.table.salt
  budget := m.budget
  rehashes := m.rehashes

section

variable (m : Map κ ν)

@[simp] theorem shape_retrace (trace : Trace) : (m.retrace trace).shape = m.shape := rfl

@[simp] theorem shape_link (t : Target) (k : κ) (v : ν) : (m.link t k v).shape = m.shape := by
  simp [shape, link, generation, lockCount]

@[simp] theorem shape_unlink (t : Target) (e : Entry κ ν) (new : Option (Entry κ ν)) :
    (m.unlink t e new).shape = m.shape := by
  simp [shape, unlink, generation, lockCount]

@[simp] theorem shape_added (k : κ) (v : ν) : (m.added k v).shape = m.shape :=
  shape_link m (m.target k) k v

@[simp] theorem shape_substitute (t : Target) (e : Entry κ ν) (k : κ) (v : ν) :
    (m.substitute t e k v).shape = m.shape :=
  shape_unlink m t e (some ⟨m.nextEntry, k, v, t.hash⟩)

@[simp] theorem shape_erased (e : Entry κ ν) : (m.erased e).shape = m.shape :=
  shape_unlink m (m.target e.key) e none

theorem shape_cleared : m.cleared.shape = { m.shape with
    generation := m.generation + 1
    buckets := defaultCapacity
    budget := max (defaultCapacity / m.lockCount) 1 } := by
  simp [shape, cleared, install, generation, lockCount, Table.empty]

end

theorem Edit.shape_eq [DecidableEq κ] {m m' : Map κ ν} (h : Edit m m') : m'.shape = m.shape := by
  cases h with
  | none => rfl
  | added => rw [shape_retrace, shape_added]
  | overflowed => rw [shape_retrace, shape_link]
  | substituted => rw [shape_retrace, shape_substitute]
  | erased => rw [shape_retrace, shape_erased]

/-- The shape of a map after growing. -/
def grownShape (regenerate : Bool) (m : Map κ ν) : Shape := { m.shape with
  generation := m.generation + 1
  buckets := m.grownLen.1
  locks := m.grownLocks.1.size
  salt := m.grownSalt regenerate
  budget := m.grownBudget
  rehashes := if regenerate then m.rehashes + 1 else m.rehashes }

theorem GrownFrom.shape_eq {m m' : Map κ ν} {t : Table κ ν} {regenerate : Bool}
    (g : GrownFrom regenerate m t m') : m'.shape = m.grownShape regenerate := by
  have buckets := g.received.size_buckets
  rw [freshTable, Table.size_buckets_empty] at buckets
  rw [g.eq]
  simp only [shape, grownShape, install, generation, lockCount, Array.size_push, buckets,
    g.received.locks, g.received.salt]
  rfl

/-! ## How requests are seen to -/

section

variable {m m' : Map κ ν} {r : Request}

theorem judge_eq_grow_true : m.judge r = .grow true ↔ r.rehash = some m.rehashes := by
  rw [judge]
  constructor
  · intro judged
    by_contra outdated
    rw [if_neg outdated] at judged
    split at judged
    · cases judged
    · split at judged <;> cases judged
  · intro current
    rw [if_pos current]

/-- A request that is not taken for out of date was made for the current table, or asks for new
hashes that nobody has regenerated yet. -/
theorem judge_eq_late :
    m.judge r = .late ↔ r.rehash ≠ some m.rehashes ∧ r.generation ≠ m.generation := by
  rw [judge]
  constructor
  · intro judged
    split at judged
    · cases judged
    · next outdated =>
      split at judged
      · next gone => exact ⟨outdated, Ne.symm gone⟩
      · split at judged <;> cases judged
  · rintro ⟨outdated, gone⟩
    rw [if_neg outdated, if_pos (Ne.symm gone)]

/-- A request that is out of date takes the first lock and gives it back. -/
theorem run_grow_of_late (late : m.judge r = .late) : (grow r).run m = .ok () (guarded 0 m) := by
  have same : (m.emit (.locked 0)).judge r = m.judge r := rfl
  rw [grow, record, Action.run_modify_bind, Action.run_get_bind, same, late]
  rfl

variable (m) (r) in
/-- What a call for growth makes of the map. -/
inductive Answered : Map κ ν → Prop where
  /-- The request is late, or the entries do not fit the words that count them. -/
  | kept (idle : ∀ m', m.judge r = .grow true → m.grown true ≠ .ok m') (trace : Trace) :
      Answered (m.retrace trace)
  | doubled (judged : m.judge r = .sparse) (trace : Trace) : Answered (m.doubled.retrace trace)
  | grown {regenerate : Bool} {t : Table κ ν} {m' : Map κ ν}
      (judged : m.judge r = .grow regenerate) (ok : m.grown regenerate = .ok m')
      (g : GrownFrom regenerate m t m') (trace : Trace) : Answered (m'.retrace trace)

theorem Sound.answered (h : m.Sound) (r : Request) : Answered m r ((grow r).after m) := by
  obtain ⟨trace, run⟩ := exists_run_grow r m
  cases judged : m.judge r with
  | late =>
    rw [judged] at run
    rw [Action.after_of_ok run]
    exact .kept (fun _ judged' => nomatch judged.symm.trans judged') trace
  | sparse =>
    rw [judged] at run
    rw [Action.after_of_ok run]
    exact .doubled judged trace
  | grow regenerate =>
    rw [judged] at run
    cases ok : m.grown regenerate with
    | ok m' =>
      simp only [ok] at run
      rw [Action.after_of_ok run]
      obtain ⟨t, g⟩ := h.exists_grownFrom ok
      exact .grown judged ok g trace
    | error f =>
      simp only [ok] at run
      rw [Action.after_of_error run]
      refine .kept (fun m' judged' ok' => ?_) trace
      obtain rfl : regenerate = true := Verdict.grow.inj (judged.symm.trans judged')
      cases ok.symm.trans ok'

namespace Answered

variable (h : Answered m r m')
include h

theorem pairs_perm : m'.pairs.Perm m.pairs := by
  cases h with
  | kept | doubled => exact .refl _
  | grown _ _ g => exact g.pairs_perm

theorem counted (counted : m.Counted) : m'.Counted := by
  cases h with
  | kept | doubled => exact counted
  | grown _ _ g => exact g.counted

end Answered

end

end Map

end SharedCollections

import SharedCollections.Proofs.Map.Growth
/-!
# Changes of a map

All that happens to a map happens in changes that a search or a cursor sees at once: an entry is
linked, replaced or unlinked, the budget is doubled, or the table is replaced. `Change` lists them.
What goes into the trace is left open, so the same changes are there for any operation.

Changes keep a map sound. They keep its counts right, too, as long as every stripe has room for one
more entry, for an entry that cannot be counted stays linked all the same.
-/

namespace SharedCollections

namespace Map

variable {κ ν : Type}

/-! ## Traces -/

/-- The map with another trace. -/
def retrace (trace : Trace) (m : Map κ ν) : Map κ ν := { m with trace }

section

variable (trace : Trace) (m : Map κ ν)

theorem sound_retrace : (m.retrace trace).Sound ↔ m.Sound :=
  ⟨fun ⟨h₁, h₂, h₃, h₄, h₅⟩ => ⟨h₁, h₂, h₃, h₄, h₅⟩,
    fun ⟨h₁, h₂, h₃, h₄, h₅⟩ => ⟨h₁, h₂, h₃, h₄, h₅⟩⟩

/-- Growing does not look at the trace. -/
theorem grown_retrace (regenerate : Bool) :
    (m.retrace trace).grown regenerate = (m.grown regenerate).map (retrace trace) := by
  have same : (m.retrace trace).table.copyTo ((m.retrace trace).freshTable regenerate)
      ((m.retrace trace).grownHash regenerate) (m.retrace trace).nextEntry =
    m.table.copyTo (m.freshTable regenerate) (m.grownHash regenerate) m.nextEntry := rfl
  rw [grown, grown, same]
  cases m.table.copyTo (m.freshTable regenerate) (m.grownHash regenerate) m.nextEntry <;> rfl

end

/-! ## The changes -/

/-- What can happen to a map at a time. -/
inductive Change [DecidableEq κ] (m : Map κ ν) : Map κ ν → Prop where
  | none (trace : Trace) : Change m (m.retrace trace)
  | added {k : κ} {v : ν} (absent : m.find? k = .none)
      (room : m.table.count (m.target k).stripe < Word.top) (trace : Trace) :
      Change m ((m.added k v).retrace trace)
  /-- An entry that cannot be counted stays linked. -/
  | overflowed {k : κ} {v : ν} (absent : m.find? k = .none)
      (full : ¬m.table.count (m.target k).stripe < Word.top) (trace : Trace) :
      Change m ((m.link (m.target k) k v).retrace trace)
  | substituted {e : Entry κ ν} {v : ν} (found : e ∈ m.entries) (trace : Trace) :
      Change m ((m.substitute (m.target e.key) e e.key v).retrace trace)
  | erased {e : Entry κ ν} (found : e ∈ m.entries) (trace : Trace) :
      Change m ((m.erased e).retrace trace)
  | doubled (trace : Trace) : Change m (m.doubled.retrace trace)
  | grown {regenerate : Bool} {m' : Map κ ν} (h : m.grown regenerate = .ok m') (trace : Trace) :
      Change m (m'.retrace trace)
  | cleared (trace : Trace) : Change m (m.cleared.retrace trace)

/-- A change of one entry, or none. The table keeps its size, and so does all that is not in it. -/
inductive Edit [DecidableEq κ] (m : Map κ ν) : Map κ ν → Prop where
  | none (trace : Trace) : Edit m (m.retrace trace)
  | added {k : κ} {v : ν} (absent : m.find? k = .none)
      (room : m.table.count (m.target k).stripe < Word.top) (trace : Trace) :
      Edit m ((m.added k v).retrace trace)
  | overflowed {k : κ} {v : ν} (absent : m.find? k = .none)
      (full : ¬m.table.count (m.target k).stripe < Word.top) (trace : Trace) :
      Edit m ((m.link (m.target k) k v).retrace trace)
  | substituted {e : Entry κ ν} {v : ν} (found : e ∈ m.entries) (trace : Trace) :
      Edit m ((m.substitute (m.target e.key) e e.key v).retrace trace)
  | erased {e : Entry κ ν} (found : e ∈ m.entries) (trace : Trace) :
      Edit m ((m.erased e).retrace trace)

variable {m m' : Map κ ν}

theorem Edit.change [DecidableEq κ] (h : Edit m m') : Change m m' := by
  cases h with
  | none trace => exact .none trace
  | added absent room trace => exact .added absent room trace
  | overflowed absent full trace => exact .overflowed absent full trace
  | substituted found trace => exact .substituted found trace
  | erased found trace => exact .erased found trace

namespace Sound

theorem exists_grownFrom (h : m.Sound) {regenerate : Bool} (g : m.grown regenerate = .ok m') :
    ∃ t, GrownFrom regenerate m t m' := by
  have spec := h.grown_spec regenerate
  rwa [g] at spec

theorem change [DecidableEq κ] (h : m.Sound) (c : Change m m') : m'.Sound := by
  cases c with
  | none => exact (sound_retrace _ _).mpr h
  | added absent => exact (sound_retrace _ _).mpr (h.added absent _)
  | overflowed absent => exact (sound_retrace _ _).mpr (h.link absent _)
  | substituted found => exact (sound_retrace _ _).mpr (h.substitute found _)
  | erased found => exact (sound_retrace _ _).mpr (h.erased found)
  | doubled => exact (sound_retrace _ _).mpr h.doubled
  | grown g =>
    obtain ⟨t, g⟩ := h.exists_grownFrom g
    exact (sound_retrace _ _).mpr (g.sound h)
  | cleared => exact (sound_retrace _ _).mpr h.cleared

end Sound

/-! ## Counts under a change -/

/-- Every stripe can count one more entry. -/
def HasRoom (m : Map κ ν) : Prop := ∀ s, m.table.load s < Word.top

namespace Sound

/-- The stripe of an entry that stands in the table. -/
theorem stripe_of_mem (h : m.Sound) {e : Entry κ ν} (he : e ∈ m.entries) :
    m.table.stripeOf (m.table.bucketOf e.hash) = (m.target e.key).stripe := by
  rw [h.placed.hash_eq_of_mem he]
  rfl

theorem load_added (h : m.Sound) (k : κ) (v : ν) (s : Nat) :
    (m.added k v).table.load s =
      m.table.load s + if (m.target k).stripe = s then 1 else 0 := by
  have perm := h.entries_link k v
  rw [entries, table_link] at perm
  rw [table_added, Table.load_setCount, Table.load, perm.countP_eq]
  simp only [Table.stripeOf_modifyChain, Table.bucketOf_modifyChain]
  rw [List.countP_cons]
  congr 1
  simp only [decide_eq_true_eq]
  rfl

theorem load_substitute (h : m.Sound) {e : Entry κ ν} (he : e ∈ m.entries) (v : ν) (s : Nat) :
    (m.substitute (m.target e.key) e e.key v).table.load s = m.table.load s := by
  obtain ⟨before, behind, h₀, h₁, -⟩ := h.exists_entries_eq he
  have same : (m.newEntry e.key v).hash = e.hash := (h.placed.hash_eq_of_mem he).symm
  have new := h₁ v
  rw [entries] at h₀ new
  rw [Table.load, Table.load, h₀, new, table_substitute]
  simp only [Table.stripeOf_modifyChain, Table.bucketOf_modifyChain, List.countP_append,
    List.countP_cons, same]

theorem load_erased (h : m.Sound) {e : Entry κ ν} (he : e ∈ m.entries) (s : Nat) :
    m.table.load s = (m.erased e).table.load s + if (m.target e.key).stripe = s then 1 else 0 := by
  obtain ⟨before, behind, h₀, -, h₁⟩ := h.exists_entries_eq he
  rw [entries] at h₀ h₁
  rw [Table.load, Table.load, h₀, h₁, table_erased, Table.decrement]
  simp only [Table.stripeOf_setCount, Table.bucketOf_setCount, Table.stripeOf_modifyChain,
    Table.bucketOf_modifyChain, List.countP_append, List.countP_cons, h.stripe_of_mem he,
    decide_eq_true_eq]
  omega

/-- An entry in the table is counted in its stripe. -/
theorem count_pos (h : m.Sound) (counted : m.Counted) {e : Entry κ ν} (he : e ∈ m.entries) :
    0 < m.table.count (m.target e.key).stripe := by
  rw [counted, h.load_erased he, if_pos rfl]
  exact Nat.succ_pos _

end Sound

namespace Counted

theorem added (counted : m.Counted) (h : m.Sound) (k : κ) (v : ν) : (m.added k v).Counted := by
  intro s
  rw [h.load_added, ← counted s, table_added,
    Table.count_setCount _ _ (by exact h.stripe_lt k), Table.count_modifyChain]
  split
  · next same => rw [same]
  · rfl

theorem substitute (counted : m.Counted) (h : m.Sound) {e : Entry κ ν} (he : e ∈ m.entries)
    (v : ν) : (m.substitute (m.target e.key) e e.key v).Counted := by
  intro s
  rw [h.load_substitute he, table_substitute, Table.count_modifyChain, counted s]

theorem erased (counted : m.Counted) (h : m.Sound) {e : Entry κ ν} (he : e ∈ m.entries) :
    (m.erased e).Counted := by
  intro s
  have pos := h.count_pos counted he
  have load := h.load_erased he s
  have count : (m.erased e).table.count s = if (m.target e.key).stripe = s then
      Word.wrapPred (m.table.count (m.target e.key).stripe) else m.table.count s :=
    Table.count_setCount _ _ (by exact h.stripe_lt e.key) s
  rw [← counted s] at load
  rw [count]
  split
  · next same =>
    subst s
    rw [if_pos rfl] at load
    rw [Word.wrapPred, if_neg pos.ne']
    omega
  · next other =>
    rwa [if_neg other] at load

theorem cleared (m : Map κ ν) : m.cleared.Counted := by
  intro s
  simp [Map.cleared, install, Table.load]

/-- A change keeps the counts right, unless it links an entry that a full stripe cannot count. -/
theorem change_or [DecidableEq κ] (counted : m.Counted) (h : m.Sound) (c : Change m m') :
    m'.Counted ∨ (∃ s, Word.top ≤ m.table.load s) ∧ m.entries.length < m'.entries.length := by
  cases c with
  | none | doubled => exact .inl counted
  | added => exact .inl (counted.added h _ _)
  | @overflowed k v _ full =>
    refine .inr ⟨⟨_, counted _ ▸ Nat.le_of_not_lt full⟩, ?_⟩
    have length := (h.entries_link k v).length_eq
    rw [List.length_cons] at length
    exact Nat.lt_of_lt_of_eq (Nat.lt_succ_self _) length.symm
  | substituted found => exact .inl (counted.substitute h found _)
  | erased found => exact .inl (counted.erased h found)
  | grown g =>
    obtain ⟨t, g⟩ := h.exists_grownFrom g
    exact .inl g.counted
  | cleared => exact .inl (cleared m)

/-- A change keeps the counts right if there is room for one more entry. -/
theorem change [DecidableEq κ] (counted : m.Counted) (h : m.Sound) (room : m.HasRoom)
    (c : Change m m') : m'.Counted := by
  rcases counted.change_or h c with counted' | ⟨⟨s, full⟩, -⟩
  · exact counted'
  · exact absurd (room s) (Nat.not_lt.mpr full)

/-- A change keeps the counts right if a word can count all entries afterwards. -/
theorem change_of_length_lt [DecidableEq κ] (counted : m.Counted) (h : m.Sound)
    (c : Change m m') (fits : m'.entries.length < Word.limit) : m'.Counted := by
  rcases counted.change_or h c with counted' | ⟨⟨s, full⟩, more⟩
  · exact counted'
  · have all : m.table.load s ≤ m.entries.length := List.countP_le_length
    have top : Word.top + 1 = Word.limit := rfl
    omega

end Counted

end Map

end SharedCollections

import SharedCollections.Map.Whole
import SharedCollections.Proofs.Map.Table
/-!
# Sound maps

A map is sound if its tables are well placed and its entries can be told apart by their numbers,
those that have left their chains included. A replaced or removed entry is found by its number, so
nothing else would be replaced or removed in its place. Adding, replacing and removing an entry and
installing another table keep a map sound, and say what becomes of its entries.
-/

namespace SharedCollections

namespace Map

variable {κ ν : Type}

/-! ## Soundness -/

/-- The numbers of all entries, in the current table or unlinked. -/
def ids (m : Map κ ν) : List Nat := m.unlinked.map (·.id) ++ m.entries.map Entry.id

/-- The entries of the map are where a search looks for them and go by numbers of their own. -/
structure Sound (m : Map κ ν) : Prop where
  placed : m.table.Placed m.hasher
  budget_pos : 1 ≤ m.budget
  ids_nodup : m.ids.Nodup
  ids_lt : ∀ i ∈ m.ids, i < m.nextEntry
  retired : ∀ t ∈ m.retired, t.Placed m.hasher ∧ (t.entries.map Entry.id).Nodup

/-- Every stripe has counted its entries. -/
def Counted (m : Map κ ν) : Prop := ∀ s, m.table.count s = m.table.load s

namespace Sound

variable {m : Map κ ν}

theorem entry_ids_nodup (h : m.Sound) : (m.entries.map Entry.id).Nodup :=
  h.ids_nodup.of_append_right

theorem id_lt (h : m.Sound) {e : Entry κ ν} (he : e ∈ m.entries) : e.id < m.nextEntry :=
  h.ids_lt _ (List.mem_append_right _ (List.mem_map_of_mem he))

theorem unlinked_id_lt (h : m.Sound) {u : Unlinked κ ν} (hu : u ∈ m.unlinked) :
    u.id < m.nextEntry :=
  h.ids_lt _ (List.mem_append_left _ (List.mem_map_of_mem hu))

theorem unlinked_id_ne (h : m.Sound) {u : Unlinked κ ν} (hu : u ∈ m.unlinked) {e : Entry κ ν}
    (he : e ∈ m.entries) : u.id ≠ e.id :=
  (List.nodup_append.mp h.ids_nodup).2.2 _ (List.mem_map_of_mem hu) _ (List.mem_map_of_mem he)

variable [DecidableEq κ]

theorem find?_eq_some_iff (h : m.Sound) {k : κ} {e : Entry κ ν} :
    m.find? k = some e ↔ e ∈ m.entries ∧ e.key = k :=
  h.placed.find?_eq_some_iff

theorem find?_eq_none_iff (h : m.Sound) {k : κ} :
    m.find? k = none ↔ ∀ e ∈ m.entries, e.key ≠ k := by
  rw [Option.eq_none_iff_forall_ne_some]
  constructor
  · intro none e he hk
    exact none e (h.find?_eq_some_iff.mpr ⟨he, hk⟩)
  · intro absent e found
    obtain ⟨he, hk⟩ := h.find?_eq_some_iff.mp found
    exact absent e he hk

end Sound

/-! ## Adding and removing -/

/-- The map after `k` was added with the value `v` and counted. -/
def added (k : κ) (v : ν) (m : Map κ ν) : Map κ ν :=
  let t := m.target k
  let m' := m.link t k v
  { m' with table := m'.table.setCount t.stripe (m.table.count t.stripe + 1) }

/-- The map after the entry `e` was unlinked and counted out. -/
def erased (e : Entry κ ν) (m : Map κ ν) : Map κ ν :=
  let t := m.target e.key
  let m' := m.unlink t e none
  { m' with table := m'.table.decrement t.stripe }

variable {m : Map κ ν}

/-! ## Entries under a change -/

section

variable (m) (k : κ) (v : ν)

/-- The entry that an insert or an update of `k` makes. -/
def newEntry : Entry κ ν := ⟨m.nextEntry, k, v, m.hashOf k⟩

theorem table_link : (m.link (m.target k) k v).table =
    m.table.modifyChain (m.target k).bucket (m.newEntry k v :: ·) := rfl

theorem table_added : (m.added k v).table =
    (m.table.modifyChain (m.target k).bucket (m.newEntry k v :: ·)).setCount (m.target k).stripe
      (m.table.count (m.target k).stripe + 1) := rfl

theorem table_substitute (e : Entry κ ν) :
    (m.substitute (m.target e.key) e e.key v).table =
      m.table.modifyChain (m.target e.key).bucket
        (replaceFirst (·.id == e.id) (m.newEntry e.key v)) := rfl

theorem table_erased (e : Entry κ ν) : (m.erased e).table =
    (m.table.modifyChain (m.target e.key).bucket (·.eraseP (·.id == e.id))).decrement
      (m.target e.key).stripe := rfl

end

namespace Sound

theorem bucket_lt (h : m.Sound) (k : κ) : (m.target k).bucket < m.table.buckets.size :=
  m.table.bucketOf_lt h.placed.buckets_pos _

theorem stripe_lt (h : m.Sound) (k : κ) : (m.target k).stripe < m.table.counts.size :=
  h.placed.stripe_lt _

theorem entries_link (h : m.Sound) (k : κ) (v : ν) :
    (m.link (m.target k) k v).entries.Perm (m.newEntry k v :: m.entries) :=
  m.table.entries_cons_perm (h.bucket_lt k) _

/-- An entry in the chain of its bucket, with what is before it and behind it. -/
theorem exists_chain_eq (h : m.Sound) {e : Entry κ ν} (he : e ∈ m.entries) :
    ∃ before behind, m.table.chain (m.target e.key).bucket = before ++ e :: behind ∧
      ∀ a ∈ before, (a.id == e.id) = false := by
  have here := h.placed.mem_chain_bucketOf he
  rw [h.placed.hash_eq_of_mem he] at here
  exact Table.exists_chain_eq (Table.nodup_map_chain h.entry_ids_nodup _) here

/-- An entry among all entries, and what replacing and unlinking it make of them. -/
theorem exists_entries_eq (h : m.Sound) {e : Entry κ ν} (he : e ∈ m.entries) :
    ∃ before behind, m.entries = before ++ e :: behind ∧
      (∀ v, (m.substitute (m.target e.key) e e.key v).entries =
        before ++ m.newEntry e.key v :: behind) ∧
      (m.erased e).entries = before ++ behind := by
  obtain ⟨inner, outer, hc, first⟩ := h.exists_chain_eq he
  obtain ⟨before, behind, h₀, h₁⟩ := m.table.exists_entries_eq (h.bucket_lt e.key)
  refine ⟨before ++ inner, outer ++ behind, ?_, fun v => ?_, ?_⟩
  · rw [entries, h₀, hc]
    simp
  · rw [entries, table_substitute, h₁, hc, replaceFirst_split first]
    simp
  · rw [entries, table_erased, Table.decrement, Table.entries_setCount, h₁, hc, eraseP_split first]
    simp

theorem ids_link (h : m.Sound) (k : κ) (v : ν) :
    (m.link (m.target k) k v).ids.Perm (m.nextEntry :: m.ids) := by
  have := ((h.entries_link k v).map Entry.id).append_left (m.unlinked.map (·.id))
  exact this.trans List.perm_middle

theorem ids_substitute (h : m.Sound) {e : Entry κ ν} (he : e ∈ m.entries) (v : ν) :
    (m.substitute (m.target e.key) e e.key v).ids.Perm (m.nextEntry :: m.ids) := by
  obtain ⟨before, behind, h₀, h₁, -⟩ := h.exists_entries_eq he
  refine List.perm_iff_count.mpr fun i => ?_
  rw [ids, ids, h₀, h₁]
  simp only [substitute, unlink, newEntry, List.map_cons, List.map_append, List.count_append,
    List.count_cons]
  omega

theorem ids_erased (h : m.Sound) {e : Entry κ ν} (he : e ∈ m.entries) :
    (m.erased e).ids.Perm m.ids := by
  obtain ⟨before, behind, h₀, -, h₁⟩ := h.exists_entries_eq he
  refine List.perm_iff_count.mpr fun i => ?_
  rw [ids, ids, h₀, h₁]
  simp only [erased, unlink, List.map_cons, List.map_append, List.count_append, List.count_cons]
  omega

end Sound

/-! ## Soundness under a change -/

namespace Sound

/-- A change that numbers one new entry keeps the numbers apart. -/
theorem ids_of_perm_cons (h : m.Sound) {ids : List Nat} (perm : ids.Perm (m.nextEntry :: m.ids)) :
    ids.Nodup ∧ ∀ i ∈ ids, i < m.nextEntry + 1 := by
  have fresh : m.nextEntry ∉ m.ids := fun mem => lt_irrefl _ (h.ids_lt _ mem)
  constructor
  · exact perm.nodup_iff.mpr (List.nodup_cons.mpr ⟨fresh, h.ids_nodup⟩)
  · intro i hi
    rcases List.mem_cons.mp (perm.subset hi) with rfl | hi
    · exact Nat.lt_succ_self _
    · exact Nat.lt_succ_of_lt (h.ids_lt i hi)

theorem setCount (h : m.Sound) (s n : Nat) :
    ({ m with table := m.table.setCount s n } : Map κ ν).Sound :=
  ⟨h.placed.setCount s n, h.budget_pos, h.ids_nodup, h.ids_lt, h.retired⟩

theorem link [DecidableEq κ] (h : m.Sound) {k : κ} (absent : m.find? k = none) (v : ν) :
    (m.link (m.target k) k v).Sound := by
  obtain ⟨ids_nodup, ids_lt⟩ := h.ids_of_perm_cons (h.ids_link k v)
  refine ⟨?_, h.budget_pos, ids_nodup, ids_lt, h.retired⟩
  refine h.placed.modifyChain (h.bucket_lt k) ?_ ?_
  · intro e he
    rcases List.mem_cons.mp he with rfl | he
    · exact .inr ⟨rfl, rfl⟩
    · exact .inl he
  · have keys := (h.entries_link k v).map Entry.key
    refine keys.nodup_iff.mpr (List.nodup_cons.mpr ⟨?_, h.placed.keys_nodup⟩)
    intro mem
    obtain ⟨e, he, hk⟩ := List.mem_map.mp mem
    exact h.find?_eq_none_iff.mp absent e he hk

theorem added [DecidableEq κ] (h : m.Sound) {k : κ} (absent : m.find? k = none) (v : ν) :
    (m.added k v).Sound :=
  (h.link absent v).setCount _ _

theorem substitute (h : m.Sound) {e : Entry κ ν} (he : e ∈ m.entries) (v : ν) :
    (m.substitute (m.target e.key) e e.key v).Sound := by
  obtain ⟨ids_nodup, ids_lt⟩ := h.ids_of_perm_cons (h.ids_substitute he v)
  refine ⟨?_, h.budget_pos, ids_nodup, ids_lt, h.retired⟩
  obtain ⟨inner, outer, hc, first⟩ := h.exists_chain_eq he
  refine h.placed.modifyChain (h.bucket_lt e.key) ?_ ?_
  · intro e' he'
    dsimp only at he'
    rw [hc, replaceFirst_split first] at he'
    rw [hc]
    rcases List.mem_append.mp he' with he' | he'
    · exact .inl (List.mem_append_left _ he')
    · rcases List.mem_cons.mp he' with rfl | he'
      · exact .inr ⟨rfl, rfl⟩
      · exact .inl (List.mem_append_right _ (List.mem_cons_of_mem _ he'))
  · obtain ⟨before, behind, h₀, h₁, -⟩ := h.exists_entries_eq he
    have keys := h.placed.keys_nodup
    change (m.entries.map Entry.key).Nodup at keys
    change ((m.substitute (m.target e.key) e e.key v).entries.map Entry.key).Nodup
    rw [h₀] at keys
    rw [h₁]
    simpa [newEntry] using keys

theorem erased (h : m.Sound) {e : Entry κ ν} (he : e ∈ m.entries) : (m.erased e).Sound := by
  have ids := h.ids_erased he
  refine ⟨.setCount ?_ _ _, h.budget_pos, ids.nodup_iff.mpr h.ids_nodup,
    fun i hi => h.ids_lt i (ids.subset hi), h.retired⟩
  obtain ⟨inner, outer, hc, first⟩ := h.exists_chain_eq he
  refine h.placed.modifyChain (h.bucket_lt e.key) ?_ ?_
  · intro e' he'
    exact .inl (List.mem_of_mem_eraseP he')
  · obtain ⟨before, behind, h₀, -, h₁⟩ := h.exists_entries_eq he
    have keys := h.placed.keys_nodup
    change (m.entries.map Entry.key).Nodup at keys
    change ((m.erased e).entries.map Entry.key).Nodup
    rw [h₀] at keys
    rw [h₁]
    exact keys.sublist (((List.sublist_cons_self e behind).append_left before).map _)

theorem newEntry_mem_substitute (h : m.Sound) {e : Entry κ ν} (he : e ∈ m.entries) (v : ν) :
    m.newEntry e.key v ∈ (m.substitute (m.target e.key) e e.key v).entries := by
  obtain ⟨before, behind, -, h₁, -⟩ := h.exists_entries_eq he
  rw [h₁]
  exact List.mem_append_right _ List.mem_cons_self

/-- A key is gone once its entry is unlinked. -/
theorem find?_erased [DecidableEq κ] (h : m.Sound) {e : Entry κ ν} (he : e ∈ m.entries) :
    (m.erased e).find? e.key = none := by
  obtain ⟨before, behind, h₀, -, h₁⟩ := h.exists_entries_eq he
  have nodup : (m.entries.map Entry.key).Nodup := h.placed.keys_nodup
  rw [h₀, List.map_append, List.map_cons, List.nodup_middle, List.nodup_cons,
    ← List.map_append, ← h₁] at nodup
  exact (h.erased he).find?_eq_none_iff.mpr fun e' he' same =>
    nodup.1 (List.mem_map.mpr ⟨e', he', same⟩)

theorem doubled (h : m.Sound) : m.doubled.Sound := by
  refine ⟨h.placed, ?_, h.ids_nodup, h.ids_lt, h.retired⟩
  have := h.budget_pos
  simp only [Map.doubled, Word.satMul, Word.top, Word.limit]
  omega

/-- Replacing the table keeps a map sound if the new table is well placed and its entries have the
numbers that come next. -/
theorem replaceTable (h : m.Sound) {t : Table κ ν} (placed : t.Placed m.hasher) {n : Nat}
    (new : (t.entries.map Entry.id).Perm (List.range' m.nextEntry n)) {budget : Nat}
    (budget_pos : 1 ≤ budget) (nextLock rehashes : Nat) :
    ({ m.install t budget with
      nextLock, rehashes, nextEntry := m.nextEntry + n } : Map κ ν).Sound := by
  have range : ∀ {i}, i ∈ t.entries.map Entry.id → m.nextEntry ≤ i ∧ i < m.nextEntry + n :=
    fun hi => List.mem_range'_1.mp (new.subset hi)
  have earlier : ∀ {i}, i ∈ m.unlinked.map (·.id) → i < m.nextEntry :=
    fun hi => h.ids_lt _ (List.mem_append_left _ hi)
  constructor
  case placed => exact placed
  case budget_pos => exact budget_pos
  case ids_nodup =>
    refine List.nodup_append.mpr
      ⟨h.ids_nodup.of_append_left, new.nodup_iff.mpr List.nodup_range', ?_⟩
    intro i hi j hj
    exact ((earlier hi).trans_le (range hj).1).ne
  case ids_lt =>
    intro i hi
    rcases List.mem_append.mp hi with hi | hi
    · exact Nat.lt_add_right n (earlier hi)
    · exact (range hi).2
  case retired =>
    intro t' ht
    rcases Array.mem_push.mp ht with ht | rfl
    · exact h.retired t' ht
    · exact ⟨h.placed, h.entry_ids_nodup⟩

theorem cleared (h : m.Sound) : m.cleared.Sound := by
  have := h.replaceTable (t := .empty defaultCapacity m.table.locks m.table.salt)
    (.empty (by decide) h.placed.locks_pos) (n := 0) (by simp [Table.entries, Table.empty])
    (le_max_right (defaultCapacity / m.lockCount) 1) m.nextLock m.rehashes
  exact this

end Sound

end Map

end SharedCollections

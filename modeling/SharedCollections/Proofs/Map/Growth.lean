import SharedCollections.Proofs.Map.Copy
import SharedCollections.Proofs.Map.Sound
/-!
# Grown maps

Growing copies every entry once into a table that is large enough to have a place for it, under the
hash that the new table gives its key. It fails only if a stripe of the new table would have to
count past the largest word, and then nothing happens.
-/

namespace SharedCollections

namespace Map

open Table (Received copies)

variable {κ ν : Type} {m m' : Map κ ν} {regenerate : Bool}

theorem grownLen_pos (h : 0 < m.table.buckets.size) : 0 < m.grownLen.1 := by
  rcases next : m.policy.nextBuckets m.table.buckets.size with ⟨n, capped⟩
  simp only [grownLen, next]
  cases capped with
  | true => exact lt_max_of_lt_right h
  | false => exact Nat.zero_lt_of_lt (m.policy.lt_of_nextBuckets next)

theorem size_grownLocks_pos (h : 0 < m.table.locks.size) : 0 < m.grownLocks.1.size := by
  rw [grownLocks, size_extendLocks]
  omega

@[simp] theorem entries_freshTable : (m.freshTable regenerate).entries = [] :=
  Table.entries_empty _ _ _

@[simp] theorem chain_freshTable (b : Nat) : (m.freshTable regenerate).chain b = [] :=
  Table.chain_empty _ _ _ b

@[simp] theorem count_freshTable (s : Nat) : (m.freshTable regenerate).count s = 0 :=
  Table.count_empty _ _ _ s

theorem one_le_grownBudget : 1 ≤ m.grownBudget := by
  rw [grownBudget]
  split
  · decide
  · exact le_max_right _ 1

/-- How many entries growing puts into a stripe. -/
def grownLoad (regenerate : Bool) (m : Map κ ν) (s : Nat) : Nat :=
  let t := m.freshTable regenerate
  m.entries.countP fun e => t.stripeOf (t.bucketOf (m.grownHash regenerate e)) = s

/-- The copies that growing makes of the entries. -/
def grownEntries (regenerate : Bool) (m : Map κ ν) : List (Entry κ ν) :=
  copies (m.grownHash regenerate) m.nextEntry m.entries

/-- A map `m'` that has grown has its entries from copies of those of `m`, in a new table. -/
structure GrownFrom (regenerate : Bool) (m : Map κ ν) (t : Table κ ν) (m' : Map κ ν) : Prop where
  received : Received (m.freshTable regenerate) (m.grownEntries regenerate) t
  eq : m' = { m.install t m.grownBudget with
    nextLock := m.grownLocks.2
    rehashes := if regenerate then m.rehashes + 1 else m.rehashes
    nextEntry := m.nextEntry + m.entries.length }

/-- What growing comes to. -/
theorem Sound.grown_spec (h : m.Sound) (regenerate : Bool) :
    match m.grown regenerate with
    | .ok m' => ∃ t, GrownFrom regenerate m t m'
    | .error f => ∃ s, f = .stripeOverflow s ∧ Word.top < m.grownLoad regenerate s := by
  have spec := m.table.copyTo_spec (m.freshTable regenerate) (m.grownHash regenerate) m.nextEntry
    (by simpa [freshTable] using grownLen_pos h.placed.buckets_pos)
    (size_grownLocks_pos h.placed.locks_pos) (by simp [freshTable])
  rw [grown]
  cases hc : m.table.copyTo (m.freshTable regenerate) (m.grownHash regenerate) m.nextEntry with
  | ok r =>
    obtain ⟨t, next⟩ := r
    rw [hc] at spec
    obtain ⟨received, rfl⟩ := spec
    exact ⟨t, received, rfl⟩
  | error f =>
    rw [hc] at spec
    obtain ⟨s, rfl, excess⟩ := spec
    refine ⟨s, rfl, ?_⟩
    rwa [count_freshTable, Nat.zero_add] at excess

namespace GrownFrom

variable {t : Table κ ν}

theorem entries_perm (g : GrownFrom regenerate m t m') :
    m'.entries.Perm (m.grownEntries regenerate) := by
  have := g.received.entries
  rw [entries_freshTable, List.append_nil] at this
  rw [g.eq]
  exact this

theorem pairs_perm (g : GrownFrom regenerate m t m') : m'.pairs.Perm m.pairs := by
  have := g.entries_perm.map Entry.pair
  rwa [grownEntries, Table.map_pair_copies] at this

theorem table_eq (g : GrownFrom regenerate m t m') : m'.table = t := by
  rw [g.eq]
  rfl

theorem hasher_eq (g : GrownFrom regenerate m t m') : m'.hasher = m.hasher := by
  rw [g.eq]
  rfl

/-- The hash of a copy is the hash of its key in the new table. -/
theorem hash_eq (g : GrownFrom regenerate m t m') (h : m.Sound) {e : Entry κ ν}
    (he : e ∈ m.grownEntries regenerate) : e.hash = m.hasher.hash t.salt e.key := by
  obtain ⟨e₀, he₀, hk, -, hh⟩ := Table.exists_of_mem_copies he
  rw [hh, hk, g.received.salt, freshTable, Table.salt_empty, grownHash, grownSalt]
  cases regenerate with
  | true => rfl
  | false => exact h.placed.hash_eq_of_mem he₀

theorem placed (g : GrownFrom regenerate m t m') (h : m.Sound) : t.Placed m.hasher := by
  have mem_chain : ∀ b, ∀ e ∈ t.chain b,
      e ∈ m.grownEntries regenerate ∧ (m.freshTable regenerate).bucketOf e.hash = b := by
    intro b e he
    simpa [g.received.chain] using he
  constructor
  case buckets_pos =>
    rw [g.received.size_buckets, freshTable, Table.size_buckets_empty]
    exact grownLen_pos h.placed.buckets_pos
  case locks_pos =>
    rw [g.received.locks]
    exact size_grownLocks_pos h.placed.locks_pos
  case size_counts =>
    rw [g.received.size_counts, g.received.locks]
    exact Table.size_counts_empty _ _ _
  case hash_eq => exact fun b e he => g.hash_eq h (mem_chain b e he).1
  case bucket_eq =>
    intro b e he
    rw [g.received.bucketOf]
    exact (mem_chain b e he).2
  case keys_nodup =>
    have keys := g.entries_perm.map Entry.key
    rw [entries, g.table_eq, grownEntries, Table.map_key_copies] at keys
    exact keys.nodup_iff.mpr h.placed.keys_nodup

theorem sound (g : GrownFrom regenerate m t m') (h : m.Sound) : m'.Sound := by
  have ids := g.entries_perm.map Entry.id
  rw [entries, g.table_eq, grownEntries, Table.map_id_copies] at ids
  rw [g.eq]
  exact h.replaceTable (g.placed h) ids one_le_grownBudget _ _

theorem counted (g : GrownFrom regenerate m t m') : m'.Counted := by
  intro s
  have same := g.entries_perm.countP_eq fun e => t.stripeOf (t.bucketOf e.hash) = s
  rw [entries, g.table_eq] at same
  rw [g.table_eq, Table.load, same, g.received.count, count_freshTable, Nat.zero_add]
  simp only [g.received.bucketOf, g.received.stripeOf]

end GrownFrom

end Map

end SharedCollections

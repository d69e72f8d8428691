import Mathlib.Algebra.BigOperators.Fin
import SharedCollections.Proofs.Map.Use
/-!
# Reached maps

The maps that parts of operations make of a new one, in whatever order the parts come, are sound,
and their counts are right unless a stripe ran out of numbers. Read off the tables, that is
`WellFormed`: where the entries stand, under which hashes, and what each count says.
-/

namespace SharedCollections

namespace Map

variable {κ ν : Type}

/-! ## New maps -/

section

variable {c : Config} {hasher : Hasher κ} {salts : Nat → UInt64}

theorem table_ofConfig : (ofConfig c hasher salts : Map κ ν).table =
    .empty c.initialBuckets (extendLocks #[] c.locks 0).1 none := rfl

@[simp] theorem entries_ofConfig : (ofConfig c hasher salts : Map κ ν).entries = [] :=
  Table.entries_empty _ _ _

theorem sound_ofConfig (ok : c.check = .ok ()) : (ofConfig c hasher salts : Map κ ν).Sound := by
  have locks_pos : 1 ≤ c.locks := c.check_eq_ok.mp ok
  have buckets_pos : 0 < c.initialBuckets := lt_max_of_lt_right locks_pos
  have ids : (ofConfig c hasher salts : Map κ ν).ids = [] := by
    rw [Map.ids, entries_ofConfig]
    rfl
  have size_locks : 0 < (extendLocks #[] c.locks 0).1.size := by
    rw [size_extendLocks]
    exact lt_max_of_lt_right locks_pos
  refine ⟨.empty buckets_pos size_locks, le_max_right _ 1, ?_, ?_, ?_⟩
  · rw [ids]
    exact .nil
  · simp [ids]
  · simp [ofConfig]

theorem counted_ofConfig : (ofConfig c hasher salts : Map κ ν).Counted := by
  intro s
  rw [table_ofConfig, Table.count_empty, Table.load, Table.entries_empty]
  rfl

end

variable [DecidableEq κ]

/-! ## Reaching a map -/

/-- The maps that a new one becomes by parts of operations, each of a map of which `allowed` holds.
-/
inductive Reached (allowed : Map κ ν → Prop) : Map κ ν → Prop where
  | new {c : Config} (ok : c.check = .ok ()) (hasher : Hasher κ) (salts : Nat → UInt64) :
      Reached allowed (ofConfig c hasher salts)
  | part {m : Map κ ν} (h : Reached allowed m) (ok : allowed m) (p : Part κ ν) :
      Reached allowed (p.after m)

namespace Reached

variable {allowed : Map κ ν → Prop} {m : Map κ ν}

theorem sound (h : Reached allowed m) : m.Sound := by
  induction h with
  | new ok => exact sound_ofConfig ok
  | part _ _ p ih => exact ih.change (p.change _)

theorem counted (h : Reached HasRoom m) : m.Counted := by
  induction h with
  | new => exact counted_ofConfig
  | part h room p ih => exact ih.change h.sound room (p.change _)

/-- The counts are right as long as a word can count all entries. -/
theorem counted_of_length_lt (h : Reached (fun m => m.entries.length < Word.limit) m)
    (fits : m.entries.length < Word.limit) : m.Counted := by
  induction h with
  | new => exact counted_ofConfig
  | part h before p ih => exact (ih before).change_of_length_lt h.sound (p.change _) fits

end Reached

/-! ## What the counts say -/

section

variable {α : Type}

theorem sum_map_toList (xs : Array α) (f : α → Nat) (d : α) :
    (xs.toList.map f).sum = ∑ i ∈ Finset.range xs.size, f (xs.getD i d) := by
  have same : xs.toList.map f = (List.range xs.size).map fun i => f (xs.getD i d) := by
    refine List.ext_getElem (by simp) fun i h _ => ?_
    rw [List.length_map, Array.length_toList] at h
    simp [h]
  rw [same]
  rfl

theorem sum_countP_eq_length {xs : List α} {f : α → Nat} {n : Nat} (h : ∀ x ∈ xs, f x < n) :
    ∑ s ∈ Finset.range n, xs.countP (fun x => f x = s) = xs.length := by
  induction xs with
  | nil => simp
  | cons x xs ih =>
    simp only [List.countP_cons, Finset.sum_add_distrib]
    rw [ih fun y hy => h y (List.mem_cons_of_mem _ hy)]
    simp [h x List.mem_cons_self]

end

omit [DecidableEq κ]

/-- The entries of a well-placed table in the buckets of a stripe. -/
theorem Table.Placed.load_eq_sum {t : Table κ ν} {hasher : Hasher κ} (h : t.Placed hasher)
    (s : Nat) :
    t.load s = ∑ b ∈ Finset.range t.buckets.size with t.stripeOf b = s, (t.chain b).length := by
  rw [Table.load, Table.entries, List.countP_flatten, sum_map_toList _ _ [], Finset.sum_filter]
  refine Finset.sum_congr rfl fun b _ => ?_
  change (t.chain b).countP _ = _
  split
  · next here =>
    refine List.countP_eq_length.mpr fun e he => ?_
    rw [h.bucket_eq b e he]
    exact decide_eq_true here
  · next elsewhere =>
    refine List.countP_eq_zero.mpr fun e he => ?_
    rw [h.bucket_eq b e he]
    simpa using elsewhere

variable {m : Map κ ν}

theorem hasRoom_of_length_lt (h : m.entries.length < Word.top) : m.HasRoom :=
  fun _ => lt_of_le_of_lt List.countP_le_length h

theorem Sound.sum_load (h : m.Sound) :
    ∑ s ∈ Finset.range m.table.counts.size, m.table.load s = m.entries.length :=
  sum_countP_eq_length fun _ _ => h.placed.stripe_lt _

namespace Counted

theorem total_eq (counted : m.Counted) (h : m.Sound) :
    m.table.total = m.entries.length % Word.limit := by
  rw [Table.total, Word.wrapSum_eq, ← List.sum_eq_foldr, ← List.map_id m.table.counts.toList,
    sum_map_toList _ _ 0, ← h.sum_load]
  exact congrArg (· % Word.limit) (Finset.sum_congr rfl fun s _ => counted s)

theorem all_counts_eq_zero (counted : m.Counted) (h : m.Sound) :
    m.table.counts.all (· == 0) = m.entries.isEmpty := by
  have none : m.entries.isEmpty ↔ ∀ s ∈ Finset.range m.table.counts.size, m.table.load s = 0 := by
    rw [← Finset.sum_eq_zero_iff, h.sum_load, List.length_eq_zero_iff, List.isEmpty_iff]
  rw [Bool.eq_iff_iff, none, Array.all_eq_true]
  constructor
  · intro all s hs
    have hs := Finset.mem_range.mp hs
    rw [← counted, Table.count, Array.getD_eq_getD_getElem?, Array.getElem?_eq_getElem hs]
    exact beq_iff_eq.mp (all s hs)
  · intro all s hs
    have zero := all s (Finset.mem_range.mpr hs)
    rw [← counted, Table.count, Array.getD_eq_getD_getElem?, Array.getElem?_eq_getElem hs] at zero
    exact beq_iff_eq.mpr zero

end Counted

/-! ## Well-formed maps -/

/-- The table of a map is laid out as it should be. -/
structure WellFormed (m : Map κ ν) : Prop where
  buckets : 1 ≤ m.table.buckets.size
  locks : 1 ≤ m.table.locks.size
  budget : 1 ≤ m.budget
  counts : m.table.counts.size = m.table.locks.size
  /-- Every entry has the hash of its key and stands in the bucket for it. -/
  placed : ∀ b < m.table.buckets.size, ∀ e ∈ m.table.chain b,
    e.hash = m.hasher.hash m.table.salt e.key ∧ e.hash.toNat % m.table.buckets.size = b
  /-- No key stands in the table twice. -/
  distinct : (m.table.entries.map Entry.key).Nodup
  /-- The count of a stripe is the number of entries in its buckets. -/
  counted : ∀ s < m.table.locks.size, m.table.count s =
    ∑ b ∈ Finset.range m.table.buckets.size with b % m.table.locks.size = s,
      (m.table.chain b).length

theorem wellFormed_of_sound (h : m.Sound) (counted : m.Counted) : m.WellFormed where
  buckets := h.placed.buckets_pos
  locks := h.placed.locks_pos
  budget := h.budget_pos
  counts := h.placed.size_counts
  placed b _ e he := ⟨h.placed.hash_eq b e he, h.placed.bucket_eq b e he⟩
  distinct := h.placed.keys_nodup
  counted s _ := (counted s).trans (h.placed.load_eq_sum s)

/-- What a sound map needs to be well formed is that its stripes have counted. -/
theorem Sound.wellFormed_iff (h : m.Sound) : m.WellFormed ↔ m.Counted := by
  refine ⟨fun wellFormed s => ?_, wellFormed_of_sound h⟩
  rcases Nat.lt_or_ge s m.table.locks.size with inside | beyond
  · exact (wellFormed.counted s inside).trans (h.placed.load_eq_sum s).symm
  · have none : m.table.load s = 0 := by
      refine List.countP_eq_zero.mpr fun e _ => ?_
      have stripe := h.placed.stripe_lt (m.table.bucketOf e.hash)
      rw [wellFormed.counts] at stripe
      simpa using (stripe.trans_le beyond).ne
    rw [none, Table.count, Array.getD_eq_getD_getElem?,
      Array.getElem?_eq_none (wellFormed.counts ▸ beyond)]
    rfl

variable [DecidableEq κ]

/-- A map that is reached while every stripe has room for one more entry is well formed. So a search
looks at buckets and stripes that exist, an entry that is removed has been counted, and the size of
the map is the number of its entries. A use of the map leads to parts of operations only, so all of
this holds at every moment of it. -/
theorem Reached.wellFormed (h : Reached HasRoom m) :
    m.WellFormed ∧
    (∀ hash, m.table.bucketOf hash < m.table.buckets.size) ∧
    (∀ b, m.table.stripeOf b < m.table.locks.size ∧ m.table.stripeOf b < m.table.counts.size) ∧
    (∀ k e, m.find? k = some e → 0 < m.table.count (m.target k).stripe) ∧
    (∃ m', size.run m = .ok (m.entries.length % Word.limit) m') ∧
    (∃ m', isEmpty.run m = .ok m.entries.isEmpty m') ∧
    ∀ (α : Type) (a : Action (Map κ ν) α), Use a → ∃ parts, a.after m = Part.afterAll parts m := by
  have sound := h.sound
  have counted := h.counted
  refine ⟨wellFormed_of_sound sound counted, m.table.bucketOf_lt sound.placed.buckets_pos,
    fun b => ⟨m.table.stripeOf_lt sound.placed.locks_pos b, sound.placed.stripe_lt b⟩,
    fun k e found => ?_, ?_, ?_, fun α a use => use.inParts m⟩
  · obtain ⟨he, rfl⟩ := sound.find?_eq_some_iff.mp found
    exact sound.count_pos counted he
  · obtain ⟨trace, run⟩ := exists_run_exclusively Table.total m
    rw [counted.total_eq sound] at run
    exact ⟨_, run⟩
  · obtain ⟨trace, run⟩ := exists_run_exclusively (fun t => t.counts.all (· == 0)) m
    rw [counted.all_counts_eq_zero sound] at run
    exact ⟨_, run⟩

/-- Two keys in a map that had one bucket and grew. -/
theorem wellFormed_grown_two : ∃ m : Map Nat Nat, m.pairs = [(1, 5), (32, 6)] ∧
    m.table.buckets.size = 11 ∧ m.WellFormed := by
  let m₀ : Map Nat Nat := ofConfig ⟨1, 1, true, .default, false⟩
    ⟨"identity", fun _ k => UInt64.ofNat k⟩ fun _ => 0
  let m₁ := Part.after (.insert 1 5 false) m₀
  let m₂ := Part.after (.insert 32 6 false) m₁
  have h₁ : Reached HasRoom m₁ :=
    .part (.new rfl _ _) (hasRoom_of_length_lt (by decide +kernel)) _
  have h₂ : Reached HasRoom m₂ := .part h₁ (hasRoom_of_length_lt (by decide +kernel)) _
  have h₃ : Reached HasRoom (Part.after (.grow ⟨0, none⟩) m₂) :=
    .part h₂ (hasRoom_of_length_lt (by decide +kernel)) _
  exact ⟨_, by decide +kernel, by decide +kernel, (Reached.wellFormed h₃).1⟩

end Map

end SharedCollections

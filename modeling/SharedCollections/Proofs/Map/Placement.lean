import SharedCollections.Proofs.Map.Lookup
import SharedCollections.Proofs.Map.Reached
/-!
# Places of entries

The order in which a map is iterated is fixed by the places of its entries. Growth puts every entry
at the head of its new chain, in the order in which the old table is walked, so a new chain has its
entries in reverse (`Moved`). Between growths a change of one key leaves all chains but one as they
are (`Rechained`): an insert puts one entry in front of it, an update keeps the position of the
entry it replaces, and a removal leaves out one position.
-/

namespace SharedCollections

namespace Map

open Table (Received copies)

variable {κ ν : Type} {m m' : Map κ ν} {t : Table κ ν} {regenerate : Bool}

/-! ## Growth -/

/-- An entry but for its number. -/
def Entry.content (e : Entry κ ν) : κ × ν × UInt64 := (e.key, e.value, e.hash)

theorem Table.map_content_copies (hashOf : Entry κ ν → UInt64) (first : Nat)
    (es : List (Entry κ ν)) : (copies hashOf first es).map Entry.content =
      es.map fun e => (e.key, e.value, hashOf e) := by
  induction es generalizing first with
  | nil => rfl
  | cons e es ih => rw [copies, List.map_cons, List.map_cons, ih]; rfl

/-- The bucket of an entry in a table with `n` buckets that follows. -/
def grownBucket (regenerate : Bool) (m : Map κ ν) (n : Nat) (e : Entry κ ν) : Nat :=
  (m.grownHash regenerate e).toNat % n

/-- The map `m'` has the entries of `m` in a new table. A chain of it is what a walk over the old
table meets of its bucket, last one first; keys and values are those of before, and the hash is the
one that names the bucket. A stripe counts the entries of its buckets. The old table is kept as it
was. -/
structure Moved (regenerate : Bool) (m m' : Map κ ν) : Prop where
  size_buckets : m'.table.buckets.size = m.grownLen.1
  lockCount : m'.lockCount = m.grownLocks.1.size
  salt : m'.table.salt = if regenerate then some (m.salts m.rehashes) else m.table.salt
  chain : ∀ j, (m'.table.chain j).map Entry.content =
    ((m.entries.filter (m.grownBucket regenerate m'.table.buckets.size · = j)).map fun e =>
      (e.key, e.value, m.grownHash regenerate e)).reverse
  count : ∀ s, m'.table.count s =
    m.entries.countP (m.grownBucket regenerate m'.table.buckets.size · % m'.lockCount = s)
  pairs : m'.pairs.Perm m.pairs
  retired : m'.retired = m.retired.push m.table

theorem GrownFrom.moved (g : GrownFrom regenerate m t m') : Moved regenerate m m' := by
  have buckets : t.buckets.size = m.grownLen.1 := by
    rw [g.received.size_buckets, freshTable, Table.size_buckets_empty]
  have contents := Table.map_content_copies (m.grownHash regenerate) m.nextEntry m.entries
  constructor
  case size_buckets => rw [g.table_eq, buckets]
  case lockCount =>
    rw [lockCount, g.table_eq, g.received.locks]
    rfl
  case salt =>
    rw [g.table_eq, g.received.salt]
    rfl
  case chain =>
    intro j
    rw [g.table_eq, g.received.chain, chain_freshTable, List.append_nil, List.map_reverse]
    congr 1
    calc ((m.grownEntries regenerate).filter
            fun e => (m.freshTable regenerate).bucketOf e.hash = j).map Entry.content
        = ((m.grownEntries regenerate).map Entry.content).filter
            fun c => c.2.2.toNat % t.buckets.size = j := by
          rw [List.filter_map, ← g.received.size_buckets.symm]
          rfl
      _ = _ := by
          rw [grownEntries, contents, List.filter_map]
          rfl
  case count =>
    intro s
    rw [lockCount, g.table_eq, g.received.count, g.received.locks, count_freshTable, Nat.zero_add]
    calc (m.grownEntries regenerate).countP
            fun e => (m.freshTable regenerate).stripeOf
              ((m.freshTable regenerate).bucketOf e.hash) = s
        = ((m.grownEntries regenerate).map Entry.content).countP
            fun c => c.2.2.toNat % t.buckets.size % (m.freshTable regenerate).locks.size = s := by
          rw [List.countP_map, ← g.received.size_buckets.symm]
          rfl
      _ = _ := by
          rw [grownEntries, contents, List.countP_map]
          rfl
  case pairs => exact g.pairs_perm
  case retired =>
    rw [g.eq]
    rfl

/-! ## Changes of one key -/

/-- The tables of `m'` are those of `m`. -/
def SameTables (m m' : Map κ ν) : Prop := m'.table = m.table ∧ m'.retired = m.retired

/-- The table of `m'` is that of `m` with another chain in one bucket; earlier tables are the same.
-/
structure Rechained (bucket : Nat) (chain : List (Entry κ ν)) (m m' : Map κ ν) : Prop where
  size_buckets : m'.table.buckets.size = m.table.buckets.size
  locks : m'.table.locks = m.table.locks
  salt : m'.table.salt = m.table.salt
  chain : ∀ j, m'.table.chain j = if bucket = j then chain else m.table.chain j
  retired : m'.retired = m.retired

namespace Rechained

variable {bucket : Nat} {chain : List (Entry κ ν)}

theorem of_modifyChain (inside : bucket < m.table.buckets.size)
    {f : List (Entry κ ν) → List (Entry κ ν)}
    (buckets : m'.table.buckets = (m.table.modifyChain bucket f).buckets)
    (locks : m'.table.locks = m.table.locks) (salt : m'.table.salt = m.table.salt)
    (retired : m'.retired = m.retired) : Rechained bucket (f (m.table.chain bucket)) m m' := by
  refine ⟨?_, locks, salt, fun j => ?_, retired⟩
  · rw [buckets, Table.size_modifyChain]
  · rw [← m.table.chain_modifyChain f inside j, Table.chain, Table.chain, buckets]

theorem guarded (h : Rechained bucket chain m m') (stripe : Nat) :
    Rechained bucket chain m (guarded stripe m') :=
  ⟨h.size_buckets, h.locks, h.salt, h.chain, h.retired⟩

end Rechained

namespace Sound

theorem rechained_link (h : m.Sound) (k : κ) (v : ν) :
    Rechained (m.target k).bucket (m.newEntry k v :: m.table.chain (m.target k).bucket) m
      (m.link (m.target k) k v) :=
  .of_modifyChain (h.bucket_lt k) rfl rfl rfl rfl

/-- Where an entry stands in its chain, and the chain after the entry was replaced or unlinked. -/
theorem exists_rechained (h : m.Sound) {e : Entry κ ν} (he : e ∈ m.entries) :
    let bucket := (m.target e.key).bucket
    ∃ before behind, m.table.chain bucket = before ++ e :: behind ∧
      (∀ v, Rechained bucket (before ++ m.newEntry e.key v :: behind) m
        (m.substitute (m.target e.key) e e.key v)) ∧
      Rechained bucket (before ++ behind) m (m.erased e) := by
  obtain ⟨before, behind, chain, first⟩ := h.exists_chain_eq he
  refine ⟨before, behind, chain, fun v => ?_, ?_⟩
  · rw [← replaceFirst_split first, ← chain]
    exact .of_modifyChain (h.bucket_lt e.key) rfl rfl rfl rfl
  · rw [← eraseP_split first, ← chain]
    exact .of_modifyChain (h.bucket_lt e.key) rfl rfl rfl rfl

end Sound

/-! ## Parts of operations -/

namespace Part

variable [DecidableEq κ]

/-- What a part does to the places of the entries. An insert of a missing key puts one entry at the
head of the chain of its bucket, and nothing else moves; an update puts its entry in the position of
the one it replaces; a removal leaves out one position. Growth moves all entries, unless it fails
because a stripe would have to count past the largest word. -/
def Places : Part κ ν → Map κ ν → Map κ ν → Prop
  | insert k v replace, m, m' =>
    let bucket := (m.target k).bucket
    match m.find? k with
    | none => Rechained bucket (m.newEntry k v :: m.table.chain bucket) m m'
    | some e => ∃ before behind, m.table.chain bucket = before ++ e :: behind ∧
      if replace then Rechained bucket (before ++ m.newEntry k v :: behind) m m'
      else SameTables m m'
  | remove k accept, m, m' =>
    let bucket := (m.target k).bucket
    match m.find? k with
    | none => SameTables m m'
    | some e => ∃ before behind, m.table.chain bucket = before ++ e :: behind ∧
      if accept e.value then Rechained bucket (before ++ behind) m m' else SameTables m m'
  | update k v accept, m, m' =>
    let bucket := (m.target k).bucket
    match m.find? k with
    | none => SameTables m m'
    | some e => ∃ before behind, m.table.chain bucket = before ++ e :: behind ∧
      if accept e then Rechained bucket (before ++ m.newEntry k v :: behind) m m'
      else SameTables m m'
  | grow r, m, m' =>
    match m.judge r with
    | .late | .sparse => SameTables m m'
    | .grow regenerate => Moved regenerate m m' ∨ ∃ s, Word.top < m.grownLoad regenerate s ∧
        (Map.grow r).run m = .error (.stripeOverflow s) m' ∧ SameTables m m'
  | clear, m, m' => (∀ j, m'.table.chain j = []) ∧ m'.retired = m.retired.push m.table
  | look, m, m' | note _, m, m' => SameTables m m'

theorem places_insert (h : m.Sound) (k : κ) (v : ν) (replace : Bool) :
    (insert k v replace).Places m ((insertLocked k v replace).after m) := by
  rw [Places]
  cases found : m.find? k with
  | none =>
    by_cases room : m.table.count (m.target k).stripe < Word.top
    · rw [Action.after_of_ok (run_insertLocked_of_none found room v replace)]
      -- counting the new entry does not touch the chains
      have linked := h.rechained_link k v
      exact ⟨linked.size_buckets, linked.locks, linked.salt, linked.chain, linked.retired⟩
    · rw [Action.after_of_error (run_insertLocked_of_full found room v replace)]
      exact (h.rechained_link k v).guarded _
  | some e =>
    obtain ⟨he, rfl⟩ := mem_of_find?_eq_some found
    obtain ⟨before, behind, chain, substituted, -⟩ := h.exists_rechained he
    rw [Action.after_of_ok (run_insertLocked_of_some found v replace)]
    refine ⟨before, behind, chain, ?_⟩
    cases replace with
    | true => exact (substituted v).guarded _
    | false => exact ⟨rfl, rfl⟩

theorem places_remove (h : m.Sound) (k : κ) (accept : ν → Bool) :
    (remove k accept).Places m ((removeIf k accept).after m) := by
  rw [Places]
  cases found : m.find? k with
  | none =>
    rw [Action.after_of_ok (run_removeIf_of_none found accept)]
    exact ⟨rfl, rfl⟩
  | some e =>
    obtain ⟨he, rfl⟩ := mem_of_find?_eq_some found
    obtain ⟨before, behind, chain, -, erased⟩ := h.exists_rechained he
    rw [Action.after_of_ok (run_removeIf_of_some found accept)]
    refine ⟨before, behind, chain, ?_⟩
    cases accept e.value with
    | true => exact erased.guarded _
    | false => exact ⟨rfl, rfl⟩

theorem places_update (h : m.Sound) (k : κ) (v : ν) (accept : Entry κ ν → Bool) :
    (update k v accept).Places m ((replaceIf k v accept).after m) := by
  rw [Places]
  cases found : m.find? k with
  | none =>
    rw [Action.after_of_ok (run_replaceIf_of_none found v accept)]
    exact ⟨rfl, rfl⟩
  | some e =>
    obtain ⟨he, rfl⟩ := mem_of_find?_eq_some found
    obtain ⟨before, behind, chain, substituted, -⟩ := h.exists_rechained he
    rw [Action.after_of_ok (run_replaceIf_of_some found v accept)]
    refine ⟨before, behind, chain, ?_⟩
    cases accept e with
    | true => exact (substituted v).guarded _
    | false => exact ⟨rfl, rfl⟩

theorem places_grow (h : m.Sound) (r : Request) :
    (grow r : Part κ ν).Places m ((Map.grow r).after m) := by
  obtain ⟨trace, run⟩ := exists_run_grow r m
  rw [Places]
  cases judged : m.judge r with
  | late | sparse =>
    rw [judged] at run
    rw [Action.after_of_ok run]
    exact ⟨rfl, rfl⟩
  | grow regenerate =>
    rw [judged] at run
    have spec := h.grown_spec regenerate
    cases g : m.grown regenerate with
    | ok m' =>
      simp only [g] at run spec
      obtain ⟨t, grownFrom⟩ := spec
      have moved := grownFrom.moved
      rw [Action.after_of_ok run]
      exact .inl ⟨moved.size_buckets, moved.lockCount, moved.salt, moved.chain, moved.count,
        moved.pairs, moved.retired⟩
    | error f =>
      simp only [g] at run spec
      obtain ⟨s, rfl, excess⟩ := spec
      rw [Action.after_of_error run]
      exact .inr ⟨s, excess, run, rfl, rfl⟩

/-- Every part of an operation puts the entries where they belong. -/
theorem places_after (h : m.Sound) (p : Part κ ν) : p.Places m (p.after m) := by
  cases p with
  | insert k v replace => exact places_insert h k v replace
  | remove k accept => exact places_remove h k accept
  | update k v accept => exact places_update h k v accept
  | grow r => exact places_grow h r
  | clear =>
    obtain ⟨trace, run⟩ := exists_run_clear m
    rw [after, Action.after_of_ok run]
    exact ⟨Table.chain_empty _ _ _, rfl⟩
  | look =>
    obtain ⟨trace, run⟩ := exists_run_exclusively Table.total m
    rw [after, size, Action.after_of_ok run]
    exact ⟨rfl, rfl⟩
  | note e => exact ⟨rfl, rfl⟩

/-- Three entries of one chain that meet in one chain again when the table grows: there they stand
in reverse. -/
theorem places_after_three :
    let r : Request := ⟨0, none⟩
    ∃ m : Map Nat Nat, m.Sound ∧ (grow r).Places m ((grow r : Part Nat Nat).after m) ∧
      m.table.entries.map Entry.key = [22, 11, 0] ∧
      ((grow r : Part Nat Nat).after m).table.buckets.size = 11 ∧
      (((grow r : Part Nat Nat).after m).table.chain 0).map Entry.content =
        [(0, 5, 0), (11, 6, 11), (22, 7, 22)] := by
  intro r
  obtain ⟨m, eq⟩ : ∃ m : Map Nat Nat, m =
      afterAll [insert 0 5 false, insert 11 6 false, insert 22 7 false]
        (ofConfig ⟨1, 1, true, .default, false⟩ ⟨"identity", fun _ k => UInt64.ofNat k⟩
          fun _ => 0) :=
    ⟨_, rfl⟩
  have h : m.Sound := eq ▸ sound_afterAll (sound_ofConfig rfl) _
  have places := places_after h (grow r)
  refine ⟨m, h, places, ?_⟩
  subst eq
  decide +kernel

end Part

end Map

end SharedCollections

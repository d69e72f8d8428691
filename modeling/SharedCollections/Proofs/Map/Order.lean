import SharedCollections.Proofs.Map.Trail
/-!
# The order of a map

While a map stays as it is, a cursor gives its entries in the order in which they stand in the
table: bucket after bucket, and each chain from its head (`Cursor.Before`). That is the order of a
copy under all locks as well, so the first entry that a cursor gives is the one that is taken next.
-/

namespace SharedCollections

namespace Map

variable {κ ν : Type}

/-! ## Entries from a bucket on -/

namespace Table

variable (t : Table κ ν)

/-- The entries of bucket `b` and of those behind it. -/
def entriesFrom (b : Nat) : List (Entry κ ν) := (t.buckets.toList.drop b).flatten

theorem entriesFrom_of_le {b : Nat} (h : t.buckets.size ≤ b) : t.entriesFrom b = [] := by
  rw [entriesFrom, List.drop_of_length_le (by simpa using h)]
  rfl

theorem entriesFrom_succ (b : Nat) : t.entriesFrom b = t.chain b ++ t.entriesFrom (b + 1) := by
  rcases Nat.lt_or_ge b t.buckets.size with inside | beyond
  · have bucket : b < t.buckets.toList.length := by simpa using inside
    rw [entriesFrom, List.drop_eq_getElem_cons bucket, List.flatten_cons, t.chain_eq_getElem inside]
    rfl
  · rw [t.entriesFrom_of_le beyond, t.entriesFrom_of_le (Nat.le_succ_of_le beyond),
      t.chain_of_size_le beyond]
    rfl

/-- Looking for a bucket that is not empty passes no entry. -/
theorem entriesFrom_seek {room b : Nat} (all : t.buckets.size ≤ b + room) :
    match t.seek room b with
    | (some e, b') => ∃ es, t.chain (b' - 1) = e :: es ∧
        t.entriesFrom b = e :: es ++ t.entriesFrom b'
    | (none, b') => t.entriesFrom b = [] ∧ t.entriesFrom b' = [] := by
  induction room generalizing b with
  | zero => exact ⟨t.entriesFrom_of_le all, t.entriesFrom_of_le all⟩
  | succ room ih =>
    cases chain : t.chain b with
    | cons e es =>
      simp only [seek, chain]
      exact ⟨es, chain, by rw [entriesFrom_succ, chain]⟩
    | nil =>
      simp only [seek, chain]
      rw [entriesFrom_succ, chain, List.nil_append]
      exact ih (by omega)

end Table

/-! ## A cursor on a map that stays as it is -/

namespace Cursor

variable {m : Map κ ν} {c : Cursor κ ν} {e : Entry κ ν} {es : List (Entry κ ν)}

/-- The cursor walks the current table and has the entries `es` before it. -/
inductive Before (m : Map κ ν) : Cursor κ ν → List (Entry κ ν) → Prop where
  | intro {es : List (Entry κ ν)} (bucket : Nat) (suffix : es <:+ m.table.chain (bucket - 1)) :
      Before m ⟨m.generation, bucket, es.head?⟩ (es ++ m.table.entriesFrom bucket)

theorem before_openCursor (m : Map κ ν) : Before m m.openCursor m.entries :=
  .intro 0 List.nil_suffix

theorem tableAt_generation (m : Map κ ν) : m.tableAt m.generation = m.table :=
  tableAt_of_size_le le_rfl

namespace Before

/-- A cursor that is asked comes to stand on the first entry before it. -/
theorem settle (h : Before m c es) : Before m (c.settle m) es ∧ (c.settle m).held = es.head? := by
  cases h with
  | @intro trail bucket suffix =>
    cases trail with
    | cons e trail => exact ⟨.intro bucket suffix, rfl⟩
    | nil =>
      have all : m.table.buckets.size ≤ bucket + (m.table.buckets.size - bucket) := by omega
      have found := m.table.entriesFrom_seek all
      have settled : settle m ⟨m.generation, bucket, none⟩ =
          ⟨m.generation, (m.table.seek (m.table.buckets.size - bucket) bucket).2,
            (m.table.seek (m.table.buckets.size - bucket) bucket).1⟩ := by
        rw [Cursor.settle, tableAt_generation]
      rw [List.head?_nil, settled, List.nil_append]
      split at found
      · next e b sought =>
        obtain ⟨es, chain, eq⟩ := found
        rw [sought, eq]
        have suffix : e :: es <:+ m.table.chain (b - 1) := chain ▸ List.suffix_rfl
        exact ⟨.intro b suffix, rfl⟩
      · next b sought =>
        obtain ⟨none, none'⟩ := found
        rw [sought, none]
        have last := Before.intro b (List.nil_suffix (l := m.table.chain (b - 1)))
        rw [List.nil_append, none'] at last
        exact ⟨last, rfl⟩

/-- A cursor that stands on an entry goes on with the next one. -/
theorem advance (h : Before m c (e :: es)) (sound : m.Sound) (held : c.held = some e) :
    Before m { c with held := m.follower c.generation (c.bucket - 1) e } es := by
  generalize eq : e :: es = all at h
  cases h with
  | @intro trail bucket suffix =>
    cases trail with
    | nil => cases held
    | cons a trail =>
      obtain ⟨rfl, rfl⟩ := List.cons.inj eq
      have live : Trail m m.generation (bucket - 1) (e :: trail) :=
        .live ((tableAt_generation m).symm ▸ suffix)
      dsimp only
      rw [live.follower_eq sound]
      exact .intro bucket ((List.suffix_cons e trail).trans suffix)

/-- A cursor gives the first entry before it. -/
theorem next? (h : Before m c es) (sound : m.Sound) :
    (c.next? m).1 = es.head?.map Entry.pair ∧ Before m (c.next? m).2 es.tail := by
  obtain ⟨settled, held⟩ := h.settle
  rw [Cursor.next?]
  cases es with
  | nil =>
    rw [List.head?_nil] at held
    simp only [held]
    exact ⟨rfl, settled⟩
  | cons e es =>
    rw [List.head?_cons] at held
    simp only [held]
    exact ⟨rfl, settled.advance sound held⟩

theorem take_eq (h : Before m c es) (sound : m.Sound) (n : Nat) :
    (c.take m n).1 = (es.take n).map Entry.pair := by
  induction n generalizing c es with
  | zero => rfl
  | succ n ih =>
    obtain ⟨given, rest⟩ := h.next? sound
    rw [Cursor.take]
    generalize c.next? m = next at given rest
    obtain ⟨x, c'⟩ := next
    obtain rfl : x = es.head?.map Entry.pair := given
    cases es with
    | nil => rfl
    | cons e es => exact congrArg (e.pair :: ·) (ih rest)

end Before

end Cursor

/-! ## Copies and cursors -/

variable {m : Map κ ν}

/-- A new cursor gives the first entry of the table. -/
theorem Sound.next?_openCursor (h : m.Sound) :
    (m.openCursor.next? m).1 = m.entries.head?.map Entry.pair :=
  ((Cursor.before_openCursor m).next? h).1

/-- A copy that takes no lock has the entries in the order of the table. -/
theorem Sound.iterate_eq (h : m.Sound) : m.iterate = m.pairs := by
  have enough : m.entries.length ≤ m.openCursor.bound m := by
    change m.table.entries.length ≤ (m.tableAt m.generation).entries.length + _ + 1
    rw [Cursor.tableAt_generation]
    omega
  rw [iterate, Cursor.rest, (Cursor.before_openCursor m).take_eq h, List.take_of_length_le enough]
  rfl

/-! ## Taking the first entry -/

/-- Unlinking the first entry leaves the others in their order. -/
theorem Sound.entries_erased_of_cons (h : m.Sound) {e : Entry κ ν} {es : List (Entry κ ν)}
    (eq : m.entries = e :: es) : (m.erased e).entries = es := by
  obtain ⟨before, behind, split, -, rest⟩ :=
    h.exists_entries_eq (eq ▸ List.mem_cons_self : e ∈ m.entries)
  have nodup := h.entry_ids_nodup
  rw [eq] at split nodup
  cases before with
  | nil => exact rest.trans (List.cons.inj split).2.symm
  | cons a before =>
    -- the first entry would stand in the table twice
    obtain ⟨rfl, tail⟩ := List.cons.inj split
    have again : e ∈ es := by
      rw [tail]
      exact List.mem_append_right before List.mem_cons_self
    exact absurd (List.mem_map_of_mem again) (List.nodup_cons.mp nodup).1

variable [DecidableEq κ]

theorem Sound.run_takeFirst_of_nil (h : m.Sound) (eq : m.entries = []) (bound : Nat) :
    (takeFirst (bound + 1)).run m = .ok none m := by
  rw [takeFirst, Action.run_get_bind, h.next?_openCursor, eq]
  rfl

/-- A take removes the entry that a new cursor gives first. -/
theorem Sound.run_takeFirst_of_cons (h : m.Sound) {e : Entry κ ν} {es : List (Entry κ ν)}
    (eq : m.entries = e :: es) (bound : Nat) :
    (takeFirst (bound + 1)).run m =
      .ok (some e.pair) (guarded (m.target e.key).stripe (m.erased e)) := by
  have found : m.find? e.key = some e :=
    h.find?_eq_some_iff.mpr ⟨eq ▸ List.mem_cons_self, rfl⟩
  rw [takeFirst, Action.run_get_bind, h.next?_openCursor, eq]
  exact Action.run_bind_ok (run_removeIf_of_some found _) _

end Map

end SharedCollections

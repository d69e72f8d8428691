import SharedCollections.Map.Cursor
import SharedCollections.Proofs.Map.Reached
/-!
# Walked tables

What changes of a map do to one table that a cursor walks, be it the current one or an earlier one.
An earlier table stays as it is. In the current one a chain gets a new head, or an entry in it gives
way to a new one of its key or to nothing (`Turn`), and an entry that is unlinked keeps the link it
had. The size and the salt of a table never change, so a key never changes its bucket.
-/

namespace SharedCollections

namespace Map

variable {κ ν : Type} {m m' : Map κ ν} {g : Nat}

/-! ## Tables by number -/

theorem tableAt_of_lt (h : g < m.retired.size) : m.tableAt g = m.retired[g] := by
  simp [tableAt, h]

theorem tableAt_of_size_le (h : m.retired.size ≤ g) : m.tableAt g = m.table := by
  simp [tableAt, h]

theorem tableAt_push (retired : m'.retired = m.retired.push m.table) (hg : g ≤ m.retired.size) :
    m'.tableAt g = m.tableAt g := by
  have hg' : g < m'.retired.size := by simp [retired]; omega
  rw [tableAt_of_lt hg']
  simp only [retired, Array.getElem_push]
  split
  · next earlier => rw [tableAt_of_lt earlier]
  · next current => rw [tableAt_of_size_le (not_lt.mp current)]

/-- As long as no table is replaced, the earlier tables stay, and the current one is current. -/
theorem tableAt_eq_or (retired : m'.retired = m.retired) (g : Nat) :
    m'.tableAt g = m.tableAt g ∨ m.tableAt g = m.table ∧ m'.tableAt g = m'.table := by
  rcases lt_or_ge g m.retired.size with earlier | current
  · left
    simp [tableAt, retired, earlier]
  · exact .inr ⟨tableAt_of_size_le current, tableAt_of_size_le (retired ▸ current)⟩

/-- The tables of a sound map are well placed, and their entries go by numbers of their own. -/
theorem Sound.tableAt (h : m.Sound) (g : Nat) :
    (m.tableAt g).Placed m.hasher ∧ ((m.tableAt g).entries.map Entry.id).Nodup := by
  rcases lt_or_ge g m.retired.size with earlier | current
  · rw [tableAt_of_lt earlier]
    exact h.retired _ (Array.getElem_mem earlier)
  · rw [tableAt_of_size_le current]
    exact ⟨h.placed, h.entry_ids_nodup⟩

/-! ## What stays -/

variable [DecidableEq κ]

namespace Change

/-- A change replaces the table, or keeps it with its size and its salt. -/
theorem table_eq_or (h : m.Sound) (c : Change m m') :
    m'.retired = m.retired.push m.table ∨ m'.retired = m.retired ∧
      m'.table.buckets.size = m.table.buckets.size ∧ m'.table.salt = m.table.salt := by
  cases c with
  | none | doubled => exact .inr ⟨rfl, rfl, rfl⟩
  | added | overflowed | substituted | erased =>
    exact .inr ⟨rfl, m.table.size_modifyChain _ _, rfl⟩
  | cleared => exact .inl rfl
  | grown grew =>
    obtain ⟨t, grew⟩ := h.exists_grownFrom grew
    rw [grew.eq]
    exact .inl rfl

theorem size_retired_le (h : m.Sound) (c : Change m m') : m.retired.size ≤ m'.retired.size := by
  rcases c.table_eq_or h with retired | ⟨retired, -⟩
  · rw [retired, Array.size_push]
    exact Nat.le_succ _
  · rw [retired]

theorem hasher_eq (h : m.Sound) (c : Change m m') : m'.hasher = m.hasher := by
  cases c with
  | none | added | overflowed | substituted | erased | doubled | cleared => rfl
  | grown grew =>
    obtain ⟨t, grew⟩ := h.exists_grownFrom grew
    exact grew.hasher_eq

/-- A walked table is another one only if it is the current one. -/
theorem tableAt_eq_or (h : m.Sound) (c : Change m m') (hg : g ≤ m.retired.size) :
    m'.tableAt g = m.tableAt g ∨ m.tableAt g = m.table ∧ m'.tableAt g = m'.table := by
  rcases c.table_eq_or h with retired | ⟨retired, -⟩
  · exact .inl (tableAt_push retired hg)
  · exact Map.tableAt_eq_or retired g

theorem size_tableAt (h : m.Sound) (c : Change m m') (hg : g ≤ m.retired.size) :
    (m'.tableAt g).buckets.size = (m.tableAt g).buckets.size := by
  rcases c.table_eq_or h with retired | ⟨retired, size, -⟩
  · rw [tableAt_push retired hg]
  · rcases Map.tableAt_eq_or retired g with same | ⟨current, current'⟩
    · rw [same]
    · rw [current, current', size]

theorem salt_tableAt (h : m.Sound) (c : Change m m') (hg : g ≤ m.retired.size) :
    (m'.tableAt g).salt = (m.tableAt g).salt := by
  rcases c.table_eq_or h with retired | ⟨retired, -, salt⟩
  · rw [tableAt_push retired hg]
  · rcases Map.tableAt_eq_or retired g with same | ⟨current, current'⟩
    · rw [same]
    · rw [current, current', salt]

/-- An entry that was unlinked keeps the link it had. -/
theorem find?_unlinked (h : m.Sound) (c : Change m m') {i : Nat} {u : Unlinked κ ν}
    (left : m.unlinked.find? (·.id = i) = some u) : m'.unlinked.find? (·.id = i) = some u := by
  have later : ∀ e ∈ m.entries, ∀ next, (⟨e.id, next⟩ :: m.unlinked).find? (·.id = i) = some u := by
    intro e he next
    have id : u.id = i := by simpa using List.find?_some left
    have ne := h.unlinked_id_ne (List.mem_of_find?_eq_some left) he
    rw [List.find?_cons_of_neg (by simpa [← id] using ne.symm)]
    exact left
  cases c with
  | none | added | overflowed | doubled | cleared => exact left
  | substituted found => exact later _ found _
  | erased found => exact later _ found _
  | grown grew =>
    obtain ⟨t, grew⟩ := h.exists_grownFrom grew
    rw [grew.eq]
    exact left

end Change

/-! ## Chains of a walked table -/

/-- What a change from `m` to `m'` does to the chain of bucket `b` in table `g`. -/
inductive Turn (m m' : Map κ ν) (g b : Nat) : Prop where
  | kept (same : (m'.tableAt g).chain b = (m.tableAt g).chain b)
  | headed (new : Entry κ ν) (id : new.id = m.nextEntry)
      (eq : (m'.tableAt g).chain b = new :: (m.tableAt g).chain b)
  /-- An entry gives way to a new one of its key, or to nothing if the key is gone. -/
  | parted {before behind : List (Entry κ ν)} {e : Entry κ ν} (new : Option (Entry κ ν))
      (eq : (m.tableAt g).chain b = before ++ e :: behind)
      (eq' : (m'.tableAt g).chain b = before ++ (new.toList ++ behind))
      (apart : ∀ a ∈ before ++ (new.toList ++ behind), a.id ≠ e.id)
      (left : m'.unlinked.find? (·.id = e.id) = some ⟨e.id, behind.head?⟩)
      (key : ∀ n ∈ new, n.id = m.nextEntry ∧ n.key = e.key ∧ n ∈ m'.entries)
      (gone : new = none → m'.find? e.key = none)

namespace Turn

/-- A change of one chain of the current table. -/
theorem of_modifyChain (retired : m'.retired = m.retired) {b' : Nat}
    {f : List (Entry κ ν) → List (Entry κ ν)} (hb : b' < m.table.buckets.size)
    (chain : ∀ b, m'.table.chain b = (m.table.modifyChain b' f).chain b)
    (turn : ∀ g, m.tableAt g = m.table → m'.tableAt g = m'.table →
      m'.table.chain b' = f (m.table.chain b') → Turn m m' g b') (g b : Nat) : Turn m m' g b := by
  rcases tableAt_eq_or retired g with same | ⟨current, current'⟩
  · exact .kept (by rw [same])
  · by_cases here : b' = b
    · subst here
      refine turn g current current' ?_
      rw [chain, m.table.chain_modifyChain f hb, if_pos rfl]
    · refine .kept ?_
      rw [current, current', chain, m.table.chain_modifyChain f hb, if_neg here]

theorem of_link (h : m.Sound) {k : κ} {v : ν} (retired : m'.retired = m.retired)
    (chain : ∀ b, m'.table.chain b = (m.link (m.target k) k v).table.chain b) (g b : Nat) :
    Turn m m' g b := by
  refine of_modifyChain retired (h.bucket_lt k) chain (fun g current current' eq => ?_) g b
  refine .headed (m.newEntry k v) rfl ?_
  rw [current, current', eq]
  rfl

theorem of_unlink (h : m.Sound) {e : Entry κ ν} (he : e ∈ m.entries) (new : Option (Entry κ ν))
    (retired : m'.retired = m.retired)
    (chain : ∀ b, m'.table.chain b = (m.unlink (m.target e.key) e new).table.chain b)
    (unlinked : m'.unlinked = (m.unlink (m.target e.key) e new).unlinked)
    (key : ∀ n ∈ new, n.id = m.nextEntry ∧ n.key = e.key ∧ n ∈ m'.entries)
    (gone : new = none → m'.find? e.key = none) (g b : Nat) : Turn m m' g b := by
  obtain ⟨before, behind, split, first⟩ := h.exists_chain_eq he
  refine of_modifyChain retired (h.bucket_lt e.key) chain (fun g current current' eq => ?_) g b
  have nodup := Table.nodup_map_chain h.entry_ids_nodup (m.target e.key).bucket
  rw [split, List.map_append, List.map_cons, List.nodup_append, List.nodup_cons] at nodup
  refine .parted new (current ▸ split) ?_ (fun a ha => ?_) ?_ key gone
  · rw [current', eq, split]
    cases new with
    | none => exact eraseP_split first
    | some new => exact replaceFirst_split first new
  · simp only [List.mem_append, Option.mem_toList] at ha
    rcases ha with ha | ha | ha
    · exact beq_eq_false_iff_ne.mp (first a ha)
    · rw [(key a ha).1]
      exact (h.id_lt he).ne'
    · exact fun same => nodup.2.1.1 (List.mem_map.mpr ⟨a, ha, same⟩)
  · rw [unlinked, unlink, split, follower?_split first]
    exact List.find?_cons_of_pos (by simp)

/-- All that is new in a chain has the next number. -/
theorem id_mem {b : Nat} (turn : Turn m m' g b) {a : Entry κ ν}
    (ha : a ∈ (m'.tableAt g).chain b) : a.id = m.nextEntry ∨ a ∈ (m.tableAt g).chain b := by
  cases turn with
  | kept same => exact .inr (same ▸ ha)
  | headed new id eq =>
    rw [eq] at ha
    rcases List.mem_cons.mp ha with rfl | ha
    · exact .inl id
    · exact .inr ha
  | parted new eq eq' _ _ key =>
    simp only [eq', List.mem_append, Option.mem_toList] at ha
    rw [eq]
    rcases ha with ha | ha | ha
    · exact .inr (List.mem_append_left _ ha)
    · exact .inl (key a ha).1
    · exact .inr (List.mem_append_right _ (List.mem_cons_of_mem _ ha))

end Turn

theorem Change.turn (h : m.Sound) (c : Change m m') (hg : g ≤ m.retired.size) (b : Nat) :
    Turn m m' g b := by
  cases c with
  | none | doubled => exact .kept rfl
  | cleared => exact .kept (congrArg (Table.chain · b) (tableAt_push rfl hg))
  | @grown _ m' grew trace =>
    obtain ⟨t, grew⟩ := h.exists_grownFrom grew
    have retired : (m'.retrace trace).retired = m.retired.push m.table := by
      rw [grew.eq]
      rfl
    exact .kept (congrArg (Table.chain · b) (tableAt_push retired hg))
  | @added k v | @overflowed k v =>
    refine .of_link (k := k) (v := v) h ?_ ?_ g b
    · rfl
    · exact fun _ => rfl
  | @substituted e v found =>
    refine .of_unlink h found (some (m.newEntry e.key v)) ?_ ?_ ?_ ?_ nofun g b
    · rfl
    · exact fun _ => rfl
    · rfl
    · rintro _ ⟨⟩
      exact ⟨rfl, rfl, h.newEntry_mem_substitute found v⟩
  | erased found =>
    refine .of_unlink h found Option.none ?_ ?_ ?_ ?_ ?_ g b
    · rfl
    · exact fun _ => rfl
    · rfl
    · rintro _ ⟨⟩
    · exact fun _ => h.find?_erased found

end Map

end SharedCollections

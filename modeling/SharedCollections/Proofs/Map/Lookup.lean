import SharedCollections.Proofs.Map.Reached
/-!
# Looking up while a map changes

A search for a key finds the same entry after every change that does not concern the key. It finds
another one only if an entry of the key was linked, replaced or unlinked, or if another table was
installed (`Change.disturbs`). Entries are told apart by their numbers, and a number is given out
once: an entry that has the number of an earlier one is that entry (`Part.eq_of_id_eq`).
-/

namespace SharedCollections

namespace Map

variable {κ ν α : Type} [DecidableEq κ] {m m' : Map κ ν} {k j : κ} {v : ν} {e : Entry κ ν}

/-! ## Entries of one key -/

namespace Sound

/-- A search depends on the entries of its key alone. -/
theorem find?_congr (h : m.Sound) (h' : m'.Sound)
    (same : ∀ e, e.key = k → (e ∈ m'.entries ↔ e ∈ m.entries)) : m'.find? k = m.find? k := by
  refine Option.ext fun e => ?_
  rw [h'.find?_eq_some_iff, h.find?_eq_some_iff]
  exact and_congr_left (same e)

theorem get?_eq_some_iff (h : m.Sound) : m.get? k = some v ↔ (k, v) ∈ m.pairs := by
  rw [get?, Option.map_eq_some_iff, pairs, List.mem_map]
  constructor
  · rintro ⟨e, found, rfl⟩
    obtain ⟨he, rfl⟩ := h.find?_eq_some_iff.mp found
    exact ⟨e, he, rfl⟩
  · rintro ⟨e, he, eq⟩
    obtain ⟨rfl, rfl⟩ := Prod.mk.inj eq
    exact ⟨e, h.find?_eq_some_iff.mpr ⟨he, rfl⟩, rfl⟩

theorem find?_link (h : m.Sound) (absent : m.find? k = none) (v : ν) :
    (m.link (m.target k) k v).find? k = some (m.newEntry k v) :=
  (h.link absent v).find?_eq_some_iff.mpr
    ⟨(h.entries_link k v).mem_iff.mpr List.mem_cons_self, rfl⟩

theorem find?_link_of_ne (h : m.Sound) (absent : m.find? k = none) (v : ν) (ne : j ≠ k) :
    (m.link (m.target k) k v).find? j = m.find? j := by
  refine h.find?_congr (h.link absent v) fun e hj => ?_
  rw [(h.entries_link k v).mem_iff, List.mem_cons, or_iff_right]
  rintro rfl
  exact ne hj.symm

theorem find?_substitute (h : m.Sound) (he : e ∈ m.entries) (v : ν) :
    (m.substitute (m.target e.key) e e.key v).find? e.key = some (m.newEntry e.key v) :=
  (h.substitute he v).find?_eq_some_iff.mpr ⟨h.newEntry_mem_substitute he v, rfl⟩

theorem find?_substitute_of_ne (h : m.Sound) (he : e ∈ m.entries) (v : ν) (ne : j ≠ e.key) :
    (m.substitute (m.target e.key) e e.key v).find? j = m.find? j := by
  obtain ⟨before, behind, h₀, h₁, -⟩ := h.exists_entries_eq he
  refine h.find?_congr (h.substitute he v) fun a hj => ?_
  have old : a ≠ e := by
    rintro rfl
    exact ne hj.symm
  have new : a ≠ m.newEntry e.key v := by
    rintro rfl
    exact ne hj.symm
  simp only [h₀, h₁, List.mem_append, List.mem_cons, old, new, false_or]

theorem find?_erased_of_ne (h : m.Sound) (he : e ∈ m.entries) (ne : j ≠ e.key) :
    (m.erased e).find? j = m.find? j := by
  obtain ⟨before, behind, h₀, -, h₁⟩ := h.exists_entries_eq he
  refine h.find?_congr (h.erased he) fun a hj => ?_
  have other : a ≠ e := by
    rintro rfl
    exact ne hj.symm
  simp only [h₀, h₁, List.mem_append, List.mem_cons, other, false_or]

theorem get?_added (h : m.Sound) (absent : m.find? k = none) (v : ν) (j : κ) :
    (m.added k v).get? j = if j = k then some v else m.get? j := by
  split
  · next same =>
    subst j
    exact congrArg (Option.map _) (h.find?_link absent v)
  · next other => exact congrArg (Option.map _) (h.find?_link_of_ne absent v other)

theorem get?_substitute (h : m.Sound) (he : e ∈ m.entries) (v : ν) (j : κ) :
    (m.substitute (m.target e.key) e e.key v).get? j =
      if j = e.key then some v else m.get? j := by
  split
  · next same =>
    subst j
    exact congrArg (Option.map _) (h.find?_substitute he v)
  · next other => exact congrArg (Option.map _) (h.find?_substitute_of_ne he v other)

/-- A request for growth leaves every key its value, or fails for want of a number that counts all
entries of a stripe. -/
theorem grow_spec (h : m.Sound) (r : Request) :
    match (grow r).run m with
    | .ok () m' => ∀ k, m'.get? k = m.get? k
    | .error f _ => ∃ s, f = .stripeOverflow s := by
  obtain ⟨trace, run⟩ := exists_run_grow r m
  rw [run]
  cases m.judge r with
  | late | sparse => exact fun _ => rfl
  | grow regenerate =>
    have spec := h.grown_spec regenerate
    dsimp only
    cases grown : m.grown regenerate with
    | error f =>
      rw [grown] at spec
      obtain ⟨s, rfl, -⟩ := spec
      exact ⟨s, rfl⟩
    | ok m' =>
      rw [grown] at spec
      obtain ⟨t, g⟩ := spec
      intro k
      refine Option.ext fun v => ?_
      change m'.get? k = some v ↔ _
      rw [(g.sound h).get?_eq_some_iff, h.get?_eq_some_iff]
      exact g.pairs_perm.mem_iff

end Sound

/-! ## What a search notices -/

/-- What can happen to a map for a search of `k` to find another entry. -/
inductive Disturbs (k : κ) (m : Map κ ν) : Map κ ν → Prop where
  | added (absent : m.find? k = none) (v : ν) (trace : Trace) :
      Disturbs k m ((m.added k v).retrace trace)
  /-- An entry that cannot be counted stays linked. -/
  | overflowed (absent : m.find? k = none) (v : ν) (trace : Trace) :
      Disturbs k m ((m.link (m.target k) k v).retrace trace)
  | replaced {e : Entry κ ν} (found : m.find? k = some e) (v : ν) (trace : Trace) :
      Disturbs k m ((m.substitute (m.target k) e k v).retrace trace)
  | removed {e : Entry κ ν} (found : m.find? k = some e) (trace : Trace) :
      Disturbs k m ((m.erased e).retrace trace)
  | installed {m' : Map κ ν} (retired : m'.retired = m.retired.push m.table) : Disturbs k m m'

theorem Change.disturbs (h : m.Sound) (c : Change m m') (moved : m'.find? k ≠ m.find? k) :
    Disturbs k m m' := by
  cases c with
  | none trace | doubled trace => exact absurd rfl moved
  | @added j v absent room trace =>
    by_cases same : k = j
    · subst j
      exact .added absent v trace
    · exact absurd (h.find?_link_of_ne absent v same) moved
  | @overflowed j v absent full trace =>
    by_cases same : k = j
    · subst j
      exact .overflowed absent v trace
    · exact absurd (h.find?_link_of_ne absent v same) moved
  | @substituted e v he trace =>
    by_cases same : k = e.key
    · subst k
      exact .replaced (h.find?_eq_some_iff.mpr ⟨he, rfl⟩) v trace
    · exact absurd (h.find?_substitute_of_ne he v same) moved
  | @erased e he trace =>
    by_cases same : k = e.key
    · exact .removed (h.find?_eq_some_iff.mpr ⟨he, same.symm⟩) trace
    · exact absurd (h.find?_erased_of_ne he same) moved
  | grown g =>
    obtain ⟨t, g⟩ := h.exists_grownFrom g
    rw [g.eq]
    exact .installed rfl
  | cleared => exact .installed rfl

/-! ## Numbers of entries -/

/-- An entry that was not there before has a number that had not been given out. -/
theorem Change.mem_entries (h : m.Sound) (c : Change m m') :
    m.nextEntry ≤ m'.nextEntry ∧ ∀ e ∈ m'.entries, e ∈ m.entries ∨ m.nextEntry ≤ e.id := by
  cases c with
  | none | doubled => exact ⟨le_rfl, fun _ => .inl⟩
  | @added k v | @overflowed k v =>
    refine ⟨Nat.le_succ _, fun e he => ?_⟩
    rcases List.mem_cons.mp ((h.entries_link k v).mem_iff.mp he) with rfl | he
    · exact .inr le_rfl
    · exact .inl he
  | @substituted e v he =>
    obtain ⟨before, behind, h₀, h₁, -⟩ := h.exists_entries_eq he
    refine ⟨Nat.le_succ _, fun a ha => ?_⟩
    change a ∈ (m.substitute (m.target e.key) e e.key v).entries at ha
    rw [h₁, List.mem_append, List.mem_cons] at ha
    rw [h₀, List.mem_append, List.mem_cons]
    rcases ha with ha | rfl | ha
    · exact .inl (.inl ha)
    · exact .inr le_rfl
    · exact .inl (.inr (.inr ha))
  | @erased e he =>
    obtain ⟨before, behind, h₀, -, h₁⟩ := h.exists_entries_eq he
    refine ⟨le_rfl, fun a ha => .inl ?_⟩
    change a ∈ (m.erased e).entries at ha
    rw [h₁, List.mem_append] at ha
    rw [h₀, List.mem_append, List.mem_cons]
    exact ha.imp_right .inr
  | @grown _ m' g =>
    obtain ⟨t, g⟩ := h.exists_grownFrom g
    refine ⟨by rw [g.eq]; exact Nat.le_add_right _ _, fun e he => .inr ?_⟩
    have ids := (g.entries_perm.map Entry.id).subset (List.mem_map_of_mem he)
    rw [grownEntries, Table.map_id_copies] at ids
    exact (List.mem_range'_1.mp ids).1
  | cleared => exact ⟨le_rfl, by simp [entries, Map.cleared, install, retrace]⟩

namespace Part

theorem sound_afterAll (h : m.Sound) (parts : List (Part κ ν)) : (afterAll parts m).Sound := by
  induction parts generalizing m with
  | nil => exact h
  | cons p parts ih => exact ih (h.change (p.change m))

theorem mem_entries_afterAll (h : m.Sound) (parts : List (Part κ ν)) :
    ∀ e ∈ (afterAll parts m).entries, e ∈ m.entries ∨ m.nextEntry ≤ e.id := by
  induction parts generalizing m with
  | nil => exact fun _ => .inl
  | cons p parts ih =>
    have c := p.change m
    obtain ⟨later, new⟩ := c.mem_entries h
    intro e he
    rcases ih (h.change c) e he with he | given
    · exact new e he
    · exact .inr (later.trans given)

/-- An entry that has the number of an earlier one is that entry. -/
theorem eq_of_id_eq (h : m.Sound) {parts : List (Part κ ν)} {e' : Entry κ ν}
    (he' : e' ∈ (afterAll parts m).entries) (he : e ∈ m.entries) (same : e'.id = e.id) :
    e' = e := by
  have given := h.id_lt he
  have he' := (mem_entries_afterAll h parts e' he').resolve_right (by omega)
  exact List.inj_on_of_nodup_map h.entry_ids_nodup he' he same

/-- If a search finds another entry after parts of operations, one of them is to blame. -/
theorem exists_disturbs (h : m.Sound) {parts : List (Part κ ν)}
    (moved : (afterAll parts m).find? k ≠ m.find? k) :
    ∃ before p behind, parts = before ++ p :: behind ∧
      Disturbs k (afterAll before m) (p.after (afterAll before m)) := by
  induction parts generalizing m with
  | nil => exact absurd rfl moved
  | cons p parts ih =>
    have c := p.change m
    by_cases here : (p.after m).find? k = m.find? k
    · obtain ⟨before, p', behind, rfl, disturbs⟩ := ih (h.change c) (here ▸ moved)
      exact ⟨p :: before, p', behind, rfl, disturbs⟩
    · exact ⟨[], p, parts, rfl, c.disturbs h here⟩

end Part

end Map

end SharedCollections

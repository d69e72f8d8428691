import Mathlib.Data.Finmap
import SharedCollections.Proofs.Map.Reached
/-!
# Contents of a map

A sound map stands for a finite map from keys to values (`Models`), and each change of the map is an
operation on what it stands for: adding and replacing are `Finmap.insert`, unlinking is
`Finmap.erase`, and growing changes nothing.
-/

namespace SharedCollections

namespace Map

variable {κ ν : Type}

/-- A finite map from keys to values. -/
abbrev Dict (κ ν : Type) := Finmap fun _ : κ => ν

/-! ## Pairs -/

namespace Sound

variable {m : Map κ ν}

theorem keys_nodup (h : m.Sound) : (m.pairs.map Prod.fst).Nodup := by
  rw [pairs, List.map_map]
  exact h.placed.keys_nodup

theorem pairs_added (h : m.Sound) (k : κ) (v : ν) :
    (m.added k v).pairs.Perm ((k, v) :: m.pairs) :=
  (h.entries_link k v).map Entry.pair

/-- An entry among all pairs, and what replacing and unlinking it make of them. It is the only one
of its key. -/
theorem exists_pairs_eq (h : m.Sound) {e : Entry κ ν} (he : e ∈ m.entries) :
    ∃ before behind, m.pairs = before ++ (e.key, e.value) :: behind ∧
      (∀ v, (e.key, v) ∉ before ∧ (e.key, v) ∉ behind) ∧
      (∀ v, (m.substitute (m.target e.key) e e.key v).pairs = before ++ (e.key, v) :: behind) ∧
      (m.erased e).pairs = before ++ behind := by
  obtain ⟨before, behind, h₀, h₁, h₂⟩ := h.exists_entries_eq he
  have split : m.pairs = before.map Entry.pair ++ (e.key, e.value) :: behind.map Entry.pair := by
    rw [pairs, h₀, List.map_append]
    rfl
  refine ⟨before.map Entry.pair, behind.map Entry.pair, split, fun v => ?_, fun v => ?_, ?_⟩
  · have nodup := h.keys_nodup
    rw [split, List.map_append, List.map_cons, List.nodup_middle, List.nodup_cons,
      ← List.map_append] at nodup
    refine ⟨fun hv => nodup.1 ?_, fun hv => nodup.1 ?_⟩
    · exact List.mem_map.mpr ⟨_, List.mem_append_left _ hv, rfl⟩
    · exact List.mem_map.mpr ⟨_, List.mem_append_right _ hv, rfl⟩
  · rw [pairs, h₁, List.map_append]
    rfl
  · rw [pairs, h₂, List.map_append]

theorem pairs_cleared (m : Map κ ν) : m.cleared.pairs = [] := by
  simp [pairs, entries, Map.cleared, install]

end Sound

variable [DecidableEq κ]

/-! ## What a map stands for -/

/-- A sound map with right counts that has exactly the entries of the finite map `d`. -/
structure Models (m : Map κ ν) (d : Dict κ ν) : Prop where
  sound : m.Sound
  counted : m.Counted
  mem_pairs : ∀ k v, (k, v) ∈ m.pairs ↔ d.lookup k = some v

namespace Models

variable {m : Map κ ν} {d : Dict κ ν} {k : κ} {v : ν} {e : Entry κ ν}

theorem ofConfig {c : Config} (ok : c.check = .ok ()) (hasher : Hasher κ) (salts : Nat → UInt64) :
    Models (ofConfig c hasher salts : Map κ ν) ∅ :=
  ⟨sound_ofConfig ok, counted_ofConfig, by simp [pairs]⟩

/-! ### Looking up -/

theorem find?_eq_none (h : Models m d) : m.find? k = none ↔ k ∉ d := by
  rw [h.sound.find?_eq_none_iff, Finmap.mem_iff]
  constructor
  · rintro absent ⟨v, hv⟩
    obtain ⟨e, he, eq⟩ := List.mem_map.mp ((h.mem_pairs k v).mpr hv)
    exact absent e he (congrArg Prod.fst eq)
  · rintro absent e he rfl
    exact absent ⟨e.value, (h.mem_pairs _ _).mp (List.mem_map_of_mem he)⟩

theorem lookup_of_find? (h : Models m d) (found : m.find? k = some e) :
    d.lookup k = some e.value := by
  obtain ⟨he, rfl⟩ := mem_of_find?_eq_some found
  exact (h.mem_pairs _ _).mp (List.mem_map_of_mem he)

theorem mem_of_find? (h : Models m d) (found : m.find? k = some e) : k ∈ d :=
  Finmap.mem_of_lookup_eq_some (h.lookup_of_find? found)

theorem get?_eq (h : Models m d) (k : κ) : m.get? k = d.lookup k := by
  rw [get?]
  cases found : m.find? k with
  | none => exact (Finmap.lookup_eq_none.mpr (h.find?_eq_none.mp found)).symm
  | some e => exact (h.lookup_of_find? found).symm

theorem contains_eq (h : Models m d) (k : κ) : m.contains k = decide (k ∈ d) := by
  rw [contains]
  cases found : m.find? k with
  | none => exact (decide_eq_false (h.find?_eq_none.mp found)).symm
  | some e => exact (decide_eq_true (h.mem_of_find? found)).symm

/-! ### Changes -/

theorem retrace (h : Models m d) (trace : Trace) : Models (m.retrace trace) d :=
  ⟨(sound_retrace _ _).mpr h.sound, h.counted, h.mem_pairs⟩

theorem added (h : Models m d) (absent : m.find? k = none) (v : ν) :
    Models (m.added k v) (d.insert k v) := by
  refine ⟨h.sound.added absent v, h.counted.added h.sound k v, fun j w => ?_⟩
  have new : ∀ w, (k, w) ∉ m.pairs := fun w hw =>
    h.find?_eq_none.mp absent (Finmap.mem_of_lookup_eq_some ((h.mem_pairs k w).mp hw))
  rw [(h.sound.pairs_added k v).mem_iff, List.mem_cons, Prod.mk.injEq]
  by_cases same : j = k
  · subst same
    simp [new, eq_comm]
  · rw [Finmap.lookup_insert_of_ne _ same]
    simp [same, h.mem_pairs]

theorem substitute (h : Models m d) (he : e ∈ m.entries) (v : ν) :
    Models (m.substitute (m.target e.key) e e.key v) (d.insert e.key v) := by
  obtain ⟨before, behind, h₀, only, h₁, -⟩ := h.sound.exists_pairs_eq he
  refine ⟨h.sound.substitute he v, h.counted.substitute h.sound he v, fun j w => ?_⟩
  rw [h₁]
  by_cases same : j = e.key
  · subst same
    simp [only, eq_comm]
  · rw [Finmap.lookup_insert_of_ne _ same, ← h.mem_pairs, h₀]
    simp [same]

theorem erased (h : Models m d) (he : e ∈ m.entries) : Models (m.erased e) (d.erase e.key) := by
  obtain ⟨before, behind, h₀, only, -, h₁⟩ := h.sound.exists_pairs_eq he
  refine ⟨h.sound.erased he, h.counted.erased h.sound he, fun j w => ?_⟩
  rw [h₁]
  by_cases same : j = e.key
  · subst same
    simp [only]
  · rw [Finmap.lookup_erase_ne same, ← h.mem_pairs, h₀]
    simp [same]

theorem doubled (h : Models m d) : Models m.doubled d :=
  ⟨h.sound.doubled, h.counted, h.mem_pairs⟩

theorem grown (h : Models m d) {m' : Map κ ν} {regenerate : Bool}
    (g : m.grown regenerate = .ok m') : Models m' d := by
  obtain ⟨t, g⟩ := h.sound.exists_grownFrom g
  exact ⟨g.sound h.sound, g.counted, fun k v => g.pairs_perm.mem_iff.trans (h.mem_pairs k v)⟩

theorem cleared (h : Models m d) : Models m.cleared ∅ := by
  refine ⟨h.sound.cleared, .cleared m, fun k v => ?_⟩
  rw [Sound.pairs_cleared]
  simp

end Models

end Map

end SharedCollections

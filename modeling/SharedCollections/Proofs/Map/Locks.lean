import Mathlib.Data.Finset.Max
import Mathlib.Data.Fintype.Fin
import SharedCollections.Proofs.Map.Reached
import SharedCollections.Proofs.Map.Sections
import SharedCollections.Proofs.Map.Shape
/-!
# The order of the locks

An operation takes its parts one after the other, with the calls of its factories and all that these
do in between (`Takes`). Each part has one section, so nothing of the caller runs while a stripe is
held, and whoever takes a stripe holds smaller ones only. A stripe has the same lock in every table
that has the stripe (`Numbered`), so the order of the stripes is an order of the locks, and threads
are never stuck on each other (`Recorded.exists_unblocked`).
-/

namespace SharedCollections

namespace Map

variable {κ ν α β : Type}

/-! ## Operations and their parts -/

variable [DecidableEq κ]

/-- The parts that a computation takes on a map, one after the other. A call of a factory is noted,
then come the parts of what the factory does, and only after them those of the write it was called
for. An insert asks for growth, which is a part of its own. -/
inductive Takes : {α : Type} → Action (Map κ ν) α → Map κ ν → List (Part κ ν) → Prop where
  /-- A look-up, or a step of a cursor. -/
  | read {α : Type} (f : Map κ ν → α) (m : Map κ ν) : Takes (do return f (← get)) m []
  | fail {α : Type} (f : Fault) (m : Map κ ν) : Takes (throw f : Action (Map κ ν) α) m []
  | exclusively {α : Type} (f : Table κ ν → α) (m : Map κ ν) :
      Takes (exclusively do return f (← get).table) m [.look]
  | clear (m : Map κ ν) : Takes clear m [.clear]
  | insertOr (k : κ) (v : ν) (replace : Bool) (m : Map κ ν) :
      Takes (insertOr k v replace) m (.insert k v replace ::
        ((Part.insert k v replace).request? m).toList.map .grow)
  | removeIf (k : κ) (accept : ν → Bool) (m : Map κ ν) :
      Takes (removeIf k accept) m [.remove k accept]
  | replaceIf (k : κ) (v : ν) (accept : Entry κ ν → Bool) (m : Map κ ν) :
      Takes (replaceIf k v accept) m [.update k v accept]
  | called (m : Map κ ν) : Takes (record .called) m [.note .called]
  | retried (m : Map κ ν) :
      Takes (record (.retried .mapUpdate)) m [.note (.retried .mapUpdate)]
  | bind {α β : Type} {a : Action (Map κ ν) α} {f : α → Action (Map κ ν) β} {m t : Map κ ν} {x : α}
      {parts parts' : List (Part κ ν)} (first : Takes a m parts) (run : a.run m = .ok x t)
      (rest : Takes (f x) t parts') : Takes (a >>= f) m (parts ++ parts')
  /-- A fault ends a computation. -/
  | bind_error {α β : Type} {a : Action (Map κ ν) α} (f : α → Action (Map κ ν) β) {m t : Map κ ν}
      {e : Fault} {parts : List (Part κ ν)} (first : Takes a m parts)
      (run : a.run m = .error e t) : Takes (a >>= f) m parts
  | attempt {α : Type} {a : Action (Map κ ν) α} {m : Map κ ν} {parts : List (Part κ ν)}
      (h : Takes a m parts) : Takes a.attempt m parts

namespace Takes

variable {a : Action (Map κ ν) α} {m : Map κ ν} {parts : List (Part κ ν)}

theorem after_eq (h : Takes a m parts) : a.after m = Part.afterAll parts m := by
  induction h with
  | read | fail | exclusively | clear | removeIf | replaceIf | called | retried => rfl
  | insertOr k v replace m => exact after_insertOr k v replace m
  | bind _ run _ first rest =>
    rw [Action.after_of_ok run] at first
    rw [Action.after, Action.run_bind_ok run, ← Action.after, rest, first, Part.afterAll_append]
  | bind_error f _ run first =>
    rw [Action.after_of_error run] at first
    rw [Action.after_of_error (Action.run_bind_error run f), first]
  | attempt _ ih => rw [Action.after_attempt, ih]

/-- What is recorded outside of all sections. -/
theorem note_eq (h : Takes a m parts) {e : Event} (he : .note e ∈ parts) :
    e = .called ∨ e = .retried .mapUpdate := by
  induction h with
  | read | fail => cases he
  | exclusively | clear | removeIf | replaceIf => simp at he
  | insertOr k v replace m => simp at he
  | called => exact .inl (by simpa using he)
  | retried => exact .inr (by simpa using he)
  | bind _ _ _ first rest =>
    rcases List.mem_append.mp he with here | there
    · exact first here
    · exact rest there
  | bind_error _ _ _ ih | attempt _ ih => exact ih he

theorem composes : Composes fun {α} (a : Action (Map κ ν) α) => ∀ m, ∃ parts, Takes a m parts where
  fail f m := ⟨_, fail f m⟩
  bind first rest m := by
    obtain ⟨parts, h⟩ := first m
    cases run : EStateM.run _ m with
    | error e t => exact ⟨_, bind_error _ h run⟩
    | ok x t =>
      obtain ⟨parts', h'⟩ := rest x t
      exact ⟨_, bind h run h'⟩
  attempt h m := (h m).imp fun _ => attempt
  read f m := ⟨_, read f m⟩
  exclusively f m := ⟨_, exclusively f m⟩
  clear m := ⟨_, clear m⟩
  insertOr k v replace m := ⟨_, insertOr k v replace m⟩
  removeIf k accept m := ⟨_, removeIf k accept m⟩
  replaceIf k v accept m := ⟨_, replaceIf k v accept m⟩
  called m := ⟨_, called m⟩
  retried m := ⟨_, retried m⟩

end Takes

/-! ## One order for all tables -/

/-- The lock of a stripe is the one that was made under the number of the stripe, and the next lock
gets the number of the next stripe. -/
structure Numbered (m : Map κ ν) : Prop where
  locks : m.table.locks.toList = List.range m.lockCount
  next : m.nextLock = m.lockCount

section

variable {m m' : Map κ ν}

omit [DecidableEq κ] in
theorem extendLocks_range {locks : Array Nat} {size : Nat} (len : Nat)
    (range : locks.toList = .range size) :
    (extendLocks locks len size).1.toList = .range (max size len) := by
  have locks_size : locks.size = size := by
    rw [← Array.length_toList, range, List.length_range]
  have sum : max size len = size + (len - size) := by omega
  rw [extendLocks, sum, List.range_add, Array.toList_append, range, locks_size]
  simp

omit [DecidableEq κ] in
theorem numbered_ofConfig (c : Config) (hasher : Hasher κ) (salts : Nat → UInt64) :
    (ofConfig c hasher salts : Map κ ν).Numbered := by
  have size : (ofConfig c hasher salts : Map κ ν).lockCount = c.locks := by
    change (extendLocks #[] c.locks 0).1.size = _
    rw [size_extendLocks]
    exact max_eq_right (Nat.zero_le _)
  constructor
  · rw [size]
    exact (extendLocks_range c.locks (rfl : #[].toList = .range 0)).trans (by rw [Nat.zero_max])
  · rw [size]
    exact Nat.zero_add _

omit [DecidableEq κ] in
theorem Numbered.grown {regenerate : Bool} {t : Table κ ν} (numbered : m.Numbered)
    (g : GrownFrom regenerate m t m') : m'.Numbered ∧ m.lockCount ≤ m'.lockCount := by
  have locks : m'.table.locks = m.grownLocks.1 := by
    rw [g.table_eq, g.received.locks]
    rfl
  have range := extendLocks_range (m.policy.nextLocks m.lockCount m.growLocks) numbered.locks
  rw [← numbered.next] at range
  have size : m'.lockCount = max m.lockCount (m.policy.nextLocks m.lockCount m.growLocks) := by
    rw [lockCount, locks, grownLocks, size_extendLocks]
    rfl
  refine ⟨⟨?_, ?_⟩, size ▸ le_max_left _ _⟩
  · rw [locks, grownLocks, size]
    rw [numbered.next] at range ⊢
    exact range
  · rw [size, g.eq]
    change m.nextLock + (m.policy.nextLocks m.lockCount m.growLocks - m.table.locks.size) = _
    rw [numbered.next, lockCount]
    omega

/-- Locks are only added. -/
theorem Numbered.change (numbered : m.Numbered) (h : m.Sound) (c : Change m m') :
    m'.Numbered ∧ m.lockCount ≤ m'.lockCount := by
  cases c with
  | grown ok trace =>
    obtain ⟨t, g⟩ := h.exists_grownFrom ok
    obtain ⟨⟨locks, next⟩, le⟩ := numbered.grown g
    exact ⟨⟨locks, next⟩, le⟩
  | _ => exact ⟨⟨numbered.locks, numbered.next⟩, le_rfl⟩

omit [DecidableEq κ] in
theorem target_eq_of_shape_eq (hasher : m'.hasher = m.hasher) (shape : m'.shape = m.shape) (k : κ) :
    m'.target k = m.target k := by
  have generation : m'.generation = m.generation := congrArg Shape.generation shape
  have buckets : m'.table.buckets.size = m.table.buckets.size := congrArg Shape.buckets shape
  have locks : m'.table.locks.size = m.table.locks.size := congrArg Shape.locks shape
  have salt : m'.table.salt = m.table.salt := congrArg Shape.salt shape
  simp only [target, hashOf, Table.bucketOf, Table.stripeOf, generation, buckets, locks, salt,
    hasher]

/-- As long as the table is not replaced, a key belongs to one stripe. -/
theorem Change.target_eq (h : m.Sound) (c : Change m m') :
    m.generation < m'.generation ∨
      m'.generation = m.generation ∧ ∀ k, m'.target k = m.target k := by
  have edit (e : Edit m m') (hasher : m'.hasher = m.hasher) :
      m'.generation = m.generation ∧ ∀ k, m'.target k = m.target k :=
    ⟨congrArg Shape.generation e.shape_eq, target_eq_of_shape_eq hasher e.shape_eq⟩
  cases c with
  | none trace => exact .inr (edit (.none trace) rfl)
  | added absent room trace => exact .inr (edit (.added absent room trace) rfl)
  | overflowed absent full trace => exact .inr (edit (.overflowed absent full trace) rfl)
  | substituted found trace => exact .inr (edit (.substituted found trace) rfl)
  | erased found trace => exact .inr (edit (.erased found trace) rfl)
  | doubled => exact .inr ⟨rfl, fun _ => rfl⟩
  | grown ok trace =>
    obtain ⟨t, g⟩ := h.exists_grownFrom ok
    exact .inl (Nat.lt_of_lt_of_eq (Nat.lt_succ_self _) (congrArg Shape.generation g.shape_eq).symm)
  | cleared trace =>
    exact .inl (Nat.lt_of_lt_of_eq (Nat.lt_succ_self _)
      (congrArg Shape.generation m.shape_cleared).symm)

/-- What parts of any threads do to the locks that a thread takes: a stripe keeps its lock, and a
key keeps its stripe until the table is replaced. -/
theorem Numbered.afterAll (numbered : m.Numbered) (h : m.Sound) (parts : List (Part κ ν)) :
    (Part.afterAll parts m).Numbered ∧ m.lockCount ≤ (Part.afterAll parts m).lockCount ∧
      (m.generation < (Part.afterAll parts m).generation ∨
        (Part.afterAll parts m).generation = m.generation ∧
          ∀ k, (Part.afterAll parts m).target k = m.target k) := by
  induction parts generalizing m with
  | nil => exact ⟨numbered, le_rfl, .inr ⟨rfl, fun _ => rfl⟩⟩
  | cons p parts ih =>
    obtain ⟨numbered', more⟩ := numbered.change h (p.change m)
    obtain ⟨numbered'', more', later⟩ := ih numbered' (h.change (p.change m))
    refine ⟨numbered'', more.trans more', ?_⟩
    change m.generation < (Part.afterAll parts (p.after m)).generation ∨ _
    rcases (p.change m).target_eq h with replaced | ⟨same, target⟩
    · left
      rcases later with replaced' | ⟨same', -⟩ <;> omega
    · rcases later with replaced' | ⟨same', target'⟩
      · exact .inl (same ▸ replaced')
      · exact .inr ⟨same'.trans same, fun k => (target' k).trans (target k)⟩

end

theorem Reached.numbered {allowed : Map κ ν → Prop} {m : Map κ ν} (h : Reached allowed m) :
    m.Numbered := by
  induction h with
  | new => exact numbered_ofConfig _ _ _
  | part h _ p ih => exact (ih.change h.sound (p.change _)).1

omit [DecidableEq κ] in
/-- Growth fails only if there are more entries than a word can count. -/
theorem Sound.top_lt_of_grown {m : Map κ ν} (h : m.Sound) {regenerate : Bool} {f : Fault}
    (failed : m.grown regenerate = .error f) : Word.top < m.entries.length := by
  have spec := h.grown_spec regenerate
  rw [failed] at spec
  obtain ⟨s, -, excess⟩ := spec
  exact excess.trans_le List.countP_le_length

/-! ## Several threads -/

section

variable (κ ν) in
/-- What one thread records by parts of its uses, of maps that other threads may have changed since
the part before. A thread that waited for a stripe of a table that was replaced meanwhile gives it
back. -/
inductive Recorded : List Event → Prop where
  | nil : Recorded []
  | part {events : List Event} (h : Recorded events) {m : Map κ ν}
      (reached : Reached (fun _ => True) m) (p : Part κ ν)
      (outside : ∀ e, p = .note e → e = .called ∨ e = .retried .mapUpdate) :
      Recorded (events ++ p.recorded m)
  | stale {events : List Event} (h : Recorded events) (s : Nat) :
      Recorded (events ++ (critical [s] [] [s] ++ [.retried .mapStaleTable]))

namespace Recorded

variable {events : List Event}

theorem hold_eq (h : Recorded κ ν events) : hold [] events = some [] := by
  induction h with
  | nil => rfl
  | part _ reached p outside ih =>
    rw [hold_append, ih, Option.bind_some]
    refine p.hold_recorded reached.sound fun e eq => ?_
    rcases outside e eq with rfl | rfl <;> rfl
  | stale _ s ih =>
    have taken : hold [] (critical [s] [] [s]) = some [] :=
      hold_critical (List.pairwise_singleton _ s) nofun (.refl _)
    rw [hold_append, ih, Option.bind_some, hold_append, taken]
    rfl

theorem append_recordedAll {m : Map κ ν} {parts : List (Part κ ν)} (h : Recorded κ ν events)
    (reached : Reached (fun _ => True) m)
    (outside : ∀ e, .note e ∈ parts → e = .called ∨ e = .retried .mapUpdate) :
    Recorded κ ν (events ++ Part.recordedAll parts m) := by
  induction parts generalizing m events with
  | nil => simpa [Part.recordedAll] using h
  | cons p parts ih =>
    rw [Part.recordedAll, ← List.append_assoc]
    exact ih (h.part reached p fun e eq => outside e (eq ▸ List.mem_cons_self))
      (reached.part trivial p) fun e he => outside e (List.mem_cons_of_mem _ he)

/-- A use of a map adds to what a thread has recorded. -/
theorem append_of_takes {a : Action (Map κ ν) α} {m : Map κ ν} {parts : List (Part κ ν)}
    (h : Recorded κ ν events) (reached : Reached (fun _ => True) m) (takes : Takes a m parts) :
    Recorded κ ν (events ++ Part.recordedAll parts m) :=
  h.append_recordedAll reached fun _ => takes.note_eq

/-- Threads that use a map are never stuck on each other: if each of them is about to take a stripe,
one wants a stripe that none of them holds. -/
theorem exists_unblocked {n : Nat} {begun rest : Fin (n + 1) → List Event}
    {wanted : Fin (n + 1) → Nat}
    (h : ∀ i, Recorded κ ν (begun i ++ .locked (wanted i) :: rest i)) :
    ∃ held : Fin (n + 1) → List Nat, (∀ i, hold [] (begun i) = some (held i)) ∧
      ∃ i, ∀ j, wanted i ∉ held j := by
  have keeps (i) : ∃ held, hold [] (begun i) = some held ∧ ∀ t ∈ held, t < wanted i := by
    have whole := (h i).hold_eq
    rw [hold_append] at whole
    obtain ⟨held, begins, whole⟩ := Option.bind_eq_some_iff.mp whole
    rw [hold_cons] at whole
    obtain ⟨_, takes, -⟩ := Option.bind_eq_some_iff.mp whole
    exact ⟨held, begins, (Option.ite_none_right_eq_some.mp takes).1⟩
  choose held begins below using keeps
  refine ⟨held, begins, ?_⟩
  -- whoever holds the greatest stripe that is wanted wants a greater one
  obtain ⟨i, -, greatest⟩ := Finset.exists_max_image Finset.univ wanted Finset.univ_nonempty
  exact ⟨i, fun j here => absurd (greatest j (Finset.mem_univ j)) (below j _ here).not_ge⟩

end Recorded

end

/-- Every use of a map takes its parts one after the other, and each of these records one section or
an event outside of all sections (`Part.recorded`): a part that is about one key takes the stripe of
the key in the current table, and one that takes more stripes takes them in ascending order. So a
thread takes a stripe only above those it holds, and none is held when a factory is called. Other
threads may come first: a thread that waited for the stripe of its key holds the right one if the
table is still the same, and otherwise it gives the stripe back and starts over. A stripe has the
same lock in every table that has the stripe. Growth records that the table was resized, unless
there are more entries than a word can count. -/
theorem Reached.locks_in_order {allowed : Map κ ν → Prop} {m : Map κ ν} (h : Reached allowed m) :
    (∀ (α : Type) (a : Action (Map κ ν) α), Use a → ∃ parts, Takes a m parts) ∧
    (∀ (α : Type) (a : Action (Map κ ν) α) (parts : List (Part κ ν)), Takes a m parts →
      a.after m = Part.afterAll parts m ∧
      (a.after m).trace.toList = m.trace.toList ++ Part.recordedAll parts m ∧
      hold [] (Part.recordedAll parts m) = some []) ∧
    (∀ regenerate f, m.grown regenerate = .error f → Word.top < m.entries.length) ∧
    m.table.locks.toList = List.range m.lockCount ∧
    ∀ others : List (Part κ ν), let m' := Part.afterAll others m
      m.table.locks.toList <+: m'.table.locks.toList ∧
      ∀ k, (Locking.acquiring (m.target k)).step k m' =
        if m'.generation = m.generation then
          (.done (m'.target k), m'.tell [.locked (m'.target k).stripe])
        else
          (.next .aiming, m'.tell (critical [(m.target k).stripe] [] [(m.target k).stripe] ++
            [.retried .mapStaleTable])) := by
  have sound := h.sound
  refine ⟨fun α a use => Takes.composes.of_use use m, ?_, fun _ _ => sound.top_lt_of_grown,
    h.numbered.locks, ?_⟩
  · intro α a parts takes
    refine ⟨takes.after_eq, ?_, Part.hold_recordedAll sound fun e he => ?_⟩
    · rw [takes.after_eq, Part.toList_trace_afterAll sound]
    · rcases takes.note_eq he with rfl | rfl <;> rfl
  · intro others
    dsimp only
    obtain ⟨numbered, more, later⟩ := h.numbered.afterAll sound others
    constructor
    · rw [h.numbered.locks, numbered.locks, ← Nat.add_sub_cancel' more, List.range_add]
      exact List.prefix_append _ _
    · intro k
      rw [Locking.step, emit_eq_tell, emit_eq_tell, emit_eq_tell, tell_tell, tell_tell]
      rcases later with replaced | ⟨same, target⟩
      · rw [if_neg (by exact replaced.ne), if_neg replaced.ne']
        rfl
      · rw [if_pos (by exact same.symm), if_pos same, target k]

/-- A factory adds a key and has the table grow; the write that it was called for takes a stripe of
the new table. -/
theorem locks_in_order_nested : ∃ m : Map Nat Nat, ∃ parts,
    Takes (getOrInsertWith 32 do insert 3 7; return (9, ())) m parts ∧
    Part.recordedAll parts m = [.called, .locked 1, .unlocked 1,
      .locked 0, .locked 1, .resized 11 4, .logged (.tableResized 11 4 false), .unlocked 1,
      .unlocked 0, .locked 2, .unlocked 2] ∧
    hold [] (Part.recordedAll parts m) = some [] := by
  let m₀ : Map Nat Nat := ofConfig ⟨2, 2, true, .default, true⟩
    ⟨"identity", fun _ k => UInt64.ofNat k⟩ fun _ => 0
  let m := Part.after (.insert 1 5 false) m₀
  have h : Reached (fun _ => True) m := .part (.new rfl _ _) trivial _
  have use : Use (getOrInsertWith 32 do insert 3 7; return (9, ()) : Action (Map Nat Nat) _) :=
    .getOrInsertWith 32 (.bind (.insert 3 7) fun _ => .pure _)
  obtain ⟨exists_parts, records, -⟩ := h.locks_in_order
  obtain ⟨parts, takes⟩ := exists_parts _ _ use
  obtain ⟨-, trace, holds⟩ := records _ _ parts takes
  have events : ((getOrInsertWith 32 do insert 3 7; return (9, ())).after m).trace.toList =
      m.trace.toList ++ [.called, .locked 1, .unlocked 1,
        .locked 0, .locked 1, .resized 11 4, .logged (.tableResized 11 4 false), .unlocked 1,
        .unlocked 0, .locked 2, .unlocked 2] := by
    decide +kernel
  exact ⟨m, parts, takes, List.append_cancel_left (trace.symm.trans events), holds⟩

end Map

end SharedCollections

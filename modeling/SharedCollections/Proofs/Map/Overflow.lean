import SharedCollections.Proofs.Map.Geometry
import SharedCollections.Proofs.Map.GetOrInsert
import SharedCollections.Proofs.Map.Placement
/-!
# Full stripes

A stripe whose count is the largest word cannot count one more entry. An insert of a missing key
fails there, but only after it has linked its entry: the lock is given back, counts, budget and
earlier tables are as before, and the key has its value from then on, in an entry that nobody has
counted (`Uncounted`). Whatever operation inserts the key comes to this
(`Inserts.exists_uncounted`). A stripe can be filled by adding keys, as long as there is memory for
them (`Models.exists_run_insertNewAll`).
-/

namespace SharedCollections

namespace Map

variable {κ ν : Type} [DecidableEq κ]

/-! ## Inserts that fail -/

/-- What an insert that a full stripe could not count makes of `m`: the new entry is at the head of
the chain of its bucket, and all else is as it was. -/
structure Uncounted (k : κ) (v : ν) (m m' : Map κ ν) : Prop where
  rechained : Rechained (m.target k).bucket
    (m.newEntry k v :: m.table.chain (m.target k).bucket) m m'
  find?_eq : m'.find? k = some (m.newEntry k v)
  others : ∀ j ≠ k, m'.find? j = m.find? j
  counts : m'.table.counts = m.table.counts
  load : m'.table.load (m.target k).stripe = m.table.load (m.target k).stripe + 1
  shape : m'.shape = m.shape
  trace : m'.trace =
    (m.trace.push (.locked (m.target k).stripe)).push (.unlocked (m.target k).stripe)

theorem Sound.uncounted {m : Map κ ν} {k : κ} (h : m.Sound) (absent : m.find? k = none) (v : ν) :
    Uncounted k v m (guarded (m.target k).stripe (m.link (m.target k) k v)) where
  rechained := (h.rechained_link k v).guarded _
  find?_eq := h.find?_link absent v
  others _ ne := h.find?_link_of_ne absent v ne
  counts := rfl
  load := by
    have load := h.load_added k v (m.target k).stripe
    rwa [if_pos rfl] at load
  shape := shape_link m _ k v
  trace := rfl

/-- The operations that insert a key. An operation `a` that starts on `m` inserts the value `v` for
`k` into the map `w`, which is `m` unless a factory has worked on it. -/
inductive Inserts (k : κ) (m : Map κ ν) : {α : Type} → Action (Map κ ν) α → ν → Map κ ν → Prop where
  | insertIfNew (v : ν) : Inserts k m (insertIfNew k v) v m
  | insertNew (v : ν) : Inserts k m (insertNew k v) v m
  | insert (v : ν) : Inserts k m (insert k v) v m
  | getOrInsert (v : ν) : Inserts k m (getOrInsert k v) v m
  | getOrInsertWith {β : Type} {factory : Action (Map κ ν) (ν × β)} {v : ν} {report : β}
      {w : Map κ ν} (made : factory.run (m.emit .called) = .ok (v, report) w) :
      Inserts k m (getOrInsertWith k factory) v w
  | getOrInsertWithArg {β γ : Type} {factory : κ → γ → Action (Map κ ν) (ν × β)} {arg : γ} {v : ν}
      {report : β} {w : Map κ ν} (made : (factory k arg).run (m.emit .called) = .ok (v, report) w) :
      Inserts k m (getOrInsertWithArg k factory arg) v w
  | upsert (v : ν) (f : ν → ν) : Inserts k m (upsert k v f) v (m.emit .called)
  | upsertWith {β : Type} {add : Nat → Action (Map κ ν) (ν × β)}
      {update : Nat → ν → Action (Map κ ν) (ν × β)} {v : ν} {report : β} {w : Map κ ν}
      (made : (add 0).run (m.emit .called) = .ok (v, report) w) (bound : Nat) :
      Inserts k m (upsertWith k add update (bound + 1)) v w

section

variable {m w : Map κ ν} {k : κ} {v : ν}

theorem run_insertOr_of_full (absent : m.find? k = none)
    (full : m.table.count (m.target k).stripe = Word.top) (v : ν) (replace : Bool) :
    (insertOr k v replace).run m = .error (.stripeOverflow (m.target k).stripe)
      (guarded (m.target k).stripe (m.link (m.target k) k v)) :=
  Action.run_bind_error (run_insertLocked_of_full absent full.not_lt v replace) _

theorem run_insertIfNew_of_full (absent : m.find? k = none)
    (full : m.table.count (m.target k).stripe = Word.top) (v : ν) :
    (insertIfNew k v).run m = .error (.stripeOverflow (m.target k).stripe)
      (guarded (m.target k).stripe (m.link (m.target k) k v)) :=
  Action.run_bind_error (run_insertOr_of_full absent full v false) _

theorem run_upsertWith_of_full {β : Type} {add : Nat → Action (Map κ ν) (ν × β)}
    {update : Nat → ν → Action (Map κ ν) (ν × β)} {report : β} (missing : m.find? k = none)
    (made : (add 0).run (m.emit .called) = .ok (v, report) w) (absent : w.find? k = none)
    (full : w.table.count (w.target k).stripe = Word.top) (bound : Nat) :
    (upsertWith k add update (bound + 1)).run m = .error (.stripeOverflow (w.target k).stripe)
      (guarded (w.target k).stripe (w.link (w.target k) k v)) := by
  let s : Upsert.Stage κ ν β := ⟨m, [], []⟩
  have outcome : Upsert.outcome k add update s = .ok (v, report) w :=
    (Upsert.outcome_of_none missing).trans made
  refine (Upsert.resume_of_none missing outcome bound).trans ?_
  rw [run_insertIfNew_of_full absent full]

theorem Inserts.run_eq {α : Type} {a : Action (Map κ ν) α} (inserts : Inserts k m a v w)
    (missing : m.find? k = none) (absent : w.find? k = none)
    (full : w.table.count (w.target k).stripe = Word.top) :
    a.run m = .error (.stripeOverflow (w.target k).stripe)
      (guarded (w.target k).stripe (w.link (w.target k) k v)) := by
  cases inserts with
  | insertIfNew => exact run_insertIfNew_of_full absent full v
  | insertNew => exact Action.run_bind_error (run_insertIfNew_of_full absent full v) _
  | insert => exact Action.run_bind_error (run_insertOr_of_full absent full v true) _
  | getOrInsert =>
    rw [Map.getOrInsert, Action.run_get_bind, missing]
    exact Action.run_bind_error (run_insertOr_of_full absent full v false) _
  | getOrInsertWith made | getOrInsertWithArg made =>
    refine (run_getOrInsertWith_of_ok missing made).trans ?_
    exact Action.run_bind_error (run_insertOr_of_full absent full v false) _
  | upsert _ f =>
    exact Action.run_bind_error (run_upsertWith_of_full missing rfl absent full 0) _
  | upsertWith made bound => exact run_upsertWith_of_full missing made absent full bound

/-- An operation that would insert a key whose stripe is full fails, and the key is there
afterwards, in an entry that is not counted. -/
theorem Inserts.exists_uncounted {α : Type} {a : Action (Map κ ν) α} (inserts : Inserts k m a v w)
    (h : w.Sound) (missing : m.find? k = none) (absent : w.find? k = none)
    (full : w.table.count (w.target k).stripe = Word.top) :
    ∃ m', a.run m = .error (.stripeOverflow (w.target k).stripe) m' ∧ Uncounted k v w m' ∧
      m'.Sound :=
  ⟨_, inserts.run_eq missing absent full, h.uncounted absent v, ((h.link absent v).emit _).emit _⟩

end

/-- A factory makes a value for a missing key of a full stripe. -/
theorem exists_uncounted_made : ∃ m m' : Map Nat Nat,
    m.table.counts = #[Word.top] ∧ m.pairs = [(1, 5)] ∧
      (getOrInsertWith 2 (pure (7, ()))).run m = .error (.stripeOverflow 0) m' ∧
      m'.get? 2 = some 7 := by
  let m₀ : Map Nat Nat := Part.after (.insert 1 5 false)
    (ofConfig ⟨1, 1, true, .default, false⟩ ⟨"identity", fun _ k => UInt64.ofNat k⟩ fun _ => 0)
  let m : Map Nat Nat := { m₀ with table := m₀.table.setCount 0 Word.top }
  have h : m.Sound := ((sound_ofConfig rfl).change (Part.change _ _)).setCount 0 Word.top
  have inserts : Inserts 2 m (getOrInsertWith 2 (pure (7, ()))) 7 (m.emit .called) :=
    .getOrInsertWith (EStateM.run_pure _ _)
  have stripe : ((m.emit .called).target 2).stripe = 0 := by decide +kernel
  obtain ⟨m', run, uncounted, -⟩ :=
    inserts.exists_uncounted (h.emit _) (by decide +kernel) (by decide +kernel) (by decide +kernel)
  rw [stripe] at run
  refine ⟨m, m', by decide +kernel, by decide +kernel, run, ?_⟩
  exact congrArg (Option.map _) uncounted.find?_eq

/-! ## Filling a stripe -/

omit [DecidableEq κ] in
theorem Table.stripeOf_eq_zero (t : Table κ ν) (one : t.locks.size = 1) (bucket : Nat) :
    t.stripeOf bucket = 0 := by
  rw [Table.stripeOf, one, Nat.mod_one]

section

variable {m : Map κ ν} {d : Dict κ ν}

omit [DecidableEq κ] in
theorem Sound.exists_run_grow (h : m.Sound) (few : m.entries.length ≤ Word.top) (r : Request) :
    ∃ m', (grow r).run m = .ok () m' := by
  obtain ⟨trace, run⟩ := Map.exists_run_grow r m
  cases judged : m.judge r with
  | late | sparse =>
    rw [judged] at run
    exact ⟨_, run⟩
  | grow regenerate =>
    rw [judged] at run
    have spec := h.grown_spec regenerate
    cases grown : m.grown regenerate with
    | ok m' =>
      simp only [grown] at run
      exact ⟨_, run⟩
    | error f =>
      rw [grown] at spec
      obtain ⟨s, rfl, excess⟩ := spec
      have all : m.grownLoad regenerate s ≤ m.entries.length := List.countP_le_length
      omega

/-- As long as a word can count all entries, an insert does not fail. -/
theorem Sound.exists_run_insertOr (h : m.Sound) {k : κ} (absent : m.find? k = none)
    (room : m.table.count (m.target k).stripe < Word.top) (few : m.entries.length < Word.top)
    (v : ν) : ∃ m', (insertOr k v false).run m = .ok ⟨true, v⟩ m' := by
  rw [insertOr, Action.run_bind_ok (run_insertLocked_of_none absent room v false)]
  cases m.requestAfter k with
  | none => exact ⟨_, rfl⟩
  | some r =>
    have length : (m.added k v).entries.length = m.entries.length + 1 :=
      (h.entries_link k v).length_eq
    have sound : (guarded (m.target k).stripe (m.added k v)).Sound :=
      ((h.added absent v).emit _).emit _
    obtain ⟨m', run⟩ := sound.exists_run_grow (length.trans_le few) r
    exact ⟨m', Action.run_bind_ok run _⟩

omit [DecidableEq κ] in
/-- The only stripe of a map counts all entries. -/
theorem Counted.count_zero (h : m.Counted) (one : m.lockCount = 1) :
    m.table.count 0 = m.entries.length := by
  rw [h]
  exact List.countP_eq_length.mpr fun e _ => decide_eq_true (m.table.stripeOf_eq_zero one _)

namespace Models

theorem exists_run_insertIfNew (h : Models m d) {k : κ} (missing : k ∉ d)
    (few : m.entries.length < Word.top) (v : ν) :
    ∃ m', (Map.insertIfNew k v).run m = .ok true m' ∧ Models m' (d.insert k v) := by
  have room := hasRoom_of_length_lt few (m.target k).stripe
  rw [← h.counted] at room
  obtain ⟨m', run⟩ := h.sound.exists_run_insertOr (h.find?_eq_none.mpr missing) room few v
  have ends := h.insertOr k v false
  rw [run] at ends
  obtain ⟨-, models⟩ := ends
  refine ⟨m', Action.run_bind_ok run _, ?_⟩
  rwa [if_neg Bool.false_ne_true, Dict.addNew, if_neg missing] at models

/-- New keys are added one by one as long as a word can count all entries. -/
theorem exists_run_insertNewAll (h : Models m d) {es : List (κ × ν)}
    (nodup : (es.map Prod.fst).Nodup) (new : ∀ e ∈ es, e.1 ∉ d)
    (few : m.entries.length + es.length ≤ Word.top) :
    ∃ m' d', (Action.countPassing (fun e => Map.insertIfNew e.1 e.2) es).run m = .ok es.length m' ∧
      Models m' d' ∧ m'.entries.length = m.entries.length + es.length ∧
      ∀ k, k ∈ d' ↔ k ∈ d ∨ k ∈ es.map Prod.fst := by
  induction es generalizing m d with
  | nil => exact ⟨m, d, rfl, h, rfl, by simp⟩
  | cons e es ih =>
    rw [List.map_cons, List.nodup_cons] at nodup
    rw [List.length_cons] at few
    have missing := new e List.mem_cons_self
    obtain ⟨m₁, run₁, h₁⟩ := h.exists_run_insertIfNew missing (by omega) e.2
    have length₁ : m₁.entries.length = m.entries.length + 1 := by
      have keys : (d.insert e.1 e.2).keys = Insert.insert e.1 d.keys := by
        ext k
        simp [Finmap.mem_keys]
      rw [← h₁.card_keys, ← h.card_keys, keys,
        Finset.card_insert_of_notMem (Finmap.mem_keys.not.mpr missing)]
    have new₁ : ∀ e' ∈ es, e'.1 ∉ d.insert e.1 e.2 := by
      intro e' he'
      rw [Finmap.mem_insert, not_or]
      refine ⟨fun same => nodup.1 ?_, new e' (List.mem_cons_of_mem _ he')⟩
      exact same ▸ List.mem_map_of_mem he'
    obtain ⟨m', d', run, h', length, mem⟩ := ih h₁ nodup.2 new₁ (by omega)
    refine ⟨m', d', ?_, h', ?_, fun k => ?_⟩
    · rw [Action.countPassing, Action.run_bind_ok run₁, Action.run_bind_ok run, Action.run_pure,
        if_pos rfl, List.length_cons, Nat.add_comm]
    · rw [length, length₁, List.length_cons]
      omega
    · rw [mem, Finmap.mem_insert, List.map_cons, List.mem_cons, or_assoc, or_left_comm]

end Models

end

/-- An insert that fails does change the map. As many integers as a word can count are added to a
map with one stripe; then a text cannot be counted, and is found all the same. -/
theorem exists_overflow_linked :
    let c : Config := ⟨1, 1, false,
      { Policy.default with maxBuckets := 1, collisionLimit := Word.top }, false⟩
    let es : List (Key × Payload) := (List.range Word.top).map fun n : Nat =>
      (.int (n - 2 ^ 63), .int (n - 2 ^ 63))
    ∃ m m' : Map Key Payload,
      (Plain.insertNewAll es).run.run (ofConfig c .constant fun _ => 0) =
        .ok (.count Word.top) m ∧
      m.table.count (m.target (.text "b")).stripe = Word.top ∧ m.contains (.text "b") = false ∧
      (insertIfNew (.text "b") (.int 0)).run m = .error (.stripeOverflow 0) m' ∧
      m'.contains (.text "b") = true := by
  intro c es
  have length : es.length = Word.top := by rw [List.length_map, List.length_range]
  have nodup : (es.map Prod.fst).Nodup := by
    rw [List.map_map]
    refine List.Nodup.map (fun i j same => ?_) List.nodup_range
    have same := Key.int.inj same
    omega
  have models : Models (ofConfig c .constant fun _ => 0 : Map Key Payload) ∅ := .ofConfig rfl _ _
  obtain ⟨m, d, run, h, all, mem⟩ := models.exists_run_insertNewAll nodup
    (fun _ _ => Finmap.notMem_empty) (by rw [entries_ofConfig, length]; exact (Nat.zero_add _).le)
  have added : (Plain.insertNewAll es).run.run (ofConfig c .constant fun _ => 0) =
      .ok (.count Word.top) m := by
    rw [← length]
    exact Action.run_bind_ok run _
  have locks : m.lockCount = 1 := by
    obtain ⟨y, leads, here⟩ :=
      Life.exists_leads_of_use (.plain (.insertNewAll es))
        (.start (ofConfig c .constant fun _ => 0))
    have within := leads.within (Life.orderly_ofConfig rfl _ _) (within_ofConfig c _ _)
    rw [here.trans (Action.after_of_ok added)] at within
    exact within.locks_eq rfl
  have stripe : (m.target (.text "b")).stripe = 0 := m.table.stripeOf_eq_zero locks _
  have absent : m.find? (.text "b") = none := by
    refine h.find?_eq_none.mpr fun present => ?_
    rcases (mem _).mp present with none | listed
    · exact Finmap.notMem_empty none
    · simp [es] at listed
  have full : m.table.count (m.target (.text "b")).stripe = Word.top := by
    rw [stripe, h.counted.count_zero locks, all, entries_ofConfig, length]
    exact Nat.zero_add _
  have failed := run_insertIfNew_of_full absent full (.int 0)
  rw [stripe] at failed
  refine ⟨m, _, added, full, by rw [contains, absent]; rfl, failed, ?_⟩
  rw [contains]
  exact congrArg Option.isSome (h.sound.find?_link absent (.int 0))

end Map

end SharedCollections

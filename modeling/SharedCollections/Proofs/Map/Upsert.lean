import SharedCollections.Proofs.Map.Lookup
/-!
# Upserts

An upsert runs in passes. A pass looks its key up and calls a factory, which may work on the map
itself; only then it writes, and only if the entry that it found is still there, or the key is still
missing. Otherwise the pass is lost (`Lost`): it writes nothing, and another one follows. So the
value that an update was made from is the value of the key at the moment of the write, whatever the
factories did (`Written`), and a factory that fails leaves the map as it made it.
-/

namespace SharedCollections

namespace Map

variable {κ ν β : Type} [DecidableEq κ]

/-! ## Writing -/

section

variable {m m' : Map κ ν} {k : κ} {e : Entry κ ν}

omit [DecidableEq κ] in
theorem Sound.emit (h : m.Sound) (e : Event) : (m.emit e).Sound := (sound_retrace _ _).mpr h

theorem run_insertIfNew_of_some (found : m.find? k = some e) (v : ν) :
    (insertIfNew k v).run m = .ok false (guarded (m.target k).stripe m) := by
  have run : (insertOr k v false).run m = .ok ⟨false, e.value⟩ (guarded (m.target k).stripe m) :=
    Action.run_bind_ok (run_insertLocked_of_some found v false) _
  exact Action.run_bind_ok run _

/-- An insert of a missing key gives the key its value and leaves all others theirs. -/
theorem Sound.insertIfNew_spec (h : m.Sound) (absent : m.find? k = none) (v : ν) :
    match (insertIfNew k v).run m with
    | .ok added m' => added = true ∧ ∀ j, m'.get? j = if j = k then some v else m.get? j
    | .error f _ => ∃ s, f = .stripeOverflow s := by
  rw [insertIfNew, insertOr]
  by_cases room : m.table.count (m.target k).stripe < Word.top
  · have value := h.get?_added absent v
    have sound : (guarded (m.target k).stripe (m.added k v)).Sound :=
      ((h.added absent v).emit _).emit _
    rw [Action.run_bind, Action.run_bind_ok (run_insertLocked_of_none absent room v false)]
    cases m.requestAfter k with
    | none => exact ⟨rfl, value⟩
    | some r =>
      have growth := sound.grow_spec r
      dsimp only
      rw [Action.run_bind]
      cases run : (grow r).run (guarded (m.target k).stripe (m.added k v)) with
      | ok u m' =>
        rw [run] at growth
        exact ⟨rfl, fun j => (growth j).trans (value j)⟩
      | error f m' =>
        rw [run] at growth
        exact growth
  · rw [Action.run_bind, Action.run_bind_error (run_insertLocked_of_full absent room v false)]
    exact ⟨_, rfl⟩

end

/-! ## Passes -/

namespace Upsert

/-- Where an upsert stands between two passes: the map, and what the calls of its factories have
reported. -/
structure Stage (κ ν β : Type) where
  map : Map κ ν
  adds : List β
  updates : List β

variable (k : κ) (add : Nat → Action (Map κ ν) (ν × β))
  (update : Nat → ν → Action (Map κ ν) (ν × β))

/-- What the factory comes to that the next pass calls. -/
def outcome (s : Stage κ ν β) : Ending (Map κ ν) (ν × β) :=
  (call (match s.map.find? k with
    | some e => update s.updates.length e.value
    | none => add s.adds.length)).run s.map

/-- The stage after a pass whose factory made the report `report`. -/
def Stage.reported (s : Stage κ ν β) (report : β) (m : Map κ ν) : Stage κ ν β :=
  match s.map.find? k with
  | some _ => ⟨m, s.adds, s.updates ++ [report]⟩
  | none => ⟨m, s.adds ++ [report], s.updates⟩

/-- A pass that is lost. Its factory leaves a map `m` in which the key has another entry than
before, because a part of what the factory did linked, replaced or unlinked the entry of the key or
installed another table. The pass writes nothing and reports one retry. -/
inductive Lost (s : Stage κ ν β) : Stage κ ν β → Prop where
  | pass {v : ν} {report : β} {m : Map κ ν} (made : outcome k add update s = .ok (v, report) m)
      (moved : m.find? k ≠ s.map.find? k)
      {before behind : List (Part κ ν)} {p : Part κ ν}
      (parts : m = Part.afterAll (before ++ p :: behind) (s.map.emit .called))
      (disturbs : Disturbs k (Part.afterAll before (s.map.emit .called))
        (p.after (Part.afterAll before (s.map.emit .called)))) :
      Lost s (s.reported k report ((guarded (m.target k).stripe m).emit (.retried .mapUpdate)))

/-- Passes that are lost one after the other, with their number. -/
inductive Losses : Nat → Stage κ ν β → Stage κ ν β → Prop where
  | none (s : Stage κ ν β) : Losses 0 s s
  | lost {n : Nat} {s s' s'' : Stage κ ν β} (first : Lost k add update s s')
      (rest : Losses n s' s'') : Losses (n + 1) s s''

/-- A pass that writes. Its factory leaves the map `m`, and the write makes `m'` of it: a missing
key is still missing and is added, or the entry that was found is still there and is replaced. -/
inductive Written (s : Stage κ ν β) : Map κ ν → Upserted ν β → Map κ ν → Prop where
  | added {v : ν} {report : β} {m m' : Map κ ν} (missing : s.map.find? k = none)
      (made : (call (add s.adds.length)).run s.map = .ok (v, report) m)
      (absent : m.find? k = none) (write : (insertIfNew k v).run m = .ok true m') :
      Written s m ⟨v, s.adds ++ [report], s.updates⟩ m'
  | replaced {e : Entry κ ν} {v : ν} {report : β} {m m' : Map κ ν}
      (found : s.map.find? k = some e)
      (made : (call (update s.updates.length e.value)).run s.map = .ok (v, report) m)
      (present : m.find? k = some e)
      (write : (replaceIf k v (·.id == e.id)).run m = .ok true m') :
      Written s m ⟨v, s.adds, s.updates ++ [report]⟩ m'

/-- How a pass can end an upsert. -/
inductive Closes (s : Stage κ ν β) : Ending (Map κ ν) (Upserted ν β) → Prop where
  | written {m m' : Map κ ν} {u : Upserted ν β} (h : Written k add update s m u m') :
      Closes s (.ok u m')
  /-- The factory fails. -/
  | failed {f : Fault} {m : Map κ ν} (h : outcome k add update s = .error f m) :
      Closes s (.error f m)
  /-- A stripe cannot count the new entry, or those of the table that is to grow for it. -/
  | overflowed {v : ν} {report : β} {stripe : Nat} {m m' : Map κ ν}
      (made : outcome k add update s = .ok (v, report) m)
      (write : (insertIfNew k v).run m = .error (.stripeOverflow stripe) m') :
      Closes s (.error (.stripeOverflow stripe) m')

/-- What is left of an upsert, for at most `bound` passes. -/
def resume (bound : Nat) (s : Stage κ ν β) : Ending (Map κ ν) (Upserted ν β) :=
  (upsertFrom k add update bound s.adds s.updates).run s.map

variable {k : κ} {add : Nat → Action (Map κ ν) (ν × β)}
  {update : Nat → ν → Action (Map κ ν) (ν × β)} {s s' : Stage κ ν β}

/-! ## One pass -/

section

variable {e : Entry κ ν} {v : ν} {report : β} {f : Fault} {m : Map κ ν}

theorem outcome_of_some (found : s.map.find? k = some e) : outcome k add update s =
    (call (update s.updates.length e.value)).run s.map := by
  rw [outcome, found]

theorem outcome_of_none (missing : s.map.find? k = none) : outcome k add update s =
    (call (add s.adds.length)).run s.map := by
  rw [outcome, missing]

theorem reported_of_some (found : s.map.find? k = some e) :
    s.reported k report m = ⟨m, s.adds, s.updates ++ [report]⟩ := by
  simp only [Stage.reported, found]

theorem reported_of_none (missing : s.map.find? k = none) :
    s.reported k report m = ⟨m, s.adds ++ [report], s.updates⟩ := by
  simp only [Stage.reported, missing]

@[simp] theorem map_reported : (s.reported k report m).map = m := by
  rw [Stage.reported]
  split <;> rfl

theorem length_reported : (s.reported k report m).adds.length +
    (s.reported k report m).updates.length = s.adds.length + s.updates.length + 1 := by
  rw [Stage.reported]
  split <;> simp <;> omega

/-- A pass with a factory that fails. -/
theorem resume_of_error (failed : outcome k add update s = .error f m) (bound : Nat) :
    resume k add update (bound + 1) s = .error f m := by
  rw [resume, upsertFrom, Action.run_get_bind]
  cases found : s.map.find? k with
  | some e =>
    rw [outcome_of_some found] at failed
    exact Action.run_bind_error failed _
  | none =>
    rw [outcome_of_none found] at failed
    exact Action.run_bind_error failed _

/-- A pass that found an entry. -/
theorem resume_of_some (found : s.map.find? k = some e)
    (made : outcome k add update s = .ok (v, report) m) (bound : Nat) :
    resume k add update (bound + 1) s = match (replaceIf k v (·.id == e.id)).run m with
      | .ok true m' => .ok ⟨v, s.adds, s.updates ++ [report]⟩ m'
      | .ok false m' => resume k add update bound
          (s.reported k report (m'.emit (.retried .mapUpdate)))
      | .error f m' => .error f m' := by
  rw [outcome_of_some found] at made
  rw [resume, upsertFrom, Action.run_get_bind, found]
  dsimp only
  rw [Action.run_bind_ok made]
  dsimp only
  rw [Action.run_bind]
  cases (replaceIf k v (·.id == e.id)).run m with
  | error f m' => rfl
  | ok done m' =>
    cases done with
    | true => rfl
    | false =>
      dsimp only
      rw [reported_of_some found]
      rfl

/-- A pass that found no entry. -/
theorem resume_of_none (missing : s.map.find? k = none)
    (made : outcome k add update s = .ok (v, report) m) (bound : Nat) :
    resume k add update (bound + 1) s = match (insertIfNew k v).run m with
      | .ok true m' => .ok ⟨v, s.adds ++ [report], s.updates⟩ m'
      | .ok false m' => resume k add update bound
          (s.reported k report (m'.emit (.retried .mapUpdate)))
      | .error f m' => .error f m' := by
  rw [outcome_of_none missing] at made
  rw [resume, upsertFrom, Action.run_get_bind, missing]
  dsimp only
  rw [Action.run_bind_ok made]
  dsimp only
  rw [Action.run_bind]
  cases (insertIfNew k v).run m with
  | error f m' => rfl
  | ok done m' =>
    cases done with
    | true => rfl
    | false =>
      dsimp only
      rw [reported_of_none missing]
      rfl

/-- A factory leads to parts of operations. -/
theorem exists_parts (adds : ∀ n, Use (add n)) (updates : ∀ n v, Use (update n v))
    (made : outcome k add update s = .ok (v, report) m) :
    ∃ parts, m = Part.afterAll parts (s.map.emit .called) := by
  cases found : s.map.find? k with
  | some e =>
    obtain ⟨parts, eq⟩ := (updates s.updates.length e.value).inParts (s.map.emit .called)
    rw [outcome_of_some found] at made
    exact ⟨parts, (Action.after_of_ok made).symm.trans eq⟩
  | none =>
    obtain ⟨parts, eq⟩ := (adds s.adds.length).inParts (s.map.emit .called)
    rw [outcome_of_none found] at made
    exact ⟨parts, (Action.after_of_ok made).symm.trans eq⟩

theorem sound_of_outcome (h : s.map.Sound) (adds : ∀ n, Use (add n))
    (updates : ∀ n v, Use (update n v)) (made : outcome k add update s = .ok (v, report) m) :
    m.Sound := by
  obtain ⟨parts, rfl⟩ := exists_parts adds updates made
  exact Part.sound_afterAll (h.emit _) parts

end

namespace Lost

theorem sound (lost : Lost k add update s s') (h : s.map.Sound) : s'.map.Sound := by
  cases lost with
  | @pass v report m made moved before behind p parts =>
    have sound : m.Sound := parts ▸ Part.sound_afterAll (h.emit _) _
    rw [map_reported]
    exact ((sound.emit _).emit _).emit _

theorem length_reports (lost : Lost k add update s s') :
    s'.adds.length + s'.updates.length = s.adds.length + s.updates.length + 1 := by
  cases lost
  exact length_reported

/-- An upsert goes on after a lost pass. -/
theorem resume_eq (lost : Lost k add update s s') (h : s.map.Sound) (bound : Nat) :
    resume k add update (bound + 1) s = resume k add update bound s' := by
  cases lost with
  | @pass v report m made moved before behind p parts =>
    cases found : s.map.find? k with
    | none =>
      obtain ⟨e, now⟩ := Option.ne_none_iff_exists'.mp (found ▸ moved)
      rw [resume_of_none found made, run_insertIfNew_of_some now]
    | some e =>
      rw [resume_of_some found made]
      cases now : m.find? k with
      | none => rw [run_replaceIf_of_none now]
      | some e' =>
        -- another entry with the number of `e` would be `e`
        have other : (e'.id == e.id) = false := by
          refine beq_eq_false_iff_ne.mpr fun same => moved ?_
          have before := (mem_of_find?_eq_some found).1
          have here := (mem_of_find?_eq_some now).1
          rw [parts] at here
          rw [now, found, Part.eq_of_id_eq (h.emit .called) here before same]
        rw [run_replaceIf_of_some now, other]
        rfl

end Lost

/-- A pass is lost, or it ends the upsert. -/
theorem exists_lost_or_closes (h : s.map.Sound) (adds : ∀ n, Use (add n))
    (updates : ∀ n v, Use (update n v)) :
    (∃ s', Lost k add update s s') ∨
      ∀ bound, Closes k add update s (resume k add update (bound + 1) s) := by
  cases made : outcome k add update s with
  | error f m =>
    refine .inr fun bound => ?_
    rw [resume_of_error made]
    exact .failed made
  | ok r m =>
    obtain ⟨v, report⟩ := r
    have sound := sound_of_outcome h adds updates made
    by_cases same : m.find? k = s.map.find? k
    · refine .inr fun bound => ?_
      cases found : s.map.find? k with
      | some e =>
        rw [found] at same
        have write := run_replaceIf_of_some same v (·.id == e.id)
        rw [beq_self_eq_true] at write
        rw [resume_of_some found made, write]
        rw [outcome_of_some found] at made
        exact .written (.replaced found made same write)
      | none =>
        rw [found] at same
        have spec := sound.insertIfNew_spec same v
        rw [resume_of_none found made]
        cases write : (insertIfNew k v).run m with
        | ok added m' =>
          rw [write] at spec
          obtain ⟨rfl, -⟩ := spec
          rw [outcome_of_none found] at made
          exact .written (.added found made same write)
        | error f m' =>
          rw [write] at spec
          obtain ⟨i, rfl⟩ := spec
          exact .overflowed made write
    · obtain ⟨parts, eq⟩ := exists_parts adds updates made
      rw [eq] at same
      obtain ⟨before, p, behind, rfl, disturbs⟩ := Part.exists_disturbs (h.emit .called) same
      exact .inl ⟨_, .pass made (eq ▸ same) eq disturbs⟩

/-! ## All passes -/

namespace Losses

variable {n : Nat}

theorem sound (losses : Losses k add update n s s') (h : s.map.Sound) : s'.map.Sound := by
  induction losses with
  | none => exact h
  | lost first _ ih => exact ih (first.sound h)

theorem length_reports (losses : Losses k add update n s s') :
    s'.adds.length + s'.updates.length = s.adds.length + s.updates.length + n := by
  induction losses with
  | none => rfl
  | lost first _ ih =>
    rw [ih, first.length_reports]
    omega

theorem resume_eq (losses : Losses k add update n s s') (h : s.map.Sound) (bound : Nat) :
    resume k add update (n + bound) s = resume k add update bound s' := by
  induction losses with
  | none => rw [Nat.zero_add]
  | @lost n s s' s'' first _ ih =>
    rw [Nat.succ_add, first.resume_eq h, ih (first.sound h)]

end Losses

/-- An upsert loses passes until one ends it, or until its bound is used up. -/
theorem exists_losses (h : s.map.Sound) (adds : ∀ n, Use (add n))
    (updates : ∀ n v, Use (update n v)) (bound : Nat) :
    ∃ n s', Losses k add update n s s' ∧
      (n < bound ∧ Closes k add update s' (resume k add update bound s) ∨
        n = bound ∧ resume k add update bound s = .error .stalled s'.map) := by
  induction bound generalizing s with
  | zero => exact ⟨0, s, .none s, .inr ⟨rfl, rfl⟩⟩
  | succ bound ih =>
    rcases exists_lost_or_closes h adds updates with ⟨s', lost⟩ | closes
    · obtain ⟨n, s'', losses, ends⟩ := ih (lost.sound h)
      rw [lost.resume_eq h]
      refine ⟨n + 1, s'', .lost lost losses, ends.imp ?_ ?_⟩
      · exact And.imp_left Nat.succ_lt_succ
      · exact And.imp_left (congrArg (· + 1))
    · exact ⟨0, s, .none s, .inl ⟨Nat.succ_pos _, closes bound⟩⟩

namespace Written

variable {m m' : Map κ ν} {u : Upserted ν β}

theorem length_reports (written : Written k add update s m u m') :
    u.adds.length + u.updates.length = s.adds.length + s.updates.length + 1 := by
  cases written <;> simp <;> omega

theorem exists_outcome_eq (written : Written k add update s m u m') :
    ∃ v report, outcome k add update s = .ok (v, report) m := by
  cases written with
  | added missing made => exact ⟨_, _, (outcome_of_none missing).trans made⟩
  | replaced found made => exact ⟨_, _, (outcome_of_some found).trans made⟩

/-- The write gives the key its value and leaves all others theirs. -/
theorem get?_eq (written : Written k add update s m u m') (h : m.Sound) (j : κ) :
    m'.get? j = if j = k then some u.value else m.get? j := by
  cases written with
  | @added v report m m' missing made absent write =>
    have spec := h.insertIfNew_spec absent v
    rw [write] at spec
    exact spec.2 j
  | @replaced e v report m m' found made present write =>
    obtain ⟨he, rfl⟩ := mem_of_find?_eq_some present
    have run := run_replaceIf_of_some present v (·.id == e.id)
    rw [beq_self_eq_true, write] at run
    obtain ⟨-, rfl⟩ := EStateM.Result.ok.inj run
    exact h.get?_substitute he v j

end Written

/-- However an upsert of a reached map ends, some passes were lost before. If it returns, the last
pass made the one write of it, after all that its factories did: it gave the key the value that is
returned, and left all other keys alone; and the factories were called once more than passes were
lost. If it fails, then because a factory failed, which leaves the map as the factory made it, or
because a stripe cannot count the new entry, or because the bound is used up. And whenever a factory
fails, the upsert does. -/
theorem writes_once {allowed : Map κ ν → Prop} {m : Map κ ν} (h : Reached allowed m)
    (adds : ∀ n, Use (add n)) (updates : ∀ n v, Use (update n v)) (bound : Nat) :
    (match (upsertWith k add update bound).run m with
      | .ok u m' => ∃ n s w, Losses k add update n ⟨m, [], []⟩ s ∧ Written k add update s w u m' ∧
          (∀ j, m'.get? j = if j = k then some u.value else w.get? j) ∧
          u.adds.length + u.updates.length = n + 1
      | .error f m' => ∃ n s, Losses k add update n ⟨m, [], []⟩ s ∧
          (outcome k add update s = .error f m' ∨
            (∃ v report w i, outcome k add update s = .ok (v, report) w ∧ f = .stripeOverflow i ∧
              (insertIfNew k v).run w = .error f m') ∨
            n = bound ∧ f = .stalled ∧ m' = s.map)) ∧
    ∀ n s f m', Losses k add update n ⟨m, [], []⟩ s → n < bound →
      outcome k add update s = .error f m' →
      (upsertWith k add update bound).run m = .error f m' := by
  have sound := h.sound
  have run : (upsertWith k add update bound).run m = resume k add update bound ⟨m, [], []⟩ := rfl
  rw [run]
  constructor
  · obtain ⟨n, s, losses, ends⟩ :=
      exists_losses (k := k) (s := ⟨m, [], []⟩) sound adds updates bound
    have count := losses.length_reports
    rcases ends with ⟨-, closes⟩ | ⟨used, stalled⟩
    · generalize resume k add update bound ⟨m, [], []⟩ = ending at closes ⊢
      cases closes with
      | @written w m' u written =>
        obtain ⟨v, report, made⟩ := written.exists_outcome_eq
        have left := sound_of_outcome (losses.sound sound) adds updates made
        refine ⟨n, s, w, losses, written, written.get?_eq left, ?_⟩
        rw [written.length_reports, count]
        simp
      | failed failed => exact ⟨n, s, losses, .inl failed⟩
      | overflowed made write => exact ⟨n, s, losses, .inr (.inl ⟨_, _, _, _, made, rfl, write⟩)⟩
    · rw [stalled]
      exact ⟨n, s, losses, .inr (.inr ⟨used, rfl, rfl⟩)⟩
  · -- the pass after `n` lost ones is the last one if its factory fails
    intro n s f m' losses early failed
    obtain ⟨rest, rfl⟩ := Nat.exists_eq_add_of_lt early
    rw [Nat.add_assoc, losses.resume_eq sound, resume_of_error failed]

/-- The first call of the factory removes the entry that was found and adds one of the same value,
which is not enough: the pass is lost, and the second one writes. -/
theorem writes_once_readded :
    let add : Nat → Action (Map Nat Nat) (Nat × Nat) := fun n => pure (0, n)
    let update : Nat → Nat → Action (Map Nat Nat) (Nat × Nat) := fun n v =>
      if n = 0 then do
        let _ ← erase? 1
        insert 1 v
        return (v + 1, n)
      else pure (v + 1, n)
    ∃ m m' : Map Nat Nat, m.pairs = [(1, 5)] ∧
      (upsertWith 1 add update 2).run m = .ok ⟨6, [], [0, 1]⟩ m' ∧ m'.get? 1 = some 6 ∧
      ∃ s w, Losses 1 add update 1 ⟨m, [], []⟩ s ∧ Written 1 add update s w ⟨6, [], [0, 1]⟩ m' := by
  intro add update
  let m₀ : Map Nat Nat := ofConfig ⟨1, 1, true, .default, false⟩ ⟨"constant", fun _ _ => 0⟩
    fun _ => 0
  let m := Part.after (.insert 1 5 false) m₀
  have h : Reached (fun _ => True) m := .part (.new rfl _ _) trivial _
  have updates : ∀ n v, Use (update n v) := by
    intro n v
    by_cases first : n = 0
    · simp only [update, if_pos first]
      exact .bind (.erase? 1) fun _ => .bind (.insert 1 v) fun _ => .pure _
    · simp only [update, if_neg first]
      exact .pure _
  have adds : ∀ n, Use (add n) := fun n => .pure (0, n)
  have once := (writes_once (k := 1) h adds updates 2).1
  obtain ⟨m', run⟩ : ∃ m', (upsertWith 1 add update 2).run m = .ok ⟨6, [], [0, 1]⟩ m' :=
    Action.exists_run_of_run' (by decide +kernel)
  rw [run] at once
  obtain ⟨n, s, w, losses, written, value, count⟩ := once
  obtain rfl : n = 1 := Nat.succ.inj count.symm
  exact ⟨m, m', by decide +kernel, run, (value 1).trans (if_pos rfl), s, w, losses, written⟩

end Upsert

end Map

end SharedCollections

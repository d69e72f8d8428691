import SharedCollections.Proofs.Map.Termination
import SharedCollections.Proofs.Queue.Straight
import SharedCollections.Proofs.Stack.Straight
/-!
# One thread alone

Whatever a thread does to collections that it alone uses, it never waits and never tries again, save
for an upsert whose own factory changed the map under it. Cursors may be open and entries may be
kept, and operations on a map may be nested in the factories of others: a factory runs between two
parts of the operation that calls it, and whatever parts came before, the next one finds the map as
it needs it.
-/

namespace SharedCollections

namespace Map

variable {κ ν : Type} [DecidableEq κ]

/-! ## Maps -/

/-- An operation that starts on the map gets what it waits for at once. It locks the stripe of its
key in the first attempt, and a take removes the first entry that it sees. An upsert whose factories
come to an end goes on only as long as every pass is lost to them, and it ends once they leave the
map alone. -/
structure Unhindered (m : Map κ ν) : Prop where
  lock : ∀ k, Straight (Locking.step k) Locking.back .aiming m
  take : ∃ x m', ∀ bound, (takeFirst (bound + 1)).run m = .ok x m'
  upsert : ∀ {β : Type} (k : κ) (add : Nat → Action (Map κ ν) (ν × β))
    (update : Nat → ν → Action (Map κ ν) (ν × β)),
    (∀ n, Finishes (add n)) → (∀ n v, Finishes (update n v)) → ∀ bound t,
      (upsertWith k add update bound).run m = .error .stalled t →
        (∃ s, Upsert.Losses k add update bound ⟨m, [], []⟩ s) ∧
        ∀ lastAdd lastUpdate, Upsert.Settles add update lastAdd lastUpdate →
          bound ≤ lastAdd + lastUpdate

theorem Sound.unhindered {m : Map κ ν} (h : m.Sound) : m.Unhindered where
  lock k := straight_lockKey k m
  take := h.exists_run_takeFirst
  upsert k add update adds updates bound t stalled := by
    refine ⟨Finishes.exists_losses_of_stalled adds updates h stalled, fun a u settles => ?_⟩
    refine Nat.not_lt.mp fun enough => ?_
    exact (Finishes.upsertWith k adds updates settles enough).ends m h t stalled

variable [DecidableEq ν]

namespace Session

variable {s : Session κ ν} {step : Step κ ν} (arranged : Arrangement κ ν) (dump : Bool)

/-- The factories of a step come to an end. -/
def Prompt : Step κ ν → Prop
  | .command c => c.Prompt
  | _ => True

omit [DecidableEq κ] [DecidableEq ν] in
theorem exists_run_walk {α : Type} (name : String) (move : Cursor κ ν → α × Cursor κ ν)
    (missing : α) (s : Session κ ν) :
    ∃ x s', (walk name move missing).run s = .ok x s' ∧ s'.map = s.map ∧
      s'.hasSink = s.hasSink := by
  rw [walk, Action.run_get_bind]
  cases s.cursors.lookup name <;> exact ⟨_, _, rfl, rfl, rfl⟩

/-- A step that runs no command leaves the map alone. -/
theorem exists_run_of_ne (other : ∀ c, step ≠ .command c) (s : Session κ ν) :
    ∃ r s', (run step).run s = .ok r s' ∧ s'.map = s.map ∧ s'.hasSink = s.hasSink := by
  cases step with
  | command c => exact absurd rfl (other c)
  | openCursor | closeCursor | lookAt | moveOut | letGo => exact ⟨_, _, rfl, rfl, rfl⟩
  | next name =>
    obtain ⟨x, s', walked, same⟩ := exists_run_walk name (·.next? s.map) none s
    exact ⟨_, s', Action.run_bind_ok walked _, same⟩
  | rest name =>
    obtain ⟨x, s', walked, same⟩ := exists_run_walk name (·.rest s.map) [] s
    exact ⟨_, s', Action.run_bind_ok walked _, same⟩
  | keep name k =>
    rw [run, Action.run_get_bind]
    cases s.map.find? k <;> exact ⟨_, _, rfl, rfl, rfl⟩

/-- The map of a session is sound, and nothing that it records is left over from earlier steps. -/
structure Rests (s : Session κ ν) : Prop where
  sound : s.map.Sound
  trace : s.map.trace = #[]

theorem answer_of_ne (other : ∀ c, step ≠ .command c) :
    (answer arranged dump step s).2.map = s.map.forgetTrace ∧
      (answer arranged dump step s).1.events = s.map.trace.observed s.hasSink := by
  obtain ⟨r, s', run, map, sink⟩ := exists_run_of_ne other s
  rw [answer, run, ← map, ← sink]
  exact ⟨rfl, rfl⟩

theorem answer_command (c : Command κ ν) :
    (answer arranged dump (.command c) s).2.map = (c.run.after s.map).forgetTrace ∧
      (answer arranged dump (.command c) s).1.events =
        (c.run.after s.map).trace.observed s.hasSink := by
  obtain ⟨m, hasSink, cursors, kept⟩ := s
  simp only [answer, run, act, Action.run_mk, Action.after]
  cases c.run.run m <;> exact ⟨rfl, rfl⟩

omit [DecidableEq κ] [DecidableEq ν] in
theorem Rests.of_forgetTrace {m : Map κ ν} (sound : m.Sound) (map : s.map = m.forgetTrace) :
    s.Rests := by
  refine ⟨?_, congrArg Map.trace map⟩
  rw [map]
  exact (sound_retrace _ _).mpr sound

theorem Rests.answer (h : s.Rests) (step : Step κ ν) :
    (answer arranged dump step s).2.Rests := by
  by_cases command : ∃ c, step = .command c
  · obtain ⟨c, rfl⟩ := command
    exact .of_forgetTrace ((Use.command c).sound h.sound) (answer_command arranged dump c).1
  · exact .of_forgetTrace h.sound (answer_of_ne arranged dump fun c eq => command ⟨c, eq⟩).1

theorem Rests.answers (h : s.Rests) (steps : List (Step κ ν)) :
    (answers arranged dump steps s).2.Rests := by
  induction steps generalizing s with
  | nil => exact h
  | cons step steps ih => exact ih (h.answer arranged dump step)

/-- In a session that a thread has with a map of its own every operation gets its way, at every
moment of a step and of the steps that its factories run. -/
structure Unhindered (s : Session κ ν) : Prop where
  /-- Parts of operations, in whatever order they come, never bring the map to where a thread would
  have to wait. -/
  moment : ∀ parts, (Part.afterAll parts s.map).Unhindered
  /-- No stripe is taken that is held. -/
  locks : ∀ (c : Command κ ν) (parts : List (Part κ ν)), Takes c.run s.map parts →
    hold [] (Part.recordedAll parts s.map) = some []
  /-- A step comes to its end. -/
  ends : ∀ step, Prompt step → ∀ t, (run step).run s ≠ .error .stalled t
  /-- The only retries that are reported are those of upserts, right behind a pass that was lost. -/
  retries : ∀ arranged dump step site, .retried site ∈ (answer arranged dump step s).1.events →
    site = .mapUpdate ∧ ∃ c before behind, step = .command c ∧
      Takes c.run s.map (before ++ .note (.retried site) :: behind) ∧ LostPass s.map before

theorem Rests.unhindered (h : s.Rests) : s.Unhindered where
  moment parts := (Part.sound_afterAll h.sound parts).unhindered
  locks c parts takes := by
    refine Part.hold_recordedAll h.sound fun e he => ?_
    rcases takes.note_eq he with rfl | rfl <;> rfl
  ends step prompt t stalled := by
    by_cases command : ∃ c, step = .command c
    · obtain ⟨c, rfl⟩ := command
      obtain ⟨m, hasSink, cursors, kept⟩ := s
      have own := (Command.Prompt.finishes prompt).ends m h.sound
      simp only [run, act, Action.run_mk] at stalled
      split at stalled
      · cases stalled
      · next f m' failed =>
        cases stalled
        exact own m' failed
    · obtain ⟨r, s', ok, -⟩ := exists_run_of_ne (fun c eq => command ⟨c, eq⟩) s
      cases ok.symm.trans stalled
  retries arranged dump step site reported := by
    by_cases command : ∃ c, step = .command c
    · obtain ⟨c, rfl⟩ := command
      rw [(answer_command arranged dump c).2] at reported
      obtain ⟨parts, takes, accounted, trace, noted⟩ := (Use.command c).exists_accounted h.sound
      have recorded := List.mem_of_mem_filter reported
      rw [trace, h.trace, List.mem_append] at recorded
      have note := noted site (recorded.resolve_left List.not_mem_nil)
      obtain ⟨before, behind, rfl⟩ := List.append_of_mem note
      obtain ⟨site_eq, lost⟩ := accounted before site behind rfl
      exact ⟨site_eq, c, before, behind, rfl, takes, lost⟩
    · rw [(answer_of_ne arranged dump fun c eq => command ⟨c, eq⟩).2, h.trace] at reported
      cases reported

omit [DecidableEq κ] [DecidableEq ν] in
theorem rests_new {c : Config} (ok : c.check = .ok ()) (hasher : Hasher κ) (salts : Nat → UInt64)
    (hasSink : Bool) : Rests (⟨ofConfig c hasher salts, hasSink, [], []⟩ : Session κ ν) :=
  ⟨sound_ofConfig ok, rfl⟩

end Session

end Map

/-! ## All collections -/

/-- A thread that is alone with a slot, a queue, a stack and a map never waits. Whatever it has done
to them, every operation leaves each of its loops in the first pass, so it comes to an end as soon
as the functions that are handed to it do, and no retry is reported but those of an upsert whose own
factory changed the map. The collections do not know of each other, so the thread may go from one to
the other as it likes, and from within a factory, too. -/
theorem never_waits_alone :
    (∀ done s, Slot.Reached done s → Straight Slot.Taking.step Slot.Taking.back .marking s ∧
      (done = true → Straight Slot.awaitStep Slot.awaitBack () s)) ∧
    (∀ (α : Type) (moves : List (Queue.Move α)), ∃ replies s,
      (follow Queue.move moves).run .start = .ok replies s ∧
        Queue.Unhindered s.collection s.cursors) ∧
    (∀ (α : Type) (moves : List (Stack.Move α)), ∃ replies s,
      (follow Stack.move moves).run .start = .ok replies s ∧ Stack.Unhindered s.collection) ∧
    ∀ (κ ν : Type) [DecidableEq κ] [DecidableEq ν] (c : Map.Config) (hasher : Map.Hasher κ)
      (salts : Nat → UInt64) (hasSink : Bool) (arranged : Map.Arrangement κ ν) (dump : Bool)
      (steps : List (Map.Step κ ν)), c.check = .ok () →
      (Map.Session.answers arranged dump steps
        ⟨Map.ofConfig c hasher salts, hasSink, [], []⟩).2.Unhindered := by
  refine ⟨fun done s h => h.straight, fun α => Queue.exists_follow_unhindered,
    fun α => Stack.exists_follow_unhindered, ?_⟩
  intro κ ν _ _ c hasher salts hasSink arranged dump steps ok
  exact ((Map.Session.rests_new ok hasher salts hasSink).answers arranged dump steps).unhindered

/-- The factory of an update removes the entry that was found and adds one of the same value: the
update comes to its end, and it reports one retry, behind a pass that was lost to that. Nor does
anyone wait at a slot that was written and taken. -/
theorem never_waits_alone_readded :
    let s : Map.Session Nat Nat := (Map.Session.answers .asFound false
      [.openCursor "c", .command (.plain (.insert 1 5)), .keep "e" 1, .next "c"]
      ⟨Map.ofConfig ⟨1, 1, true, .default, false⟩ ⟨"constant", fun _ _ => 0⟩ fun _ => 0,
        true, [], []⟩).2
    let step : Map.Step Nat Nat := .command (.upsertWith 1 [] (.const 0)
      [[.plain (.erase? 1), .plain (.insert 1 5)]] (.const 6))
    let taken := Slot.take.after Slot.empty.markWritten
    (Map.Session.answer .asFound false step s).1.events.count (.retried .mapUpdate) = 1 ∧
      (∃ c before behind, step = .command c ∧
        Map.Takes c.run s.map (before ++ .note (.retried .mapUpdate) :: behind) ∧
        Map.LostPass s.map before) ∧
      (∀ t, (Map.Session.run step).run s ≠ .error .stalled t) ∧
      Straight Slot.Taking.step Slot.Taking.back .marking taken ∧
      Straight Slot.awaitStep Slot.awaitBack () taken := by
  intro s step taken
  have once : (Map.Session.answer .asFound false step s).1.events.count (.retried .mapUpdate) = 1 :=
    by decide +kernel
  have reported : Event.retried .mapUpdate ∈ (Map.Session.answer .asFound false step s).1.events :=
    List.count_pos_iff.mp (by rw [once]; exact Nat.one_pos)
  have alone := never_waits_alone.2.2.2 Nat Nat ⟨1, 1, true, .default, false⟩
    ⟨"constant", fun _ _ => 0⟩ (fun _ => 0) true .asFound false
    [.openCursor "c", .command (.plain (.insert 1 5)), .keep "e" 1, .next "c"] rfl
  have prompt : Map.Session.Prompt step := by
    refine .upsertWith 1 (by simp) (Map.Formula.prompt_const 0) ?_ (Map.Formula.prompt_const 6)
    simp [Map.Command.Prompt.plain]
  have slot := never_waits_alone.1 true taken (.take (.write .new))
  exact ⟨once, (alone.retries .asFound false step .mapUpdate reported).2, alone.ends step prompt,
    slot.1, slot.2 rfl⟩

end SharedCollections

import SharedCollections.Proofs.Map.Locks
import SharedCollections.Proofs.Map.Upsert
import SharedCollections.Proofs.Straight
/-!
# Retries

A thread that is alone on a map locks the stripe of a key at once. Among the parts that its
operations take (`Takes`), the only retries are those of upserts, and each of them comes right
behind a pass that was lost (`LostPass`): the upsert called a factory, a part of what the factory
did touched the entry of the key or replaced the table, and the write that followed came to nothing.
-/

namespace SharedCollections

namespace Map

variable {κ ν α β : Type}

/-! ## Locking -/

/-- A thread whose table was replaced looks again where its key belongs. -/
def Locking.back : Locking → Locking → Bool
  | _, aiming => true
  | _, _ => false

theorem straight_lockKey (k : κ) (m : Map κ ν) :
    Straight (Locking.step k) Locking.back .aiming m := by
  have acquire : Locking.step k (.acquiring (m.target k)) m =
      (.done (m.target k), m.emit (.locked (m.target k).stripe)) := if_pos rfl
  exact .next rfl rfl (.done acquire)

variable [DecidableEq κ] {m : Map κ ν} {k : κ} {parts parts' : List (Part κ ν)} {p : Part κ ν}

/-! ## Lost passes -/

/-- The parts that are a write of an upsert of `k`. -/
inductive Writes (k : κ) : Part κ ν → Prop where
  | add (v : ν) : Writes k (.insert k v false)
  | update (v : ν) (accept : Entry κ ν → Bool) : Writes k (.update k v accept)

/-- The parts before a retry end with a pass that was lost: a factory was called, a part of what it
did concerned a search of `k`, and a write of `k` followed. -/
inductive LostPass (m : Map κ ν) : List (Part κ ν) → Prop where
  | intro {k : κ} {earlier made rest : List (Part κ ν)} {p write : Part κ ν}
      (disturbs : Disturbs k (Part.afterAll (earlier ++ .note .called :: made) m)
        (p.after (Part.afterAll (earlier ++ .note .called :: made) m)))
      (writes : Writes k write) :
      LostPass m (earlier ++ .note .called :: made ++ p :: rest ++ [write])

theorem LostPass.behind (h : LostPass (Part.afterAll parts m) parts') :
    LostPass m (parts ++ parts') := by
  cases h with
  | @intro k earlier made rest p write disturbs writes =>
    rw [← Part.afterAll_append] at disturbs
    have lost : LostPass m ((parts ++ earlier) ++ .note .called :: made ++ p :: rest ++ [write]) :=
      .intro (by simpa using disturbs) writes
    simpa using lost

/-- Every retry among the parts is one of an upsert, and comes right behind a lost pass of it. -/
def Accounted (m : Map κ ν) (parts : List (Part κ ν)) : Prop :=
  ∀ before site behind, parts = before ++ .note (.retried site) :: behind →
    site = .mapUpdate ∧ LostPass m before

namespace Accounted

theorem of_forall (none : ∀ site, .note (.retried site) ∉ parts) : Accounted m parts := by
  rintro before site behind rfl
  exact absurd (by simp) (none site)

theorem append (h : Accounted m parts) (h' : Accounted (Part.afterAll parts m) parts') :
    Accounted m (parts ++ parts') := by
  intro before site behind eq
  rcases List.append_eq_append_iff.mp eq with ⟨more, rfl, eq'⟩ | ⟨more, rfl, eq'⟩
  · exact (h' more site behind eq').imp_right .behind
  · cases more with
    | nil =>
      rw [List.append_nil] at h'
      obtain ⟨rfl, lost⟩ := h' [] site behind eq'.symm
      have lost := lost.behind
      rw [List.append_nil] at lost
      exact ⟨rfl, lost⟩
    | cons x more =>
      obtain ⟨rfl, -⟩ := List.cons.inj eq'
      exact h before site more rfl

theorem retry (h : Accounted m parts) (lost : LostPass m parts) :
    Accounted m (parts ++ [.note (.retried .mapUpdate)]) := by
  intro before site behind eq
  rcases List.eq_nil_or_concat behind with rfl | ⟨behind, x, rfl⟩
  · obtain ⟨rfl, last⟩ := List.append_inj' eq rfl
    cases last
    exact ⟨rfl, lost⟩
  · rw [List.concat_eq_append, ← List.cons_append, ← List.append_assoc] at eq
    exact h before site behind (List.append_inj' eq rfl).1

end Accounted

/-! ## The parts of a use -/

/-- On every sound map the parts of the computation account for its retries. -/
def Accounts (a : Action (Map κ ν) α) : Prop :=
  ∀ m, m.Sound → ∃ parts, Takes a m parts ∧ Accounted m parts

namespace Accounts

theorem of_takes {a : Action (Map κ ν) α} {parts : Map κ ν → List (Part κ ν)}
    (takes : ∀ m, Takes a m (parts m)) (none : ∀ m e, .note e ∉ parts m) : Accounts a :=
  fun m _ => ⟨_, takes m, .of_forall fun site => none m (.retried site)⟩

theorem bind {a : Action (Map κ ν) α} {f : α → Action (Map κ ν) β} (first : Accounts a)
    (rest : ∀ x, Accounts (f x)) : Accounts (a >>= f) := by
  intro m h
  obtain ⟨parts, takes, accounted⟩ := first m h
  cases run : a.run m with
  | error e t => exact ⟨_, .bind_error f takes run, accounted⟩
  | ok x t =>
    obtain rfl : t = Part.afterAll parts m := (Action.after_of_ok run).symm.trans takes.after_eq
    obtain ⟨parts', takes', accounted'⟩ := rest x _ (Part.sound_afterAll h parts)
    exact ⟨_, .bind takes run takes', accounted.append accounted'⟩

theorem read (f : Map κ ν → α) : Accounts (do return f (← get) : Action (Map κ ν) α) :=
  of_takes (.read f) fun _ _ => List.not_mem_nil

theorem pure (x : α) : Accounts (pure x : Action (Map κ ν) α) := read fun _ => x

theorem insertOr (k : κ) (v : ν) (replace : Bool) :
    Accounts (insertOr k v replace : Action (Map κ ν) _) :=
  of_takes (.insertOr k v replace) fun m e => by simp

theorem call {factory : Action (Map κ ν) α} (h : Accounts factory) : Accounts (call factory) := by
  intro m sound
  obtain ⟨parts, takes, accounted⟩ := h (m.emit .called) (sound.emit _)
  refine ⟨_, .bind (.called m) rfl takes, ?_⟩
  exact Accounted.append (.of_forall fun site => by simp) accounted

/-- A write of `k` that comes to nothing only if the entry of `k` is not `found`. -/
def Tries (k : κ) (found : Option (Entry κ ν)) (write : Action (Map κ ν) Bool) : Prop :=
  ∀ t, t.Sound → ∃ parts, Takes write t parts ∧ (∀ e, .note e ∉ parts) ∧
    ∀ t', write.run t = .ok false t' → t.find? k ≠ found ∧ ∃ p, parts = [p] ∧ Writes k p

/-- What an upsert does after the call of its factory. -/
theorem write {t : Map κ ν} {called : List (Part κ ν)} {write : Action (Map κ ν) Bool}
    {won lost : Action (Map κ ν) α} (h : m.Sound)
    (t_eq : t = Part.afterAll (.note .called :: called) m)
    (accounted : Accounted m (.note .called :: called)) (tries : Tries k (m.find? k) write)
    (ends : Accounts won) (again : Accounts lost) :
    ∃ parts, Takes (do if ← write then won else do record (.retried .mapUpdate); lost) t parts ∧
      Accounted m (.note .called :: called ++ parts) := by
  have sound : t.Sound := t_eq ▸ Part.sound_afterAll h _
  obtain ⟨written, takes, quiet, failed⟩ := tries t sound
  have accountedWrite : Accounted m (.note .called :: called ++ written) :=
    accounted.append (.of_forall fun site => quiet (.retried site))
  have after_eq (u : Map κ ν) (after : write.after t = u) :
      u = Part.afterAll (.note .called :: called ++ written) m := by
    rw [← after, takes.after_eq, t_eq, Part.afterAll_append]
  cases run : write.run t with
  | error f u => exact ⟨_, .bind_error _ takes run, accountedWrite⟩
  | ok done u =>
    have u_eq := after_eq u (Action.after_of_ok run)
    have soundWrite : u.Sound := u_eq ▸ Part.sound_afterAll h _
    cases done with
    | true =>
      obtain ⟨parts, rest, accountedRest⟩ := ends u soundWrite
      refine ⟨_, .bind takes run rest, ?_⟩
      rw [← List.append_assoc]
      exact accountedWrite.append (u_eq ▸ accountedRest)
    | false =>
      obtain ⟨moved, p, rfl, writes⟩ := failed u run
      have changed : (Part.afterAll called (m.emit .called)).find? k ≠ m.find? k := t_eq ▸ moved
      obtain ⟨before, culprit, behind, rfl, disturbs⟩ :=
        Part.exists_disturbs (h.emit .called) changed
      have lost : LostPass m (.note .called :: (before ++ culprit :: behind) ++ [p]) := by
        have lost : LostPass m ([] ++ .note .called :: before ++ culprit :: behind ++ [p]) :=
          .intro disturbs writes
        simpa using lost
      obtain ⟨parts, rest, accountedRest⟩ :=
        again (u.emit (.retried .mapUpdate)) (soundWrite.emit _)
      refine ⟨_, .bind takes run (.bind (.retried u) rfl rest), ?_⟩
      rw [← List.append_assoc, ← List.append_assoc]
      refine (accountedWrite.retry lost).append ?_
      rw [Part.afterAll_append, ← u_eq]
      exact accountedRest

theorem tries_replaceIf {e : Entry κ ν} (v : ν) :
    Tries k (some e) (replaceIf k v (·.id == e.id)) := by
  intro t _
  refine ⟨_, .replaceIf k v _ t, by simp, fun t' run => ⟨fun same => ?_, _, rfl, .update v _⟩⟩
  rw [run_replaceIf_of_some same, beq_self_eq_true] at run
  cases run

theorem tries_insertIfNew (v : ν) :
    Tries k none (insertIfNew k v : Action (Map κ ν) Bool) := by
  intro t h
  let parts : List (Part κ ν) := .insert k v false ::
    ((Part.insert k v false).request? t).toList.map .grow
  have takes : Takes (insertIfNew k v) t parts := by
    have first : Takes (Map.insertOr k v false) t parts := .insertOr k v false t
    cases run : (Map.insertOr k v false).run t with
    | error f u => exact .bind_error _ first run
    | ok x u =>
      have last : Takes (Pure.pure x.added : Action (Map κ ν) Bool) u [] :=
        .read (fun _ => x.added) u
      exact List.append_nil parts ▸ .bind first run last
  refine ⟨parts, takes, by simp [parts], fun t' run => ?_⟩
  cases found : t.find? k with
  | none =>
    have spec := h.insertIfNew_spec found v
    rw [run] at spec
    cases spec.1
  | some e =>
    have none : (Part.insert k v false).request? t = none := by
      rw [Part.request?, run_insertLocked_of_some found]
    exact ⟨Option.some_ne_none e, _, by simp [parts, none], .add v⟩

/-- A pass of an upsert. -/
theorem pass {factory : Action (Map κ ν) (ν × β)} {write : ν → Action (Map κ ν) Bool} {γ : Type}
    {won lost : ν → β → Action (Map κ ν) γ} (h : m.Sound) (made : Accounts factory)
    (tries : ∀ v, Tries k (m.find? k) (write v)) (ends : ∀ v report, Accounts (won v report))
    (again : ∀ v report, Accounts (lost v report)) :
    ∃ parts, Takes (do
      let (v, report) ← Map.call factory
      if ← write v then won v report
      else do
        record (.retried .mapUpdate)
        lost v report) m parts ∧ Accounted m parts := by
  obtain ⟨called, takes, accounted⟩ := made (m.emit .called) (h.emit _)
  have takesCall : Takes (Map.call factory) m (.note .called :: called) :=
    .bind (.called m) rfl takes
  have accountedCall : Accounted m ([.note .called] ++ called) :=
    Accounted.append (.of_forall fun site => by simp) accounted
  cases run : (Map.call factory).run m with
  | error f t => exact ⟨_, .bind_error _ takesCall run, accountedCall⟩
  | ok x t =>
    have t_eq := (Action.after_of_ok run).symm.trans takesCall.after_eq
    obtain ⟨parts, rest, accountedAll⟩ :=
      Accounts.write h t_eq accountedCall (tries x.1) (ends x.1 x.2) (again x.1 x.2)
    exact ⟨_, .bind takesCall run rest, accountedAll⟩

theorem upsertFrom (k : κ) {add : Nat → Action (Map κ ν) (ν × β)}
    {update : Nat → ν → Action (Map κ ν) (ν × β)} (adds : ∀ n, Accounts (add n))
    (updates : ∀ n v, Accounts (update n v)) (bound : Nat) (before behind : List β) :
    Accounts (upsertFrom k add update bound before behind) := by
  induction bound generalizing before behind with
  | zero => exact of_takes (.fail _) fun _ _ => List.not_mem_nil
  | succ bound ih =>
    intro m h
    have start : Takes get m [] := .read id m
    cases found : m.find? k with
    | some e =>
      obtain ⟨parts, takes, accounted⟩ := pass (k := k) h (updates behind.length e.value)
        (fun v => found ▸ tries_replaceIf v)
        (fun v report => pure (⟨v, before, behind ++ [report]⟩ : Upserted ν β))
        (fun v report => ih before (behind ++ [report]))
      refine ⟨parts, ?_, accounted⟩
      rw [Map.upsertFrom]
      refine Takes.bind start rfl ?_
      rw [found]
      exact takes
    | none =>
      obtain ⟨parts, takes, accounted⟩ := pass (k := k) h (adds before.length)
        (fun v => found ▸ tries_insertIfNew v)
        (fun v report => pure (⟨v, before ++ [report], behind⟩ : Upserted ν β))
        (fun v report => ih (before ++ [report]) behind)
      refine ⟨parts, ?_, accounted⟩
      rw [Map.upsertFrom]
      refine Takes.bind start rfl ?_
      rw [found]
      exact takes

theorem getOrInsertWith (k : κ) {factory : Action (Map κ ν) (ν × β)} (made : Accounts factory) :
    Accounts (getOrInsertWith k factory) := by
  refine bind (read id) fun m => ?_
  cases m.find? k with
  | some e => exact pure _
  | none => exact bind (call made) fun x => bind (insertOr k x.1 false) fun _ => pure _

end Accounts

/-- The parts of a use account for its retries. -/
theorem Use.accounts {a : Action (Map κ ν) α} (use : Use a) : Accounts a := by
  induction use with
  | pure x => exact .pure x
  | fail f => exact .of_takes (.fail f) fun _ _ => List.not_mem_nil
  | bind _ _ first rest => exact .bind first rest
  | attempt _ ih => exact fun m h => (ih m h).imp fun _ => And.imp_left .attempt
  | read f => exact .read f
  | exclusively f => exact .of_takes (.exclusively f) fun _ _ => by simp
  | clear => exact .of_takes .clear fun _ _ => by simp
  | insertOr k v replace => exact .insertOr k v replace
  | removeIf k accept => exact .of_takes (.removeIf k accept) fun _ _ => by simp
  | replaceIf k v accept => exact .of_takes (.replaceIf k v accept) fun _ _ => by simp
  | getOrInsertWith k _ ih => exact .getOrInsertWith k ih
  | upsertWith k _ _ bound adds updates => exact .upsertFrom k adds updates bound [] []

/-! ## Retries in the trace -/

namespace Part

omit [DecidableEq κ] in
/-- A part records a retry only if it is the note of one. -/
theorem eq_note_of_retried {site : RetrySite} (h : .retried site ∈ p.recorded m) :
    p = .note (.retried site) := by
  cases p with
  | note e => exact congrArg Part.note (List.mem_singleton.mp h).symm
  | grow r =>
    rw [recorded] at h
    split at h
    · simp [critical] at h
    · simp [critical] at h
    · split at h <;> simp [critical] at h
  | _ => simp [recorded, critical] at h

theorem note_mem_of_retried {site : RetrySite} (h : .retried site ∈ recordedAll parts m) :
    .note (.retried site) ∈ parts := by
  induction parts generalizing m with
  | nil => cases h
  | cons p parts ih =>
    rcases List.mem_append.mp h with here | there
    · exact eq_note_of_retried here ▸ List.mem_cons_self
    · exact List.mem_cons_of_mem p (ih there)

end Part

/-- Whatever is put together from operations on a map, the retries that it records are those of
upserts, and each of them comes right behind a pass that was lost because of what its own factory
had done. -/
theorem Use.exists_accounted {a : Action (Map κ ν) α} (use : Use a) (h : m.Sound) :
    ∃ parts, Takes a m parts ∧ Accounted m parts ∧
      (a.after m).trace.toList = m.trace.toList ++ Part.recordedAll parts m ∧
      ∀ site, .retried site ∈ Part.recordedAll parts m → .note (.retried site) ∈ parts := by
  obtain ⟨parts, takes, accounted⟩ := use.accounts m h
  refine ⟨parts, takes, accounted, ?_, fun site => Part.note_mem_of_retried⟩
  rw [takes.after_eq, Part.toList_trace_afterAll h]

end Map

end SharedCollections

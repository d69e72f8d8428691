import SharedCollections.Map.Session
import SharedCollections.Proofs.Map.GetOrInsert
import SharedCollections.Proofs.Map.Order
import SharedCollections.Proofs.Map.Retries
/-!
# Operations that come to an end

An operation on a map that nobody else uses comes to an end as soon as its factories do
(`Finishes`). A take removes the entry that it sees first, so it tries once. An upsert starts over
only if its factory changed the entry of its key, so it ends when its factories leave the map alone
from some call on (`Upsert.exists_closes`), and otherwise it calls them forever. The factories of a
command have finitely many scripts, so every command ends, however its scripts are nested.
-/

namespace SharedCollections

namespace Map

variable {κ ν α β : Type} [DecidableEq κ]

/-! ## Takes -/

/-- A take is done after its first attempt. -/
theorem Sound.exists_run_takeFirst {m : Map κ ν} (h : m.Sound) :
    ∃ x m', ∀ bound, (takeFirst (bound + 1)).run m = .ok x m' := by
  cases eq : m.entries with
  | nil => exact ⟨_, _, h.run_takeFirst_of_nil eq⟩
  | cons e es => exact ⟨_, _, h.run_takeFirst_of_cons eq⟩

/-! ## Upserts -/

namespace Upsert

variable {k : κ} {add : Nat → Action (Map κ ν) (ν × β)}
  {update : Nat → ν → Action (Map κ ν) (ν × β)} {s s' : Stage κ ν β} {lastAdd lastUpdate n : Nat}

/-- The factories leave the map alone from the given calls on. -/
structure Settles (add : Nat → Action (Map κ ν) (ν × β))
    (update : Nat → ν → Action (Map κ ν) (ν × β)) (lastAdd lastUpdate : Nat) : Prop where
  adds : ∀ n, lastAdd ≤ n → ∀ m, (add n).after m = m
  updates : ∀ n, lastUpdate ≤ n → ∀ v m, (update n v).after m = m

/-- A pass is lost only while the factories have not settled. -/
theorem Lost.le (lost : Lost k add update s s') (settles : Settles add update lastAdd lastUpdate)
    (adds : s.adds.length ≤ lastAdd) (updates : s.updates.length ≤ lastUpdate) :
    s'.adds.length ≤ lastAdd ∧ s'.updates.length ≤ lastUpdate := by
  cases lost with
  | @pass v report m made moved before behind p parts =>
    cases found : s.map.find? k with
    | some e =>
      rw [reported_of_some found, List.length_append, List.length_singleton]
      refine ⟨adds, Nat.lt_of_not_le fun settled => moved ?_⟩
      rw [outcome_of_some found] at made
      obtain rfl : m = s.map.emit .called :=
        (Action.after_of_ok made).symm.trans (settles.updates _ settled e.value _)
      rfl
    | none =>
      rw [reported_of_none found, List.length_append, List.length_singleton]
      refine ⟨Nat.lt_of_not_le fun settled => moved ?_, updates⟩
      rw [outcome_of_none found] at made
      obtain rfl : m = s.map.emit .called :=
        (Action.after_of_ok made).symm.trans (settles.adds _ settled _)
      rfl

theorem Losses.le (losses : Losses k add update n s s')
    (settles : Settles add update lastAdd lastUpdate) (adds : s.adds.length ≤ lastAdd)
    (updates : s.updates.length ≤ lastUpdate) :
    s'.adds.length ≤ lastAdd ∧ s'.updates.length ≤ lastUpdate := by
  induction losses with
  | none => exact ⟨adds, updates⟩
  | lost first _ ih =>
    obtain ⟨adds', updates'⟩ := first.le settles adds updates
    exact ih adds' updates'

/-- An upsert whose factories settle ends, after no more passes than there were calls before. -/
theorem exists_closes {m : Map κ ν} (h : m.Sound) (adds : ∀ n, Use (add n))
    (updates : ∀ n v, Use (update n v)) (settles : Settles add update lastAdd lastUpdate)
    {bound : Nat} (enough : lastAdd + lastUpdate < bound) :
    ∃ n s, Losses k add update n ⟨m, [], []⟩ s ∧ n ≤ lastAdd + lastUpdate ∧
      Closes k add update s ((upsertWith k add update bound).run m) := by
  obtain ⟨n, s, losses, ends⟩ := exists_losses (k := k) (s := ⟨m, [], []⟩) h adds updates bound
  have count : s.adds.length + s.updates.length = n := by simpa using losses.length_reports
  obtain ⟨le, le'⟩ := losses.le settles (Nat.zero_le _) (Nat.zero_le _)
  rcases ends with ⟨-, closes⟩ | ⟨used, -⟩
  · exact ⟨n, s, losses, by omega, closes⟩
  · omega

end Upsert

/-! ## Computations that come to an end -/

/-- On every sound map the computation returns or fails of its own accord: no bound on its passes is
used up. -/
structure Finishes (a : Action (Map κ ν) α) : Prop where
  use : Use a
  ends : ∀ m, m.Sound → ∀ t, a.run m ≠ .error .stalled t

namespace Finishes

theorem of_run {a : Action (Map κ ν) α} (use : Use a)
    (run : ∀ m, m.Sound → ∃ x t, a.run m = .ok x t) : Finishes a := by
  refine ⟨use, fun m h t stalled => ?_⟩
  obtain ⟨x, t', ok⟩ := run m h
  cases ok.symm.trans stalled

theorem bind {a : Action (Map κ ν) α} {f : α → Action (Map κ ν) β} (first : Finishes a)
    (rest : ∀ x, Finishes (f x)) : Finishes (a >>= f) := by
  refine ⟨.bind first.use fun x => (rest x).use, fun m h t => ?_⟩
  rw [Action.run_bind]
  cases run : a.run m with
  | error e u =>
    have own := first.ends m h u
    rw [run] at own
    rintro ⟨⟩
    exact own rfl
  | ok x u => exact (rest x).ends u (Action.after_of_ok run ▸ first.use.sound h) t

theorem read (f : Map κ ν → α) : Finishes (do return f (← get) : Action (Map κ ν) α) :=
  of_run (.read f) fun _ _ => ⟨_, _, rfl⟩

theorem pure (x : α) : Finishes (pure x : Action (Map κ ν) α) := read fun _ => x

theorem map {a : Action (Map κ ν) α} (h : Finishes a) (f : α → β) :
    Finishes (do return f (← a)) := bind h fun _ => pure _

theorem fail {f : Fault} (own : f ≠ .stalled) : Finishes (throw f : Action (Map κ ν) α) :=
  ⟨.fail f, fun _ _ _ stalled => own (EStateM.Result.error.inj stalled).1⟩

theorem exclusively (f : Table κ ν → α) :
    Finishes (exclusively do return f (← get).table : Action (Map κ ν) α) :=
  of_run (.exclusively f) fun _ _ => ⟨_, _, rfl⟩

theorem clear : Finishes (clear : Action (Map κ ν) Unit) :=
  of_run .clear fun _ _ => ⟨_, _, rfl⟩

theorem removeIf (k : κ) (accept : ν → Bool) :
    Finishes (removeIf k accept : Action (Map κ ν) (Option ν)) := by
  refine of_run (.removeIf k accept) fun m _ => ?_
  cases found : m.find? k with
  | none => exact ⟨_, _, run_removeIf_of_none found accept⟩
  | some e => exact ⟨_, _, run_removeIf_of_some found accept⟩

theorem replaceIf (k : κ) (v : ν) (accept : Entry κ ν → Bool) :
    Finishes (replaceIf k v accept : Action (Map κ ν) Bool) := by
  refine of_run (.replaceIf k v accept) fun m _ => ?_
  cases found : m.find? k with
  | none => exact ⟨_, _, run_replaceIf_of_none found v accept⟩
  | some e => exact ⟨_, _, run_replaceIf_of_some found v accept⟩

theorem takeFirst : Finishes (takeFirst 1 : Action (Map κ ν) (Option (κ × ν))) := by
  refine of_run (.takeFirst 1) fun m h => ?_
  obtain ⟨x, m', run⟩ := h.exists_run_takeFirst
  exact ⟨x, m', run 0⟩

theorem insertOr (k : κ) (v : ν) (replace : Bool) :
    Finishes (insertOr k v replace : Action (Map κ ν) (Inserted ν)) := by
  refine ⟨.insertOr k v replace, fun m h t => ?_⟩
  rw [Map.insertOr]
  cases found : m.find? k with
  | some e =>
    rw [Action.run_bind_ok (run_insertLocked_of_some found v replace)]
    rintro ⟨⟩
  | none =>
    by_cases room : m.table.count (m.target k).stripe < Word.top
    · rw [Action.run_bind_ok (run_insertLocked_of_none found room v replace)]
      have sound : (guarded (m.target k).stripe (m.added k v)).Sound :=
        ((h.added found v).emit _).emit _
      cases m.requestAfter k with
      | none => rintro ⟨⟩
      | some r =>
        have growth := sound.grow_spec r
        dsimp only
        rw [Action.run_bind]
        cases run : (grow r).run (guarded (m.target k).stripe (m.added k v)) with
        | ok u m' => rintro ⟨⟩
        | error f m' =>
          rw [run] at growth
          obtain ⟨s, rfl⟩ := growth
          rintro ⟨⟩
    · rw [Action.run_bind_error (run_insertLocked_of_full found room v replace)]
      rintro ⟨⟩

/-- A factory that is called ends as it would end without the note of its call. -/
theorem call_ne {factory : Action (Map κ ν) α} (made : Finishes factory) {m : Map κ ν}
    (h : m.Sound) (t : Map κ ν) : (call factory).run m ≠ .error .stalled t :=
  made.ends (m.emit .called) (h.emit _) t

theorem getOrInsertWith (k : κ) {factory : Action (Map κ ν) (ν × β)} (made : Finishes factory) :
    Finishes (getOrInsertWith k factory) := by
  refine ⟨.getOrInsertWith k made.use, fun m h t => ?_⟩
  rw [Map.getOrInsertWith, Action.run_get_bind]
  cases m.find? k with
  | some e => rintro ⟨⟩
  | none =>
    dsimp only
    cases run : (call factory).run m with
    | error f u =>
      rw [Action.run_bind_error run]
      rintro ⟨⟩
      exact made.call_ne h t run
    | ok x u =>
      have sound : u.Sound := Action.after_of_ok run ▸ made.use.sound (h.emit .called)
      rw [Action.run_bind_ok run]
      exact ((insertOr k x.1 false).map fun inserted => (inserted.value, some x.2)).ends u sound t

/-- A pass that closes an upsert is not cut short unless its factory is. -/
theorem closes_ne {k : κ} {add : Nat → Action (Map κ ν) (ν × β)}
    {update : Nat → ν → Action (Map κ ν) (ν × β)} (adds : ∀ n, Finishes (add n))
    (updates : ∀ n v, Finishes (update n v)) {s : Upsert.Stage κ ν β} (h : s.map.Sound)
    {ending : Ending (Map κ ν) (Upserted ν β)} (closes : Upsert.Closes k add update s ending)
    (t : Map κ ν) : ending ≠ .error .stalled t := by
  rintro rfl
  cases closes with
  | failed failed =>
    cases found : s.map.find? k with
    | some e =>
      rw [Upsert.outcome_of_some found] at failed
      exact (updates _ _).call_ne h t failed
    | none =>
      rw [Upsert.outcome_of_none found] at failed
      exact (adds _).call_ne h t failed

theorem upsertWith (k : κ) {add : Nat → Action (Map κ ν) (ν × β)}
    {update : Nat → ν → Action (Map κ ν) (ν × β)} (adds : ∀ n, Finishes (add n))
    (updates : ∀ n v, Finishes (update n v)) {lastAdd lastUpdate bound : Nat}
    (settles : Upsert.Settles add update lastAdd lastUpdate)
    (enough : lastAdd + lastUpdate < bound) : Finishes (upsertWith k add update bound) := by
  have useAdds := fun n => (adds n).use
  have useUpdates := fun n v => (updates n v).use
  refine ⟨.upsertWith k useAdds useUpdates bound, fun m h t => ?_⟩
  obtain ⟨n, s, losses, -, closes⟩ :=
    Upsert.exists_closes (k := k) h useAdds useUpdates settles enough
  exact closes_ne adds updates (losses.sound h) closes t

/-- An upsert that is cut short has lost all passes that it was allowed. -/
theorem exists_losses_of_stalled {k : κ} {add : Nat → Action (Map κ ν) (ν × β)}
    {update : Nat → ν → Action (Map κ ν) (ν × β)} (adds : ∀ n, Finishes (add n))
    (updates : ∀ n v, Finishes (update n v)) {m t : Map κ ν} (h : m.Sound) {bound : Nat}
    (stalled : (Map.upsertWith k add update bound).run m = .error .stalled t) :
    ∃ s, Upsert.Losses k add update bound ⟨m, [], []⟩ s := by
  obtain ⟨n, s, losses, ends⟩ := Upsert.exists_losses (k := k) (s := ⟨m, [], []⟩) h
    (fun n => (adds n).use) (fun n v => (updates n v).use) bound
  rcases ends with ⟨-, closes⟩ | ⟨rfl, -⟩
  · exact absurd stalled (closes_ne adds updates (losses.sound h) closes t)
  · exact ⟨s, losses⟩

end Finishes

/-! ## Commands -/

namespace Finishes

theorem insertIfNew (k : κ) (v : ν) : Finishes (insertIfNew k v : Action (Map κ ν) Bool) :=
  map (insertOr k v false) _

theorem insert (k : κ) (v : ν) : Finishes (insert k v : Action (Map κ ν) Unit) :=
  map (insertOr k v true) _

theorem insertAll (entries : List (κ × ν)) :
    Finishes (insertAll entries : Action (Map κ ν) Unit) := by
  induction entries with
  | nil => exact pure _
  | cons e entries ih => exact bind (insert e.1 e.2) fun _ => ih

theorem countPassing {test : β → Action (Map κ ν) Bool} (h : ∀ x, Finishes (test x))
    (xs : List β) : Finishes (Action.countPassing test xs) := by
  induction xs with
  | nil => exact pure _
  | cons x xs ih => exact bind (h x) fun passed => map ih _

theorem getOrInsert (k : κ) (v : ν) : Finishes (getOrInsert k v : Action (Map κ ν) ν) := by
  refine bind (read id) fun m => ?_
  cases m.find? k with
  | some e => exact pure _
  | none => exact map (insertOr k v false) _

theorem toList : Finishes (toList : Action (Map κ ν) (List (κ × ν))) :=
  exclusively fun t => t.entries.map Entry.pair

theorem copyTo (dest : List (κ × ν)) (index : Nat) :
    Finishes (Exchange.copyTo dest index : Action (Map κ ν) _) := by
  rw [Exchange.copyTo]
  split
  · exact pure _
  · exact map toList _

variable [DecidableEq ν]

theorem plain (c : Plain κ ν) : Finishes c.run := by
  cases c with
  | insertIfNew k v => exact map (insertIfNew k v) _
  | insertNew k v => exact map (map (insertIfNew k v) _) _
  | insert k v => exact map (insert k v) _
  | insertAll es => exact map (insertAll es) _
  | insertNewAll es =>
    refine map (countPassing ?_ es) _
    exact fun e => insertIfNew e.1 e.2
  | get? k => exact read fun m => Reply.value (m.get? k)
  | require k => exact read fun m => Reply.ofExcept Reply.required (m.require k)
  | view k => exact read fun m => Reply.viewed ((m.find? k).map Entry.pair)
  | contains k => exact read fun m => Reply.flag (m.contains k)
  | countMatching es =>
    refine map (countPassing ?_ es) _
    exact fun e => read fun m => m.get? e.1 == some e.2
  | iterate => exact read fun m => Reply.entries m.iterate
  | display expanded => exact read fun m => Reply.display expanded m.iterate
  | hasherName => exact read fun m => Reply.text m.hasher.name
  | getOrInsert k v => exact map (getOrInsert k v) _
  | erase? k => exact map (removeIf k _) _
  | eraseAll ks => exact map (countPassing (fun k => map (removeIf k _) _) ks) _
  | eraseIfEq k v => exact map (map (removeIf k _) _) _
  | replaceIfEq k v expected => exact map (replaceIf k v _) _
  | size | exchangeCount => exact map (exclusively Table.total) _
  | isEmpty => exact map (exclusively fun t => t.counts.all (· == 0)) _
  | clear => exact map clear _
  | toList | exchangeItems => exact map toList _
  | keys => exact map (exclusively fun t => t.entries.map Entry.key) _
  | values => exact map (exclusively fun t => t.entries.map Entry.value) _
  | offer k v => exact map (map (insertIfNew k v) _) _
  | exchangeTake => exact map takeFirst _
  | exchangeIsEmpty => exact map (map (exclusively Table.total) _) _
  | copyTo dest index => exact map (copyTo dest index) _

end Finishes

/-- What a factory computes is a value or a fault of its own. -/
def Formula.Prompt (f : Formula κ ν) : Prop := ∀ k current, f k current ≠ .error .stalled

omit [DecidableEq κ] in
theorem Formula.prompt_const (v : ν) : (const v : Formula κ ν).Prompt := by
  rintro k current ⟨⟩

/-- The factories of the command, and of those that its scripts consist of, come to an end. -/
inductive Command.Prompt : Command κ ν → Prop where
  | plain (c : Plain κ ν) : Prompt (.plain c)
  | getOrInsertWith (k : κ) {script : List (Command κ ν)} {formula : Formula κ ν}
      (commands : ∀ c ∈ script, Prompt c) (prompt : formula.Prompt) :
      Prompt (.getOrInsertWith k script formula)
  | upsert (k : κ) (v : ν) {scripts : List (List (Command κ ν))} {formula : Formula κ ν}
      (commands : ∀ script ∈ scripts, ∀ c ∈ script, Prompt c) (prompt : formula.Prompt) :
      Prompt (.upsert k v scripts formula)
  | upsertWith (k : κ) {adds updates : List (List (Command κ ν))} {add update : Formula κ ν}
      (addCommands : ∀ script ∈ adds, ∀ c ∈ script, Prompt c) (addPrompt : add.Prompt)
      (updateCommands : ∀ script ∈ updates, ∀ c ∈ script, Prompt c) (updatePrompt : update.Prompt) :
      Prompt (.upsertWith k adds add updates update)

namespace Finishes

theorem eval {f : Formula κ ν} (prompt : f.Prompt) (k : κ) (current : Option ν) :
    Finishes (f.eval k current : Action (Map κ ν) ν) := by
  rw [Formula.eval]
  cases made : f k current with
  | ok v => exact pure v
  | error e => exact fail fun stalled => prompt k current (stalled ▸ made)

variable [DecidableEq ν]

theorem runScript {script : List (Command κ ν)} (h : ∀ c ∈ script, Finishes c.run) :
    Finishes (runScript script) := by
  induction script with
  | nil =>
    rw [Map.runScript]
    exact pure _
  | cons c script ih =>
    rw [Map.runScript]
    exact bind (h c List.mem_cons_self) fun r =>
      map (ih fun c' hc' => h c' (List.mem_cons_of_mem c hc')) _

theorem runNth {scripts : List (List (Command κ ν))}
    (h : ∀ script ∈ scripts, ∀ c ∈ script, Finishes c.run) (n : Nat) :
    Finishes (runNth scripts n) := by
  induction scripts generalizing n with
  | nil =>
    rw [Map.runNth]
    exact pure _
  | cons script scripts ih =>
    cases n with
    | zero =>
      rw [Map.runNth]
      exact runScript (h script List.mem_cons_self)
    | succ n =>
      rw [Map.runNth]
      exact ih (fun script' hs => h script' (List.mem_cons_of_mem script hs)) n

end Finishes

section

variable [DecidableEq ν] {scripts : List (List (Command κ ν))} {f : Formula κ ν} {n : Nat}

/-- The factory that runs its script numbered `n` and then computes a value. -/
def scripted (scripts : List (List (Command κ ν))) (f : Formula κ ν) (k : κ) (n : Nat)
    (current : Option ν) : Action (Map κ ν) (ν × List (Reply κ ν)) := do
  let replies ← runNth scripts n
  return (← f.eval k current, replies)

theorem Finishes.scripted (h : ∀ script ∈ scripts, ∀ c ∈ script, Finishes c.run)
    (prompt : f.Prompt) (k : κ) (n : Nat) (current : Option ν) :
    Finishes (scripted scripts f k n current) :=
  bind (runNth h n) fun _ => map (eval prompt k current) _

theorem runNth_of_le (beyond : scripts.length ≤ n) : runNth scripts n = pure [] := by
  induction scripts generalizing n with
  | nil => rw [runNth]
  | cons script scripts ih =>
    cases n with
    | zero => cases beyond
    | succ n =>
      rw [runNth]
      exact ih (Nat.le_of_succ_le_succ beyond)

/-- Past its last script a factory leaves the map alone. -/
theorem after_scripted (beyond : scripts.length ≤ n) (f : Formula κ ν) (k : κ)
    (current : Option ν) (m : Map κ ν) : (scripted scripts f k n current).after m = m := by
  rw [scripted, runNth_of_le beyond, Formula.eval]
  cases f k current <;> rfl

/-- Every command comes to an end. -/
theorem Command.Prompt.finishes {c : Command κ ν} (h : c.Prompt) : Finishes c.run := by
  induction h with
  | plain c =>
    rw [Command.run]
    exact .plain c
  | getOrInsertWith k _ prompt ih =>
    rw [Command.run]
    exact .map (.getOrInsertWith k (.bind (.runScript ih) fun _ => .map (.eval prompt k none) _)) _
  | @upsert k v scripts formula _ prompt ih =>
    have settles : Upsert.Settles (fun _ => pure (v, []))
        (fun n current => scripted scripts formula k n (some current)) 0 scripts.length :=
      ⟨fun _ _ _ => rfl, fun n beyond current => after_scripted beyond formula k (some current)⟩
    rw [Command.run]
    refine .map (.upsertWith k (fun _ => .pure _) (fun n current => ?_) settles (by omega)) _
    exact .scripted ih prompt k n (some current)
  | @upsertWith k adds updates add update _ addPrompt _ updatePrompt ihAdds ihUpdates =>
    have settles : Upsert.Settles (fun n => scripted adds add k n none)
        (fun n current => scripted updates update k n (some current)) adds.length updates.length :=
      ⟨fun n beyond => after_scripted beyond add k none,
        fun n beyond current => after_scripted beyond update k (some current)⟩
    rw [Command.run]
    refine .map (.upsertWith k (fun n => ?_) (fun n current => ?_) settles (by omega)) _
    · exact .scripted ihAdds addPrompt k n none
    · exact .scripted ihUpdates updatePrompt k n (some current)

end

end Map

end SharedCollections

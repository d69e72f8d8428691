import SharedCollections.Proofs.Map.Part
/-!
# Uses of a map

A use of a map is a computation that is put together from operations on it. The factories that an
operation calls are uses again, and their faults may be caught. However a use ends, it ends in a map
that operations lead to (`Use.onward`), and so their parts (`Use.inParts`); what parts preserve
holds at every moment of it. All commands are uses.
-/

namespace SharedCollections

namespace Map

variable {κ ν α β : Type} [DecidableEq κ]

/-- A computation that is put together from operations on a map. -/
inductive Use : {α : Type} → Action (Map κ ν) α → Prop where
  | pure {α : Type} (x : α) : Use (pure x)
  | fail {α : Type} (f : Fault) : Use (throw f : Action (Map κ ν) α)
  | bind {α β : Type} {a : Action (Map κ ν) α} {f : α → Action (Map κ ν) β} (first : Use a)
      (rest : ∀ x, Use (f x)) : Use (a >>= f)
  | attempt {α : Type} {a : Action (Map κ ν) α} (h : Use a) : Use a.attempt
  /-- A look-up, or a step of a cursor. -/
  | read {α : Type} (f : Map κ ν → α) : Use (do return f (← get))
  /-- A look under all locks. -/
  | exclusively {α : Type} (f : Table κ ν → α) : Use (exclusively do return f (← get).table)
  | clear : Use clear
  | insertOr (k : κ) (v : ν) (replace : Bool) : Use (insertOr k v replace)
  | removeIf (k : κ) (accept : ν → Bool) : Use (removeIf k accept)
  | replaceIf (k : κ) (v : ν) (accept : Entry κ ν → Bool) : Use (replaceIf k v accept)
  | getOrInsertWith {β : Type} (k : κ) {factory : Action (Map κ ν) (ν × β)} (h : Use factory) :
      Use (getOrInsertWith k factory)
  | upsertWith {β : Type} (k : κ) {add : Nat → Action (Map κ ν) (ν × β)}
      {update : Nat → ν → Action (Map κ ν) (ν × β)} (adds : ∀ n, Use (add n))
      (updates : ∀ n v, Use (update n v)) (bound : Nat) : Use (upsertWith k add update bound)

/-! ## What holds of all uses -/

/-- `P` holds of the operations without factories and of what is recorded around a factory, and of
whatever is put together from computations of which it holds. -/
structure Composes (P : {α : Type} → Action (Map κ ν) α → Prop) : Prop where
  fail {α : Type} (f : Fault) : P (throw f : Action (Map κ ν) α)
  bind {α β : Type} {a : Action (Map κ ν) α} {f : α → Action (Map κ ν) β} (first : P a)
    (rest : ∀ x, P (f x)) : P (a >>= f)
  attempt {α : Type} {a : Action (Map κ ν) α} (h : P a) : P a.attempt
  read {α : Type} (f : Map κ ν → α) : P (do return f (← get))
  exclusively {α : Type} (f : Table κ ν → α) : P (exclusively do return f (← get).table)
  clear : P clear
  insertOr (k : κ) (v : ν) (replace : Bool) : P (insertOr k v replace)
  removeIf (k : κ) (accept : ν → Bool) : P (removeIf k accept)
  replaceIf (k : κ) (v : ν) (accept : Entry κ ν → Bool) : P (replaceIf k v accept)
  called : P (record .called)
  retried : P (record (.retried .mapUpdate))

namespace Composes

variable {P : {α : Type} → Action (Map κ ν) α → Prop} (h : Composes P)
include h

theorem pure (x : α) : P (pure x : Action (Map κ ν) α) := h.read fun _ => x

theorem map {a : Action (Map κ ν) α} (ha : P a) (f : α → β) : P (do return f (← a)) :=
  h.bind ha fun _ => h.pure _

theorem get_bind {f : Map κ ν → Action (Map κ ν) α} (hf : ∀ m, P (f m)) : P (get >>= f) :=
  h.bind (h.read id) hf

theorem call {factory : Action (Map κ ν) α} (hf : P factory) : P (call factory) :=
  h.bind h.called fun _ => hf

theorem getOrInsertWith (k : κ) {factory : Action (Map κ ν) (ν × β)} (hf : P factory) :
    P (getOrInsertWith k factory) := by
  refine h.get_bind fun m => ?_
  cases m.find? k with
  | some e => exact h.pure _
  | none => exact h.bind (h.call hf) fun (v, report) => h.map (h.insertOr k v false) _

/-- `P` holds of a pass of an upsert if it holds of what is done after a lost pass. -/
theorem upsertFrom (k : κ) {add : Nat → Action (Map κ ν) (ν × β)}
    {update : Nat → ν → Action (Map κ ν) (ν × β)} (adds : ∀ n, P (add n))
    (updates : ∀ n v, P (update n v)) (bound : Nat) (before behind : List β) :
    P (upsertFrom k add update bound before behind) := by
  induction bound generalizing before behind with
  | zero => exact h.fail _
  | succ bound ih =>
    refine h.get_bind fun m => ?_
    cases m.find? k with
    | some e =>
      refine h.bind (h.call (updates _ _)) fun (v, report) => ?_
      refine h.bind (h.replaceIf k v _) fun done => ?_
      cases done with
      | true => exact h.pure _
      | false => exact h.bind h.retried fun _ => ih _ _
    | none =>
      refine h.bind (h.call (adds _)) fun (v, report) => ?_
      refine h.bind (h.map (h.insertOr k v false) _) fun done => ?_
      cases done with
      | true => exact h.pure _
      | false => exact h.bind h.retried fun _ => ih _ _

theorem of_use {a : Action (Map κ ν) α} (use : Use a) : P a := by
  induction use with
  | pure x => exact h.pure x
  | fail f => exact h.fail f
  | bind _ _ first rest => exact h.bind first rest
  | attempt _ ih => exact h.attempt ih
  | read f => exact h.read f
  | exclusively f => exact h.exclusively f
  | clear => exact h.clear
  | insertOr k v replace => exact h.insertOr k v replace
  | removeIf k accept => exact h.removeIf k accept
  | replaceIf k v accept => exact h.replaceIf k v accept
  | getOrInsertWith k _ ih => exact h.getOrInsertWith k ih
  | upsertWith k _ _ bound adds updates => exact h.upsertFrom k adds updates bound [] []

end Composes

/-! ## Inserts and the growth they ask for -/

namespace Part

/-- The growth that a part asks for. Only an insert does. -/
def request? : Part κ ν → Map κ ν → Option Request
  | insert k v replace, m =>
    match (insertLocked k v replace).run m with
    | .ok (_, r) _ => r
    | .error _ _ => none
  | _, _ => none

/-- Whether a part is all there is to its operation. -/
def isWhole : Part κ ν → Bool
  | insert .. | grow _ => false
  | _ => true

end Part

/-- An insert that runs to its end sees to the growth it asks for. -/
theorem after_insertOr (k : κ) (v : ν) (replace : Bool) (m : Map κ ν) :
    (insertOr k v replace).after m =
      Part.afterAll (.insert k v replace ::
        ((Part.insert k v replace).request? m).toList.map .grow) m := by
  rw [Part.request?, Part.afterAll, List.foldl_cons, Part.after, Action.after, insertOr]
  cases run : (insertLocked k v replace).run m with
  | error f t =>
    rw [Action.run_bind_error run, Action.after_of_error run]
    rfl
  | ok x t =>
    obtain ⟨inserted, request⟩ := x
    rw [Action.run_bind_ok run, Action.after_of_ok run]
    cases request with
    | none => rfl
    | some r =>
      change _ = (grow r).after t
      rw [Action.after]
      dsimp only
      rw [Action.run_bind]
      cases (grow r).run t <;> rfl

/-! ## Where uses lead -/

/-- Operations lead from one map to another, each of them run to its end. -/
inductive Onward : Map κ ν → Map κ ν → Prop where
  | refl (m : Map κ ν) : Onward m m
  | trans {m m' m'' : Map κ ν} (first : Onward m m') (rest : Onward m' m'') : Onward m m''
  | part {p : Part κ ν} (whole : p.isWhole = true) (m : Map κ ν) : Onward m (p.after m)
  | insertOr (k : κ) (v : ν) (replace : Bool) (m : Map κ ν) :
      Onward m ((insertOr k v replace).after m)

/-- However `a` ends, it ends in a map that operations lead to. -/
def LeadsOnward (a : Action (Map κ ν) α) : Prop := ∀ m, Onward m (a.after m)

namespace LeadsOnward

theorem of_part {a : Action (Map κ ν) α} {p : Part κ ν} (whole : p.isWhole = true)
    (h : ∀ m, a.after m = p.after m) : LeadsOnward a :=
  fun m => h m ▸ .part whole m

theorem of_unchanged {a : Action (Map κ ν) α} (h : ∀ m, a.after m = m) : LeadsOnward a :=
  fun m => (h m).symm ▸ .refl m

theorem bind {a : Action (Map κ ν) α} {f : α → Action (Map κ ν) β} (first : LeadsOnward a)
    (rest : ∀ x, LeadsOnward (f x)) : LeadsOnward (a >>= f) := by
  intro m
  have h := first m
  cases run : a.run m with
  | error e t =>
    rw [Action.after_of_error run] at h
    rwa [Action.after_of_error (Action.run_bind_error run f)]
  | ok x t =>
    rw [Action.after_of_ok run] at h
    rw [Action.after, Action.run_bind_ok run, ← Action.after]
    exact .trans h (rest x t)

theorem composes : Composes (LeadsOnward (κ := κ) (ν := ν)) where
  fail _ := of_unchanged fun _ => rfl
  bind := bind
  attempt h m := (congrArg (Onward m) (Action.after_attempt _ m)).mpr (h m)
  read _ := of_unchanged fun _ => rfl
  exclusively _ := of_part (p := .look) rfl fun _ => rfl
  clear := of_part (p := .clear) rfl fun _ => rfl
  insertOr := Onward.insertOr
  removeIf k accept := of_part (p := .remove k accept) rfl fun _ => rfl
  replaceIf k v accept := of_part (p := .update k v accept) rfl fun _ => rfl
  called := of_part (p := .note .called) rfl fun _ => rfl
  retried := of_part (p := .note (.retried .mapUpdate)) rfl fun _ => rfl

end LeadsOnward

/-- Where a use of a map leads, operations do. -/
theorem Use.onward {a : Action (Map κ ν) α} (h : Use a) : LeadsOnward a :=
  LeadsOnward.composes.of_use h

/-! ## Uses come in parts -/

theorem Onward.exists_parts {m m' : Map κ ν} (h : Onward m m') :
    ∃ parts, m' = Part.afterAll parts m := by
  induction h with
  | refl m => exact ⟨[], rfl⟩
  | trans _ _ first rest =>
    obtain ⟨parts, rfl⟩ := first
    obtain ⟨parts', rfl⟩ := rest
    exact ⟨parts ++ parts', (Part.afterAll_append _ _ _).symm⟩
  | part whole m => exact ⟨[_], rfl⟩
  | insertOr k v replace m => exact ⟨_, after_insertOr k v replace m⟩

/-- However `a` ends, it ends in a map that parts of operations lead to. -/
def InParts (a : Action (Map κ ν) α) : Prop :=
  ∀ m, ∃ parts, a.after m = Part.afterAll parts m

/-- A use of a map comes in parts. -/
theorem Use.inParts {a : Action (Map κ ν) α} (h : Use a) : InParts a :=
  fun m => (h.onward m).exists_parts

/-! ## Operations are uses -/

namespace Use

theorem map {a : Action (Map κ ν) α} (h : Use a) (f : α → β) : Use (do return f (← a)) :=
  .bind h fun _ => .pure _

theorem size : Use (size : Action (Map κ ν) Nat) := .exclusively Table.total

theorem toList : Use (toList : Action (Map κ ν) (List (κ × ν))) :=
  .exclusively fun t => t.entries.map Entry.pair

theorem insertIfNew (k : κ) (v : ν) : Use (insertIfNew k v) := map (.insertOr k v false) _

theorem insert (k : κ) (v : ν) : Use (insert k v) := map (.insertOr k v true) _

theorem insertAll (entries : List (κ × ν)) : Use (insertAll entries) := by
  induction entries with
  | nil => exact .pure _
  | cons e entries ih => exact .bind (insert e.1 e.2) fun _ => ih

theorem erase? (k : κ) : Use (erase? k : Action (Map κ ν) (Option ν)) := .removeIf k _

theorem getOrInsert (k : κ) (v : ν) : Use (getOrInsert k v) := by
  refine .bind (.read id) fun m => ?_
  cases m.find? k with
  | some e => exact .pure _
  | none => exact map (.insertOr k v false) _

theorem countPassing {test : β → Action (Map κ ν) Bool} (h : ∀ x, Use (test x)) (xs : List β) :
    Use (Action.countPassing test xs) := by
  induction xs with
  | nil => exact .pure _
  | cons x xs ih => exact .bind (h x) fun passed => map ih _

theorem takeFirst (bound : Nat) : Use (takeFirst bound : Action (Map κ ν) (Option (κ × ν))) := by
  induction bound with
  | zero => exact .fail _
  | succ bound ih =>
    refine .bind (.read id) fun m => ?_
    cases (m.openCursor.next? m).1 with
    | none => exact .pure _
    | some x =>
      refine .bind (erase? x.1) fun removed => ?_
      cases removed with
      | none => exact ih
      | some v => exact .pure _

theorem copyTo (dest : List (κ × ν)) (index : Nat) :
    Use (Exchange.copyTo dest index : Action (Map κ ν) _) := by
  rw [Exchange.copyTo]
  split
  · exact .pure _
  · exact map toList _

theorem eval (f : Formula κ ν) (k : κ) (current : Option ν) :
    Use (f.eval k current : Action (Map κ ν) ν) := by
  rw [Formula.eval]
  split
  · exact .pure _
  · exact .fail _

variable [DecidableEq ν]

theorem plain (c : Plain κ ν) : Use c.run := by
  cases c with
  | insertIfNew k v => exact map (insertIfNew k v) _
  | insertNew k v => exact map (map (insertIfNew k v) _) _
  | insert k v => exact map (insert k v) _
  | insertAll es => exact map (insertAll es) _
  | insertNewAll es =>
    refine map (countPassing ?_ es) _
    exact fun e => insertIfNew e.1 e.2
  | get? k => exact .read fun m => Reply.value (m.get? k)
  | require k => exact .read fun m => Reply.ofExcept Reply.required (m.require k)
  | view k => exact .read fun m => Reply.viewed ((m.find? k).map Entry.pair)
  | contains k => exact .read fun m => Reply.flag (m.contains k)
  | countMatching es =>
    refine map (countPassing ?_ es) _
    exact fun e => .read fun m => m.get? e.1 == some e.2
  | iterate => exact .read fun m => Reply.entries m.iterate
  | display expanded => exact .read fun m => Reply.display expanded m.iterate
  | hasherName => exact .read fun m => Reply.text m.hasher.name
  | getOrInsert k v => exact map (getOrInsert k v) _
  | erase? k => exact map (erase? k) _
  | eraseAll ks => exact map (countPassing (fun k => map (erase? k) _) ks) _
  | eraseIfEq k v => exact map (map (.removeIf k _) _) _
  | replaceIfEq k v expected => exact map (.replaceIf k v _) _
  | size | exchangeCount => exact map size _
  | isEmpty => exact map (.exclusively fun t => t.counts.all (· == 0)) _
  | clear => exact map .clear _
  | toList | exchangeItems => exact map toList _
  | keys => exact map (.exclusively fun t => t.entries.map Entry.key) _
  | values => exact map (.exclusively fun t => t.entries.map Entry.value) _
  | offer k v => exact map (map (insertIfNew k v) _) _
  | exchangeTake => exact map (takeFirst 1) _
  | exchangeIsEmpty => exact map (map size _) _
  | copyTo dest index => exact map (copyTo dest index) _

mutual

theorem command : (c : Command κ ν) → Use c.run
  | .plain c => by
    rw [Command.run]
    exact plain c
  | .getOrInsertWith k script formula => by
    rw [Command.run]
    exact map (.getOrInsertWith k (.bind (ofScript script) fun _ => map (eval formula k none) _)) _
  | .upsert k v scripts formula => by
    rw [Command.run]
    refine map (.upsertWith k (fun _ => .pure _) (fun n current => ?_) _) _
    exact .bind (ofNth scripts n) fun _ => map (eval formula k (some current)) _
  | .upsertWith k adds add updates update => by
    rw [Command.run]
    refine map (.upsertWith k (fun n => ?_) (fun n current => ?_) _) _
    · exact .bind (ofNth adds n) fun _ => map (eval add k none) _
    · exact .bind (ofNth updates n) fun _ => map (eval update k (some current)) _

theorem ofScript : (cs : List (Command κ ν)) → Use (runScript cs)
  | [] => by
    rw [runScript]
    exact .pure _
  | c :: cs => by
    rw [runScript]
    exact .bind (command c) fun _ => map (ofScript cs) _

theorem ofNth : (scripts : List (List (Command κ ν))) → (n : Nat) → Use (runNth scripts n)
  | [], _ => by
    rw [runNth]
    exact .pure _
  | script :: _, 0 => by
    rw [runNth]
    exact ofScript script
  | _ :: scripts, n + 1 => by
    rw [runNth]
    exact ofNth scripts n

end

end Use

end Map

end SharedCollections

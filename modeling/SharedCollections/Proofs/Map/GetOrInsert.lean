import SharedCollections.Proofs.Map.Refinement
import SharedCollections.Proofs.Map.Upsert
/-!
# Values made for missing keys

The factory that makes a value for a missing key may work on the map itself. Only when it is done is
the value inserted, and by then the key may have a value: that one is given back, and the value that
was made is let go (`Agrees`). An insert looks its key up anew in the table that is current by then,
so it does not matter whether the factory had the table replaced.
-/

namespace SharedCollections

namespace Map

variable {κ ν β γ : Type} [DecidableEq κ] {m w : Map κ ν} {k : κ} {v : ν} {e : Entry κ ν}

/-! ## Inserting -/

omit [DecidableEq κ] in
/-- A request for growth that fails has found a stripe that cannot count its entries. -/
theorem Sound.atLimit_of_grow (h : m.Sound) {r : Request} {f : Fault} {m' : Map κ ν}
    (failed : (grow r).run m = .error f m') : ∃ s, f = .stripeOverflow s ∧ m'.AtLimit s := by
  obtain ⟨trace, run⟩ := exists_run_grow r m
  rw [failed] at run
  cases judged : m.judge r with
  | late | sparse =>
    rw [judged] at run
    cases run
  | grow regenerate =>
    rw [judged] at run
    have spec := h.grown_spec regenerate
    cases grown : m.grown regenerate with
    | ok m'' =>
      simp only [grown] at run
      cases run
    | error f' =>
      simp only [grown] at run spec
      obtain ⟨rfl, rfl⟩ := EStateM.Result.error.inj run
      obtain ⟨s, rfl, excess⟩ := spec
      exact ⟨s, rfl, .inr ⟨regenerate, excess⟩⟩

theorem run_insertOr_of_some (found : m.find? k = some e) (v : ν) :
    (insertOr k v false).run m = .ok ⟨false, e.value⟩ (guarded (m.target k).stripe m) :=
  Action.run_bind_ok (run_insertLocked_of_some found v false) _

/-- An insert of a missing key gives the key its value and leaves all others theirs, both when its
lock is given back and after the growth it asks for. -/
theorem Sound.insertOr_spec (h : m.Sound) (absent : m.find? k = none) (v : ν) :
    match (insertOr k v false).run m with
    | .ok i m' => i = ⟨true, v⟩ ∧
        ∀ j, ((insertLocked k v false).after m).get? j = (if j = k then some v else m.get? j) ∧
          m'.get? j = if j = k then some v else m.get? j
    | .error f m' => ∃ s, f = .stripeOverflow s ∧ m'.AtLimit s := by
  rw [insertOr]
  by_cases room : m.table.count (m.target k).stripe < Word.top
  · have locked := run_insertLocked_of_none absent room v false
    have value := h.get?_added absent v
    have sound : (guarded (m.target k).stripe (m.added k v)).Sound :=
      ((h.added absent v).emit _).emit _
    rw [Action.run_bind_ok locked, Action.after_of_ok locked]
    cases m.requestAfter k with
    | none => exact ⟨rfl, fun j => ⟨value j, value j⟩⟩
    | some r =>
      have growth := sound.grow_spec r
      dsimp only
      rw [Action.run_bind]
      cases run : (grow r).run (guarded (m.target k).stripe (m.added k v)) with
      | ok u m' =>
        rw [run] at growth
        exact ⟨rfl, fun j => ⟨value j, (growth j).trans (value j)⟩⟩
      | error f m' => exact sound.atLimit_of_grow run
  · rw [Action.run_bind_error (run_insertLocked_of_full absent room v false)]
    exact ⟨_, rfl, .inl (not_lt.mp room)⟩

/-! ## Calling the factory -/

section

variable {factory : Action (Map κ ν) (ν × β)}

theorem run_getOrInsertWith_of_some (found : m.find? k = some e)
    (factory : Action (Map κ ν) (ν × β)) :
    (getOrInsertWith k factory).run m = .ok (e.value, none) m := by
  rw [getOrInsertWith, Action.run_get_bind, found]
  rfl

theorem run_getOrInsertWith_of_error (missing : m.find? k = none) {f : Fault}
    (failed : factory.run (m.emit .called) = .error f w) :
    (getOrInsertWith k factory).run m = .error f w := by
  have called : (call factory).run m = .error f w := failed
  rw [getOrInsertWith, Action.run_get_bind, missing]
  exact Action.run_bind_error called _

/-- After its factory is done, the operation inserts the value that was made and does nothing else.
-/
theorem run_getOrInsertWith_of_ok (missing : m.find? k = none) {report : β}
    (made : factory.run (m.emit .called) = .ok (v, report) w) :
    (getOrInsertWith k factory).run m =
      (do return ((← insertOr k v false).value, some report) : Action (Map κ ν) _).run w := by
  have called : (call factory).run m = .ok (v, report) w := made
  rw [getOrInsertWith, Action.run_get_bind, missing]
  exact Action.run_bind_ok called _

end

/-- A factory that uses a sound map leaves it sound. -/
theorem Use.sound {α : Type} {a : Action (Map κ ν) α} (use : Use a) (h : m.Sound) :
    (a.after m).Sound := by
  obtain ⟨parts, eq⟩ := use.inParts m
  exact eq ▸ Part.sound_afterAll h parts

/-- What it comes to to ask for the value of `k` with a factory at hand. If the key is present, its
value is the answer and nothing happens at all. Otherwise the factory is called once. If it fails,
the map is left as the factory made it. If it leaves a map `w` with a value for the key, that value
is the answer and stays. If the key is still missing, it gets the value `v` that was made, which is
the answer and the value of the key from the moment at which the lock is given back; all other keys
are left as in `w`. The only fault of its own is that a stripe cannot count its entries. -/
def Agrees (k : κ) (factory : Action (Map κ ν) (ν × β)) (m : Map κ ν)
    (ending : Ending (Map κ ν) (ν × Option β)) : Prop :=
  match m.find? k with
  | some e => ending = .ok (e.value, none) m
  | none =>
    match factory.run (m.emit .called) with
    | .error f w => ending = .error f w
    | .ok (v, report) w =>
      ending = (do return ((← insertOr k v false).value, some report) : Action (Map κ ν) _).run w ∧
      match w.find? k with
      | some e => ending = .ok (e.value, some report) (guarded (w.target k).stripe w)
      | none =>
        match ending with
        | .ok (x, r) m' => x = v ∧ r = some report ∧
            ∀ j, ((insertLocked k v false).after w).get? j = (if j = k then some v else w.get? j) ∧
              m'.get? j = if j = k then some v else w.get? j
        | .error f m' => ∃ s, f = .stripeOverflow s ∧ m'.AtLimit s

theorem Sound.agrees (h : m.Sound) (k : κ) {factory : Action (Map κ ν) (ν × β)}
    (use : Use factory) : Agrees k factory m ((getOrInsertWith k factory).run m) := by
  rw [Agrees]
  cases missing : m.find? k with
  | some e => exact run_getOrInsertWith_of_some missing factory
  | none =>
    have left := use.sound (h.emit .called)
    cases made : factory.run (m.emit .called) with
    | error f w => exact run_getOrInsertWith_of_error missing made
    | ok x w =>
      obtain ⟨v, report⟩ := x
      rw [Action.after_of_ok made] at left
      have run := run_getOrInsertWith_of_ok missing made
      refine ⟨run, ?_⟩
      rw [run]
      cases found : w.find? k with
      | some e => exact Action.run_bind_ok (run_insertOr_of_some found v) _
      | none =>
        have spec := left.insertOr_spec found v
        rw [Action.run_bind]
        cases inserted : (insertOr k v false).run w with
        | ok i m' =>
          rw [inserted] at spec
          obtain ⟨rfl, values⟩ := spec
          exact ⟨rfl, rfl, values⟩
        | error f m' =>
          rw [inserted] at spec
          exact spec

/-- On a reached map, an operation that asks for the value of a key agrees with the map whatever its
factory does, and so does the one that hands an argument to its factory. -/
theorem Reached.getOrInsertWith_agrees {allowed : Map κ ν → Prop} (h : Reached allowed m) (k : κ) :
    (∀ factory : Action (Map κ ν) (ν × β), Use factory →
      Agrees k factory m ((getOrInsertWith k factory).run m)) ∧
    ∀ (factory : κ → γ → Action (Map κ ν) (ν × β)) (arg : γ), Use (factory k arg) →
      Agrees k (factory k arg) m ((getOrInsertWithArg k factory arg).run m) :=
  ⟨fun _ use => h.sound.agrees k use, fun _ _ use => h.sound.agrees k use⟩

/-- The factory adds the key itself, and another one for which the table grows: its own value is let
go, and the one it added is the answer. -/
theorem getOrInsertWith_agrees_added :
    let factory : Nat → Nat → Action (Map Nat Nat) (Nat × Nat) := fun k arg => do
      insert k 9
      insert 32 6
      return (5, arg)
    ∃ m m' : Map Nat Nat, m.pairs = [] ∧ Reached (fun _ => True) m ∧ Use (factory 1 7) ∧
      (getOrInsertWithArg 1 factory 7).run m = .ok (9, some 7) m' ∧
      m'.pairs.length = 2 ∧ m'.table.buckets.size = 11 ∧
      Agrees 1 (factory 1 7) m (.ok (9, some 7) m') := by
  intro factory
  let m : Map Nat Nat := ofConfig ⟨1, 1, true, .default, false⟩
    ⟨"identity", fun _ k => UInt64.ofNat k⟩ fun _ => 0
  have h : Reached (fun _ => True) m := .new rfl _ _
  have use : Use (factory 1 7) := .bind (.insert 1 9) fun _ => .bind (.insert 32 6) fun _ => .pure _
  have agrees := (Reached.getOrInsertWith_agrees h 1).2 factory 7 use
  obtain ⟨m', run⟩ : ∃ m', (getOrInsertWithArg 1 factory 7).run m = .ok (9, some 7) m' :=
    Action.exists_run_of_run' (by decide +kernel)
  have left : (match (getOrInsertWithArg 1 factory 7).run m with
      | .ok _ m' => (m'.pairs.length, m'.table.buckets.size)
      | .error .. => (0, 0)) = (2, 11) := by decide +kernel
  rw [run] at agrees left
  obtain ⟨pairs, buckets⟩ := Prod.mk.inj left
  exact ⟨m, m', by decide +kernel, h, use, run, pairs, buckets, agrees⟩

end Map

end SharedCollections

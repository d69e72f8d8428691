import SharedCollections.Proofs.Map.Part
/-!
# Sections

A section is a stretch of events in which stripes are taken, something is recorded, and the stripes
are given back (`critical`). A part of an operation records one section (`Part.recorded`), in which
the stripes are taken in ascending order, so that each is above all that the thread holds (`hold`).
-/

namespace SharedCollections

namespace Map

variable {κ ν α β : Type}

/-! ## Holding locks -/

/-- The stripes that a thread holds after an event, the last one taken first, if it may come while
the thread holds `held`. A stripe is taken above all that are held and given back only if it is
held; functions of the caller are called and lost races are reported with none held. -/
def holdNext (held : List Nat) : Event → Option (List Nat)
  | .locked s => if ∀ t ∈ held, t < s then some (s :: held) else none
  | .unlocked s => if s ∈ held then some (held.erase s) else none
  | .called | .retried _ => if held = [] then some [] else none
  | .resized .. | .grown _ | .logged _ => some held

/-- The stripes that a thread holds after events, if all of them may come. -/
def hold (held : List Nat) (events : List Event) : Option (List Nat) :=
  events.foldlM holdNext held

/-- The events of a section: `stripes` are taken, something is recorded, and the stripes are given
back in the order `back`. -/
def critical (stripes : List Nat) (inner : List Event) (back : List Nat) : List Event :=
  stripes.map .locked ++ inner ++ back.map .unlocked

section

variable {held stripes back : List Nat} {events events' inner : List Event}

theorem hold_append : hold held (events ++ events') = (hold held events).bind (hold · events') :=
  List.foldlM_append

theorem hold_cons (e : Event) :
    hold held (e :: events) = (holdNext held e).bind (hold · events) :=
  List.foldlM_cons

theorem hold_locked (ascending : stripes.Pairwise (· < ·))
    (above : ∀ t ∈ held, ∀ s ∈ stripes, t < s) :
    hold held (stripes.map .locked) = some (stripes.reverse ++ held) := by
  induction stripes generalizing held with
  | nil => rfl
  | cons s stripes ih =>
    obtain ⟨first, rest⟩ := List.pairwise_cons.mp ascending
    have next : holdNext held (.locked s) = some (s :: held) :=
      if_pos fun t ht => above t ht s List.mem_cons_self
    rw [List.map_cons, hold_cons, next, Option.bind_some, ih rest ?_]
    · simp
    · intro t ht u hu
      rcases List.mem_cons.mp ht with rfl | old
      · exact first u hu
      · exact above t old u (List.mem_cons_of_mem _ hu)

theorem hold_unlocked (perm : held.Perm back) : hold held (back.map .unlocked) = some [] := by
  induction back generalizing held with
  | nil => rw [perm.eq_nil]; rfl
  | cons s back ih =>
    have here : s ∈ held := perm.mem_iff.mpr List.mem_cons_self
    have next : holdNext held (.unlocked s) = some (held.erase s) := if_pos here
    have rest : (held.erase s).Perm back := by simpa using perm.erase s
    rw [List.map_cons, hold_cons, next, Option.bind_some, ih rest]

theorem hold_eq_self (quiet : ∀ e ∈ inner, ∀ held, holdNext held e = some held) :
    hold held inner = some held := by
  induction inner with
  | nil => rfl
  | cons e inner ih =>
    rw [hold_cons, quiet e List.mem_cons_self, Option.bind_some]
    exact ih fun e he => quiet e (List.mem_cons_of_mem _ he)

/-- A section that takes its stripes in ascending order ends with none held. -/
theorem hold_critical (ascending : stripes.Pairwise (· < ·))
    (quiet : ∀ e ∈ inner, ∀ held, holdNext held e = some held) (perm : stripes.Perm back) :
    hold [] (critical stripes inner back) = some [] := by
  rw [critical, hold_append, hold_append, hold_locked ascending (by simp), Option.bind_some,
    hold_eq_self quiet, Option.bind_some, List.append_nil]
  exact hold_unlocked ((List.reverse_perm _).trans perm)

end

/-! ## What parts record -/

/-- Puts events behind the trace. -/
def tell (events : List Event) (m : Map κ ν) : Map κ ν := m.retrace (m.trace ++ events.toArray)

section

variable {m m' : Map κ ν} {events events' : List Event} {n : Nat}

theorem toList_trace_tell :
    (m.tell events).trace.toList = m.trace.toList ++ events := by
  simp [tell, retrace]

theorem tell_tell : (m.tell events).tell events' = m.tell (events ++ events') := by
  simp [tell, retrace]

theorem emit_eq_tell (e : Event) : m.emit e = m.tell [e] := by
  simp [tell, retrace, emit]

theorem run_recordEach (event : Nat → Event) (first last : Nat) :
    (recordEach event first last).run m =
      .ok () (m.tell ((List.range' first (last - first)).map event)) := by
  have trace : ∀ (stripes : List Nat) (t : Trace),
      stripes.foldl (·.push <| event ·) t = t ++ (stripes.map event).toArray := by
    intro stripes t
    simp
  change EStateM.Result.ok () { m with trace := _ } = _
  rw [trace]
  rfl

theorem range_eq_cons {n : Nat} (pos : 0 < n) :
    List.range n = 0 :: List.range' 1 (n - 1) := by
  obtain ⟨n, rfl⟩ := Nat.exists_eq_succ_of_ne_zero pos.ne'
  rw [List.range_eq_range', List.range'_succ]
  rfl

/-- A computation under all locks. -/
theorem run_exclusively (pos : 0 < m.lockCount) {a : Action (Map κ ν) α} {x : α}
    {inner : List Event}
    (run : a.run (m.tell ((List.range m.lockCount).map .locked)) =
      .ok x (m'.tell ((List.range m.lockCount).map .locked ++ inner))) :
    (exclusively a).run m =
      .ok x (m'.tell (critical (.range m.lockCount) inner (.range m.lockCount))) := by
  have locked : (recordEach .locked 1 m.lockCount).run (m.tell [.locked 0]) =
      .ok () (m.tell ((List.range m.lockCount).map .locked)) := by
    rw [run_recordEach, tell_tell, range_eq_cons pos]
    rfl
  have unlocked : (recordEach .unlocked 0 m.lockCount).run
      (m'.tell ((List.range m.lockCount).map .locked ++ inner)) =
      .ok () (m'.tell (critical (.range m.lockCount) inner (.range m.lockCount))) := by
    rw [run_recordEach, tell_tell, Nat.sub_zero, ← List.range_eq_range', critical]
  rw [exclusively, record, Action.run_modify_bind, emit_eq_tell, Action.run_get_bind]
  rw [Action.run_bind_ok (by exact locked), Action.run_bind_ok run]
  rw [Action.run_bind_ok (by exact unlocked)]
  rfl

/-- The stripes of a map in the order in which growth gives them back. -/
def growthOrder (n : Nat) : List Nat := List.range' 1 (n - 1) ++ [0]

theorem range_perm_growthOrder {n : Nat} (pos : 0 < n) : (List.range n).Perm (growthOrder n) := by
  rw [range_eq_cons pos, growthOrder]
  exact (List.perm_append_singleton 0 _).symm

theorem run_giveBack (f : Unit → Action (Map κ ν) α) :
    (do recordEach .unlocked 1 n; unlock 0; f ()).run m =
      (f ()).run (m.tell ((growthOrder n).map .unlocked)) := by
  have last : (unlock 0).run (m.tell ((List.range' 1 (n - 1)).map .unlocked)) =
      .ok () (m.tell ((growthOrder n).map .unlocked)) := by
    change EStateM.Result.ok () (emit _ _) = _
    rw [emit_eq_tell, tell_tell, growthOrder, List.map_append]
    rfl
  rw [Action.run_bind_ok (run_recordEach .unlocked 1 n), Action.run_bind_ok last]

/-- What a request for growth comes to. -/
theorem run_grow (h : m.Sound) (r : Request) :
    (grow r).run m = match m.judge r with
      | .late => .ok () (m.tell (critical [0] [] [0]))
      | .sparse => .ok () (m.doubled.tell
          (critical [0] [.logged (.budgetDoubled m.doubled.budget m.table.total)] [0]))
      | .grow regenerate =>
        match m.grown regenerate with
        | .ok m' => .ok () (m'.tell (critical (.range m.lockCount)
            [.resized m'.table.buckets.size m'.lockCount,
              .logged (.tableResized m'.table.buckets.size m'.lockCount regenerate)]
            (growthOrder m.lockCount)))
        | .error f => .error f (m.tell
            (critical (.range m.lockCount) [] (growthOrder m.lockCount))) := by
  have pos : 0 < m.lockCount := h.placed.locks_pos
  have same : (m.tell [.locked 0]).judge r = m.judge r := rfl
  rw [grow, record, Action.run_modify_bind, emit_eq_tell, Action.run_get_bind, same]
  cases m.judge r with
  | late =>
    change EStateM.Result.ok () ((m.tell [.locked 0]).emit (.unlocked 0)) = _
    rw [emit_eq_tell, tell_tell]
    rfl
  | sparse =>
    change EStateM.Result.ok () (((m.doubled.tell [.locked 0]).emit _).emit (.unlocked 0)) = _
    rw [emit_eq_tell, emit_eq_tell, tell_tell, tell_tell]
    rfl
  | grow regenerate =>
    have locked : (recordEach .locked 1 m.lockCount).run (m.tell [.locked 0]) =
        .ok () (m.tell ((List.range m.lockCount).map .locked)) := by
      rw [run_recordEach, tell_tell, range_eq_cons pos]
      rfl
    dsimp only
    rw [Action.run_get_bind, Action.run_bind_ok (by exact locked)]
    cases g : m.grown regenerate with
    | ok m' =>
      obtain ⟨t, grownFrom⟩ := h.exists_grownFrom g
      have replaced : (replaceTable regenerate).run
          (m.tell ((List.range m.lockCount).map .locked)) =
          .ok () (m'.tell ((List.range m.lockCount).map .locked)) := by
        have trace : m'.trace = m.trace := by
          rw [grownFrom.eq]
          rfl
        rw [tell, tell, trace]
        exact run_replaceTable_of_ok g _
      rw [Action.run_bind_ok replaced, Action.run_get_bind, Action.run_get_bind, record,
        Action.run_modify_bind, record, Action.run_modify_bind, emit_eq_tell, emit_eq_tell,
        tell_tell, tell_tell]
      refine (run_giveBack (n := m.lockCount) pure).trans ?_
      rw [Action.run_pure, tell_tell]
      simp only [critical, List.append_assoc]
      rfl
    | error f =>
      have failed : (replaceTable regenerate).run
          (m.tell ((List.range m.lockCount).map .locked)) =
          .error f (m.tell (critical (.range m.lockCount) [] (growthOrder m.lockCount))) := by
        rw [tell, replaceTable, Action.run_mk, grown_retrace, g]
        refine (run_giveBack (n := m.lockCount) fun _ => throw f).trans ?_
        change EStateM.Result.error f (tell _ (tell _ m)) = _
        rw [tell_tell, critical, List.append_nil]
      rw [Action.run_bind_error failed]

end

namespace Part

variable {m : Map κ ν} {p : Part κ ν}

/-- What a part records. A part that is about one key takes the stripe of the key, whether or not
the key is there; one that is about the whole map takes all stripes in ascending order. Growth that
is called off has taken the first stripe only, and otherwise it takes all stripes of the table that
it replaces. -/
def recorded : Part κ ν → Map κ ν → List Event
  | insert k _ _, m | remove k _, m | update k _ _, m =>
    let stripe := (m.hashOf k).toNat % m.table.buckets.size % m.lockCount
    critical [stripe] [] [stripe]
  | look, m => critical (.range m.lockCount) [] (.range m.lockCount)
  | clear, m =>
    critical (.range m.lockCount) [.logged (.mapCleared m.cleared.budget)] (.range m.lockCount)
  | grow r, m =>
    match m.judge r with
    | .late => critical [0] [] [0]
    | .sparse => critical [0] [.logged (.budgetDoubled m.doubled.budget m.table.total)] [0]
    | .grow regenerate =>
      match m.grown regenerate with
      | .ok m' => critical (.range m.lockCount)
          [.resized m'.table.buckets.size m'.lockCount,
            .logged (.tableResized m'.table.buckets.size m'.lockCount regenerate)]
          (growthOrder m.lockCount)
      | .error _ => critical (.range m.lockCount) [] (growthOrder m.lockCount)
  | note e, _ => [e]

/-- A part ends with nothing held, if what it records outside of a section leaves nothing held. -/
theorem hold_recorded (h : m.Sound) (p : Part κ ν)
    (notes : ∀ e, p = .note e → hold [] [e] = some []) : hold [] (p.recorded m) = some [] := by
  have pos : 0 < m.lockCount := h.placed.locks_pos
  have all : (List.range m.lockCount).Pairwise (· < ·) := List.pairwise_lt_range
  have one : ∀ s : Nat, [s].Pairwise (· < ·) := fun s => List.pairwise_singleton _ s
  cases p with
  | insert | remove | update => exact hold_critical (one _) nofun (.refl _)
  | look => exact hold_critical all nofun (.refl _)
  | clear => exact hold_critical all (by simp [holdNext]) (.refl _)
  | note e => exact notes e rfl
  | grow r =>
    rw [recorded]
    cases m.judge r with
    | late => exact hold_critical (one 0) nofun (.refl _)
    | sparse => exact hold_critical (one 0) (by simp [holdNext]) (.refl _)
    | grow regenerate =>
      dsimp only
      cases m.grown regenerate with
      | ok m' => exact hold_critical all (by simp [holdNext]) (range_perm_growthOrder pos)
      | error f => exact hold_critical all nofun (range_perm_growthOrder pos)

theorem toList_trace_guarded {m' : Map κ ν} (same : m'.trace = m.trace) (s : Nat) :
    (guarded s m').trace.toList = m.trace.toList ++ critical [s] [] [s] := by
  simp [guarded, emit, critical, same]

theorem toList_trace_grow (h : m.Sound) (r : Request) :
    ((Map.grow r).after m).trace.toList = m.trace.toList ++ recorded (grow r : Part κ ν) m := by
  have run := run_grow h r
  rw [recorded]
  cases judged : m.judge r with
  | late =>
    rw [judged] at run
    rw [Action.after_of_ok run]
    exact toList_trace_tell
  | sparse =>
    rw [judged] at run
    rw [Action.after_of_ok run]
    exact toList_trace_tell
  | grow regenerate =>
    rw [judged] at run
    dsimp only
    cases g : m.grown regenerate with
    | ok m' =>
      obtain ⟨t, grownFrom⟩ := h.exists_grownFrom g
      have trace : m'.trace = m.trace := by
        rw [grownFrom.eq]
        rfl
      simp only [g] at run
      rw [Action.after_of_ok run, toList_trace_tell, trace]
    | error f =>
      simp only [g] at run
      rw [Action.after_of_error run]
      exact toList_trace_tell

variable [DecidableEq κ]

theorem toList_trace_insert (k : κ) (v : ν) (replace : Bool) :
    ((insertLocked k v replace).after m).trace.toList =
      m.trace.toList ++ critical [(m.target k).stripe] [] [(m.target k).stripe] := by
  cases found : m.find? k with
  | some e =>
    rw [Action.after_of_ok (run_insertLocked_of_some found v replace)]
    exact toList_trace_guarded (by cases replace <;> rfl) _
  | none =>
    by_cases room : m.table.count (m.target k).stripe < Word.top
    · rw [Action.after_of_ok (run_insertLocked_of_none found room v replace)]
      exact toList_trace_guarded (by rfl) _
    · rw [Action.after_of_error (run_insertLocked_of_full found room v replace)]
      exact toList_trace_guarded (by rfl) _

theorem toList_trace_remove (k : κ) (accept : ν → Bool) :
    ((removeIf k accept).after m).trace.toList =
      m.trace.toList ++ critical [(m.target k).stripe] [] [(m.target k).stripe] := by
  cases found : m.find? k with
  | none =>
    rw [Action.after_of_ok (run_removeIf_of_none found accept)]
    exact toList_trace_guarded rfl _
  | some e =>
    rw [Action.after_of_ok (run_removeIf_of_some found accept)]
    exact toList_trace_guarded (by split <;> rfl) _

theorem toList_trace_update (k : κ) (v : ν) (accept : Entry κ ν → Bool) :
    ((replaceIf k v accept).after m).trace.toList =
      m.trace.toList ++ critical [(m.target k).stripe] [] [(m.target k).stripe] := by
  cases found : m.find? k with
  | none =>
    rw [Action.after_of_ok (run_replaceIf_of_none found v accept)]
    exact toList_trace_guarded rfl _
  | some e =>
    rw [Action.after_of_ok (run_replaceIf_of_some found v accept)]
    exact toList_trace_guarded (by split <;> rfl) _

/-- A part puts what it records behind the trace. -/
theorem toList_trace_after (h : m.Sound) (p : Part κ ν) :
    (p.after m).trace.toList = m.trace.toList ++ p.recorded m := by
  have pos : 0 < m.lockCount := h.placed.locks_pos
  cases p with
  | insert k v replace => exact toList_trace_insert k v replace
  | remove k accept => exact toList_trace_remove k accept
  | update k v accept => exact toList_trace_update k v accept
  | grow r => exact toList_trace_grow h r
  | look =>
    have run : size.run m = .ok m.table.total
        (m.tell (critical (.range m.lockCount) [] (.range m.lockCount))) := by
      refine run_exclusively pos ?_
      rw [List.append_nil]
      rfl
    rw [after, Action.after_of_ok run]
    exact toList_trace_tell
  | clear =>
    have run : Map.clear.run m = .ok () (m.cleared.tell (critical (.range m.lockCount)
        [.logged (.mapCleared m.cleared.budget)] (.range m.lockCount))) := by
      refine run_exclusively pos ?_
      rw [← tell_tell, ← emit_eq_tell]
      rfl
    rw [after, Action.after_of_ok run]
    exact toList_trace_tell
  | note e => exact Array.toList_push

/-- What parts record one after the other. -/
def recordedAll : List (Part κ ν) → Map κ ν → List Event
  | [], _ => []
  | p :: parts, m => p.recorded m ++ recordedAll parts (p.after m)

theorem toList_trace_afterAll (h : m.Sound) (parts : List (Part κ ν)) :
    (afterAll parts m).trace.toList = m.trace.toList ++ recordedAll parts m := by
  induction parts generalizing m with
  | nil => exact (List.append_nil _).symm
  | cons p parts ih =>
    change (afterAll parts (p.after m)).trace.toList = _
    rw [ih (h.change (p.change m)), toList_trace_after h, recordedAll, List.append_assoc]

/-- Parts one after the other end with nothing held, if what is recorded in between leaves nothing
held. -/
theorem hold_recordedAll (h : m.Sound) {parts : List (Part κ ν)}
    (notes : ∀ e, .note e ∈ parts → hold [] [e] = some []) :
    hold [] (recordedAll parts m) = some [] := by
  induction parts generalizing m with
  | nil => rfl
  | cons p parts ih =>
    have first : hold [] (p.recorded m) = some [] :=
      hold_recorded h p fun e eq => notes e (eq ▸ List.mem_cons_self)
    rw [recordedAll, hold_append, first, Option.bind_some]
    exact ih (h.change (p.change m)) fun e he => notes e (List.mem_cons_of_mem _ he)

end Part

end Map

end SharedCollections

import SharedCollections.Proofs.Slot
import SharedCollections.Proofs.Stack.Ranges
/-!
# Threads on a stack, interleaved

Whatever the schedule, a range goes on the stack and comes off it as one (`Sure`). An exchange that
succeeds finds the head that was loaded, and there is only one way from a node to the end, so the
nodes that were seen since are still those on top.
-/

namespace SharedCollections.Stack

variable {α : Type} {m m' : Stack α} {o o' : Owners} {past : List (Nat × Deed α)} {t : Nat}
  {x y : Option Nat} {l behind : List (Node α)} {values : List α} {count : Nat}

/-! ## What is on the stack -/

/-- The nodes from the head down belong to no thread, and have the values that the history says. -/
def Tallies (m : Stack α) (o : Owners) (past : List (Nat × Deed α)) : Prop :=
  ∃ l, Shared m o m.head l ∧ l.map Node.value = (ledger past).contents

/-- What a step does to the nodes on the stack. A push that succeeds puts its own nodes on top of
those that are there at that moment, and a pop takes off as many as it may of those on top; an
exchange that fails writes nothing. -/
def Point.Acts (m m' : Stack α) : Point α → Prop
  | .pushing values (.exchanging top bottom seen) =>
    if m.head = seen then ∃ own, m'.chain = own ++ m.chain ∧ own.map Node.value = values.reverse ∧
      own.head?.map Node.id = some top ∧ own.getLast?.map Node.id = some bottom
    else m'.head = m.head ∧ m'.cells = m.cells
  | .popping count (.exchanging first passed _) =>
    if m.head = some first then
      m'.chain = m.chain.drop count ∧ passed = min count m.chain.length
    else m'.head = m.head ∧ m'.cells = m.cells
  | .clearing => m'.chain = []
  | _ => m'.chain = m.chain

/-! ## Steps -/

/-- What a step of thread `t` comes to. -/
structure Stepped (t : Nat) (m : Stack α) (o : Owners) (past : List (Nat × Deed α))
    (point : Point α) : Prop where
  goes : ∃ o', Moves t m o (point.step m).2 o' ∧
    Tallies (point.step m).2 o' (past ++ (point.deed m).toList.map (t, ·)) ∧
    At (point.step m).2 o' (past ++ (point.deed m).toList.map (t, ·)) t (point.step m).1.point?
  right : ∀ d ∈ point.deed m, Right t past d
  acts : point.Acts m (point.step m).2

namespace Stepped

variable {point : Point α} {progress : Progress (Point α) (Outcome α)}

/-- A step that is a deed. -/
theorem deed {d : Deed α} (step : point.step m = (progress, m'))
    (deed : point.deedOf progress = some d) (moves : Moves t m o m' o')
    (holds : Tallies m' o' (past ++ [(t, d)])) (right : Right t past d)
    (stands : At m' o' (past ++ [(t, d)]) t progress.point?) (acts : point.Acts m m') :
    Stepped t m o past point := by
  have eq : point.deed m = some d := by rw [Point.deed, step, deed]
  constructor
  · rw [eq, step]
    exact ⟨o', moves, holds, stands⟩
  · intro d' hd
    rw [eq, Option.mem_some_iff] at hd
    exact hd ▸ right
  · rwa [step]

/-- A step that is none leaves the nodes on the stack as they are. -/
theorem quiet (holds : Tallies m o past) (step : point.step m = (progress, m'))
    (none : point.deedOf progress = none) (moves : Moves t m o m' o') (head : m'.head = m.head)
    (stands : At m' o' past t progress.point?) (acts : m'.chain = m.chain → point.Acts m m') :
    Stepped t m o past point := by
  obtain ⟨l, shared, contents⟩ := holds
  have eq : point.deed m = .none := by rw [Point.deed, step, none]
  have shared' : Shared m' o' m'.head l := head ▸ shared.kept moves
  constructor
  · rw [eq, step, Option.toList_none, List.map_nil, List.append_nil]
    exact ⟨o', moves, ⟨l, shared', contents⟩, stands⟩
  · intro d hd
    rw [eq] at hd
    cases hd
  · rw [step]
    exact acts (shared'.leads.chain_eq.trans shared.leads.chain_eq.symm)

end Stepped

/-- A thread that has done its last deed has nothing to do any more. -/
theorem at_ended {d : Deed α} (ends : d.Ends) : At m o (past ++ [(t, d)]) t none := by
  intro d' hd
  rw [lastDeed_append_self] at hd
  exact Option.mem_some_iff.mp hd ▸ ends

/-! ## Pushing -/

/-- An exchange that succeeds puts the nodes of the thread on top of those that are there. -/
theorem Tallies.stepped_put (h : Tallies m o past) {top bottom : Nat}
    (called : lastDeed t past = some (.called (.push values)))
    (built : Built m o t top bottom values m.head) :
    Stepped t m o past (.pushing values (.exchanging top bottom m.head)) := by
  obtain ⟨nodes, shared, contents⟩ := h
  obtain ⟨l, own, eq⟩ := built
  have step : (Point.pushing values (.exchanging top bottom m.head)).step m =
      (.done .done, { m with head := some top }) := by
    simp [Point.step, Pushing.step]
  have published := own.publish shared
  refine .deed step rfl (.give rfl) ⟨_, published, ?_⟩ called (at_ended trivial) ?_
  · rw [ledger_append, List.map_append, eq, contents]
    rfl
  · rw [Point.Acts, if_pos rfl]
    refine ⟨l, ?_, eq, own.head?_eq, own.getLast?_eq⟩
    rw [published.leads.chain_eq, shared.leads.chain_eq]

theorem Tallies.stepped_pushing (h : Tallies m o past) {point : Pushing α}
    (at_ : At m o past t (some (.pushing values point))) :
    Stepped t m o past (.pushing values point) := by
  obtain ⟨called, at_⟩ := at_
  cases point with
  | starting v rest =>
    obtain rfl : values = v :: rest := at_
    exact .quiet h rfl rfl (.alloc v none) rfl ⟨called, [v], none, rfl, _, .alloc_first v, rfl⟩ id
  | building top bottom rest =>
    obtain ⟨built, y, rfl, l, own, eq⟩ := at_
    cases rest with
    | nil =>
      rw [List.append_nil] at called ⊢
      exact .quiet h rfl rfl (.still rfl) rfl ⟨called, y, l, own, eq⟩ id
    | cons v rest =>
      refine .quiet h rfl rfl (.alloc v (some top)) rfl
        ⟨called, built ++ [v], y, List.append_cons .., _, own.alloc v, ?_⟩ id
      rw [List.map_cons, eq, List.reverse_append]
      rfl
  | loading top bottom =>
    obtain ⟨y, built⟩ := at_
    exact .quiet h rfl rfl (.still rfl) rfl ⟨called, y, built⟩ id
  | linking top bottom seen =>
    obtain ⟨y, l, own, eq⟩ := at_
    have moves : Moves t m o (m.link bottom seen) o :=
      .modifyCell _ (fun _ => rfl) fun others => absurd own.mine_bottom others
    exact .quiet h rfl rfl moves rfl ⟨called, l, own.link seen, eq⟩ id
  | exchanging top bottom seen =>
    by_cases same : m.head = seen
    · subst same
      exact h.stepped_put called at_
    · have step : (Point.pushing values (.exchanging top bottom seen)).step m =
          (.next (.pushing values (.loading top bottom)), m.emit (.retried .stackPush)) := by
        simp [Point.step, Pushing.step, same]
      obtain ⟨l, own, eq⟩ := at_
      have own' : Own (m.emit (.retried .stackPush)) o t top bottom l seen :=
        { own with leads := own.leads.mono fun _ _ c cell => ⟨c, cell, rfl, rfl⟩ }
      refine .quiet h step rfl (.still rfl) rfl ⟨called, seen, l, own', eq⟩ fun _ => ?_
      rw [Point.Acts, if_neg same]
      exact ⟨rfl, rfl⟩

/-! ## Walking -/

theorem Tallies.stepped_loading (h : Tallies m o past) (pos : 0 < count)
    (called : lastDeed t past = some (.called (.pop count))) :
    Stepped t m o past (.popping count .loading) := by
  obtain ⟨nodes, shared, contents⟩ := id h
  cases head : m.head with
  | none =>
    have step : (Point.popping count .loading).step m = (.done (.popped []), m) := by
      simp [Point.step, Popping.step, head]
    obtain rfl := (head ▸ shared).eq_nil
    refine .deed step rfl (.still rfl) ⟨_, shared, ?_⟩ ?_ (at_ended trivial) rfl
    · rw [ledger_append]
      exact contents
    · exact .inr ⟨count, called, rfl, .inr contents.symm⟩
  | some a =>
    have step : (Point.popping count .loading).step m =
        (.next (.popping count (.walking a a 1)), m) := by
      simp [Point.step, Popping.step, head]
    have top : Shared m o (some a) nodes := head ▸ shared
    obtain ⟨v, behind, rfl⟩ := top.exists_eq_cons
    exact .quiet h step rfl (.still rfl) rfl ⟨pos, called, [], v, behind, top, rfl, pos⟩ id

section

variable {first last : Nat} {before : List (Node α)} {v : α}
  (seen : Shared m o (some first) (before ++ ⟨last, v⟩ :: behind))

include seen

/-- A thread that has walked as far as it may can exchange the head for what is below. -/
theorem at_exchanging (below : Shared m o y behind)
    (all : before.length + 1 = min count (before.length + 1 + behind.length)) :
    ∃ l behind, Shared m o (some first) (l ++ behind) ∧ Shared m o y behind ∧
      before.length + 1 = l.length ∧ before.length + 1 = min count (l.length + behind.length) := by
  have length : (before ++ [(⟨last, v⟩ : Node α)]).length = before.length + 1 := List.length_append
  refine ⟨before ++ [⟨last, v⟩], behind, ?_, below, length.symm, ?_⟩
  · rwa [List.append_assoc]
  · rwa [length]

theorem Tallies.stepped_walking (h : Tallies m o past) (pos : 0 < count)
    (called : lastDeed t past = some (.called (.pop count))) (le : before.length + 1 ≤ count) :
    Stepped t m o past (.popping count (.walking first last (before.length + 1))) := by
  obtain ⟨c, cell, -, below⟩ := seen.cell
  by_cases more : before.length + 1 < count
  · cases next : c.next with
    | none =>
      have step : (Point.popping count (.walking first last (before.length + 1))).step m =
          (.next (.popping count (.closing first last (before.length + 1))), m) := by
        simp [Point.step, Popping.step, onCell, cell, more, next]
      obtain rfl := (next ▸ below).eq_nil
      exact .quiet h step rfl (.still rfl) rfl
        ⟨pos, called, before, v, [], seen, rfl, (Nat.min_eq_right le).symm⟩ id
    | some a =>
      have step : (Point.popping count (.walking first last (before.length + 1))).step m =
          (.next (.popping count (.walking first a (before.length + 1 + 1))), m) := by
        simp [Point.step, Popping.step, onCell, cell, more, next]
      obtain ⟨w, behind, rfl⟩ := (next ▸ below).exists_eq_cons
      refine .quiet h step rfl (.still rfl) rfl
        ⟨pos, called, before ++ [⟨last, v⟩], w, behind, ?_, ?_, more⟩ id
      · rwa [List.append_assoc]
      · rw [List.length_append, List.length_singleton]
  · have step : (Point.popping count (.walking first last (before.length + 1))).step m =
        (.next (.popping count (.exchanging first (before.length + 1) c.next)), m) := by
      simp [Point.step, Popping.step, onCell, cell, more]
    exact .quiet h step rfl (.still rfl) rfl
      ⟨pos, called, at_exchanging seen below (by omega)⟩ id

theorem Tallies.stepped_closing (h : Tallies m o past) (pos : 0 < count)
    (called : lastDeed t past = some (.called (.pop count)))
    (all : before.length + 1 = min count (before.length + 1 + behind.length)) :
    Stepped t m o past (.popping count (.closing first last (before.length + 1))) := by
  obtain ⟨c, cell, -, below⟩ := seen.cell
  have step : (Point.popping count (.closing first last (before.length + 1))).step m =
      (.next (.popping count (.exchanging first (before.length + 1) c.next)), m) := by
    simp [Point.step, Popping.step, onCell, cell]
  exact .quiet h step rfl (.still rfl) rfl ⟨pos, called, at_exchanging seen below all⟩ id

end

/-! ## Taking nodes off -/

/-- An exchange that succeeds takes off the nodes that were seen: they are still on top, for there
is one way from the first of them to the end. -/
theorem Tallies.stepped_unlink (h : Tallies m o past) {first : Nat} {below : Option Nat}
    (pos : 0 < count) (called : lastDeed t past = some (.called (.pop count)))
    (same : m.head = some first) (seen : Shared m o (some first) (l ++ behind))
    (rest : Shared m o below behind)
    (all : l.length = min count (l.length + behind.length)) :
    Stepped t m o past (.popping count (.exchanging first l.length below)) := by
  obtain ⟨drop, take⟩ := drop_passed all
  have step : (Point.popping count (.exchanging first l.length below)).step m =
      (.next (.popping count (.following (some first) l.length [])), { m with head := below }) := by
    simp [Point.step, Popping.step, same]
  obtain ⟨nodes, shared, contents⟩ := h
  obtain rfl : nodes = l ++ behind := (same ▸ shared).leads.unique seen.leads
  have moves : Moves t m o { m with head := below } o := .still rfl
  have held : (ledger (past ++ [(t, .unlinked count)])).heldBy t = some (l.map Node.value) := by
    rw [ledger_append, ← take, List.map_take, contents]
    exact List.lookup_cons_self
  refine .deed step rfl moves ⟨behind, rest.kept moves, ?_⟩ ⟨called, pos, ?_⟩
    ⟨pos, lastDeed_append_self _, l, behind, seen.kept moves, rfl, held⟩ ?_
  · rw [ledger_append, ← drop, List.map_drop, contents]
    rfl
  · rw [← contents]
    obtain ⟨v, l', eq⟩ := seen.exists_eq_cons
    rw [eq]
    exact List.cons_ne_nil _ _
  · rw [Point.Acts, if_pos same, shared.leads.chain_eq, (rest.kept moves).leads.chain_eq, drop,
      List.length_append]
    exact ⟨rfl, all⟩

theorem Tallies.stepped_following (h : Tallies m o past) (pos : 0 < count)
    (off : lastDeed t past = some (.unlinked count)) (seen : Shared m o x (l ++ behind))
    (held : (ledger past).heldBy t = some (values.reverse ++ l.map Node.value)) :
    Stepped t m o past (.popping count (.following x l.length values)) := by
  cases l with
  | nil =>
    obtain ⟨nodes, shared, contents⟩ := h
    have step : (Point.popping count (.following x 0 values)).step m =
        (.done (.popped values.reverse), m) := rfl
    rw [List.map_nil, List.append_nil] at held
    refine .deed step rfl (.still rfl) ⟨nodes, shared, ?_⟩ (.inl ⟨count, off, held⟩)
      (at_ended trivial) rfl
    rw [ledger_append]
    exact contents
  | cons n l =>
    obtain rfl := seen.leads.1
    obtain ⟨c, cell, -, below⟩ := Shared.cell (l := []) seen
    have step : (Point.popping count (.following (some n.id) (l.length + 1) values)).step m =
        (.next (.popping count (.taking n.id c.next l.length values .marking)), m) := by
      simp [Point.step, Popping.step, onCell, cell]
    exact .quiet h step rfl (.still rfl) rfl
      ⟨pos, off, n.value, l, behind, seen, below, rfl, held⟩ id

section

variable {a : Nat} {v : α} (seen : Shared m o (some a) (⟨a, v⟩ :: (l ++ behind)))
  (below : Shared m o x (l ++ behind))
  (off : lastDeed t past = some (.unlinked count))
  (held : (ledger past).heldBy t = some (values.reverse ++ v :: l.map Node.value))

include seen below off held

theorem Tallies.stepped_taking (h : Tallies m o past) (pos : 0 < count) (point : Slot.Taking) :
    Stepped t m o past (.popping count (.taking a x l.length values point)) := by
  obtain ⟨c, cell, -, -⟩ := Shared.cell (l := []) seen
  have moves : Moves t m o (m.modifyCell a ({ · with slot := (point.step c.slot).2 })) o :=
    .modifyCell _ (fun _ => rfl) fun _ _ => rfl
  rcases point.step_eq c.slot with more | done
  · have step : (Point.popping count (.taking a x l.length values point)).step m =
        (.next (.popping count (.taking a x l.length values .waiting)),
          m.modifyCell a ({ · with slot := (point.step c.slot).2 })) := by
      simp [Point.step, Popping.step, stepSlot, cell, more]
    exact .quiet h step rfl moves rfl
      ⟨pos, off, v, l, behind, seen.kept moves, below.kept moves, rfl, held⟩ id
  · have step : (Point.popping count (.taking a x l.length values point)).step m =
        (.next (.popping count (.moving a x l.length values)),
          m.modifyCell a ({ · with slot := (point.step c.slot).2 })) := by
      simp [Point.step, Popping.step, stepSlot, cell, done]
    exact .quiet h step rfl moves rfl
      ⟨pos, off, v, l, behind, seen.kept moves, below.kept moves, rfl, held⟩ id

theorem Tallies.stepped_moving (h : Tallies m o past) (pos : 0 < count) :
    Stepped t m o past (.popping count (.moving a x l.length values)) := by
  obtain ⟨c, cell, value, -⟩ := Shared.cell (l := []) seen
  have step : (Point.popping count (.moving a x l.length values)).step m =
      (.next (.popping count (.following x l.length (v :: values))), m) := by
    simp [Point.step, Popping.step, onCell, cell, value]
  refine .quiet h step rfl (.still rfl) rfl ⟨pos, off, l, behind, below, rfl, ?_⟩ id
  rw [held, List.reverse_cons, List.append_assoc]
  rfl

end

theorem Tallies.stepped_popping (h : Tallies m o past) {point : Popping α}
    (at_ : At m o past t (some (.popping count point))) :
    Stepped t m o past (.popping count point) := by
  obtain ⟨pos, at_⟩ := at_
  cases point with
  | loading => exact h.stepped_loading pos at_
  | walking first last passed =>
    obtain ⟨called, before, v, behind, seen, rfl, le⟩ := at_
    exact h.stepped_walking seen pos called le
  | closing first last passed =>
    obtain ⟨called, before, v, behind, seen, rfl, all⟩ := at_
    exact h.stepped_closing seen pos called all
  | exchanging first passed below =>
    obtain ⟨called, l, behind, seen, rest, rfl, all⟩ := at_
    by_cases same : m.head = some first
    · exact h.stepped_unlink pos called same seen rest all
    · have step : (Point.popping count (.exchanging first l.length below)).step m =
          (.next (.popping count .loading), m.emit (.retried .stackPop)) := by
        simp [Point.step, Popping.step, same]
      refine .quiet h step rfl (.still rfl) rfl ⟨pos, called⟩ fun _ => ?_
      rw [Point.Acts, if_neg same]
      exact ⟨rfl, rfl⟩
  | following current left values =>
    obtain ⟨off, l, behind, seen, rfl, held⟩ := at_
    exact h.stepped_following pos off seen held
  | taking a next left values point =>
    obtain ⟨off, v, l, behind, seen, below, rfl, held⟩ := at_
    exact h.stepped_taking seen below off held pos point
  | moving a next left values =>
    obtain ⟨off, v, l, behind, seen, below, rfl, held⟩ := at_
    exact h.stepped_moving seen below off held pos

/-! ## Other operations -/

theorem moves_stepSlot {π ρ : Type} (a : Nat) (step : Cell α → Progress π ρ × Slot) :
    Moves t m o (m.stepSlot a step).2 o := by
  rw [stepSlot]
  split
  · exact .modifyCell _ (fun _ => rfl) fun _ _ => rfl
  · exact .still rfl

theorem head_stepSlot {π ρ : Type} (a : Nat) (step : Cell α → Progress π ρ × Slot) :
    (m.stepSlot a step).2.head = m.head := by
  rw [stepSlot]
  split <;> rfl

theorem moves_peeking (point : Peeking α) :
    Moves t m o (point.step m).2 o ∧ (point.step m).2.head = m.head := by
  cases point with
  | loading => exact ⟨.still rfl, rfl⟩
  | reading a point => exact ⟨moves_stepSlot a _, head_stepSlot a _⟩

theorem moves_visiting (point : Visiting α) :
    Moves t m o (point.step m).2 o ∧ (point.step m).2.head = m.head := by
  cases point with
  | seeking c =>
    cases c with
    | none => exact ⟨.still rfl, rfl⟩
    | some a =>
      rw [Visiting.step, onCell]
      split <;> exact ⟨.still rfl, rfl⟩
  | reading a c point => exact ⟨moves_stepSlot a _, head_stepSlot a _⟩

/-- A look at the top finds a node there, unless there is none. -/
theorem Peeking.At.step {point : Peeking α} (h : point.At m)
    (top : ∀ a, m.head = some a → a < m.cells.size) :
    (point.step m).1.Holds (Peeking.At (point.step m).2) fun v => v = none → m.head = none := by
  cases point with
  | loading =>
    cases head : m.head with
    | none => simp [Peeking.step, head, Progress.Holds]
    | some a => simpa [Peeking.step, head, Progress.Holds, Peeking.At] using top a head
  | reading a point =>
    have inside : a < m.cells.size := by
      rcases point with _ | _ | _ | _ <;> first | exact h.elim | exact h
    have inside' : ∀ f, a < (m.modifyCell a f).cells.size := by
      intro f
      rwa [modifyCell, Array.size_modify]
    have cell := Array.getElem?_eq_getElem inside
    rcases point with _ | _ | _ | seen
    · simp only [Peeking.step, stepSlot, cell, Slot.Reading.step]
      split <;> exact inside' _
    · simp only [Peeking.step, stepSlot, cell, Slot.Reading.step]
      exact inside' _
    · exact h.elim
    · simp only [Peeking.step, stepSlot, cell, Slot.Reading.step]
      cases seen with
      | none => trivial
      | some v => exact nofun

/-- Thread `t` can be sure of what it has to be where its call goes on, and where it ends the answer
or the fault is right. -/
def GoesRight (m : Stack α) (o : Owners) (past : List (Nat × Deed α)) (t : Nat) :
    Progress (Point α) (Outcome α) → Prop
  | .next point => At m o past t (some point)
  | .done r => Right t past (.answered r)
  | .fail f => Right t past (.failed f)

/-- A call that only looks at the stack. -/
theorem Tallies.stepped_looking (h : Tallies m o past) {point : Point α}
    {progress : Progress (Point α) (Outcome α)} (step : point.step m = (progress, m'))
    (plain : point.deedOf progress = Deed.ofProgress progress)
    (moves : Moves t m o m' o) (head : m'.head = m.head)
    (goes : GoesRight m' o past t progress)
    (acts : m'.chain = m.chain → point.Acts m m') : Stepped t m o past point := by
  obtain ⟨l, shared, contents⟩ := id h
  have shared' : Shared m' o m'.head l := head ▸ shared.kept moves
  have acts := acts (shared'.leads.chain_eq.trans shared.leads.chain_eq.symm)
  cases progress with
  | next q => exact .quiet h step plain moves head goes fun _ => acts
  | done r =>
    refine .deed step plain moves ⟨l, shared', ?_⟩ goes (at_ended trivial) acts
    rw [ledger_append]
    cases r <;> exact contents
  | fail f =>
    refine .deed step plain moves ⟨l, shared', ?_⟩ goes (at_ended trivial) acts
    rw [ledger_append]
    exact contents

/-- A call that has nothing to do answers what it has to. -/
theorem right_of_begin {op : Operation α} {r : Outcome α}
    (called : lastDeed t past = some (.called op)) (begin : op.begin = .ready r) :
    Right t past (.answered r) := by
  cases op with
  | push values =>
    cases values with
    | nil =>
      cases begin
      exact called
    | cons => cases begin
  | pop count =>
    cases count with
    | zero =>
      cases begin
      exact .inr ⟨0, called, rfl, .inl rfl⟩
    | succ => cases begin
  | _ => cases begin

/-- Every step moves what the thread may move at its point, and after it the thread stands where it
says it does. -/
theorem Tallies.stepped (h : Tallies m o past) {point : Point α}
    (at_ : At m o past t (some point)) :
    Stepped t m o past point := by
  cases point with
  | pushing values point => exact h.stepped_pushing at_
  | popping count point => exact h.stepped_popping at_
  | peeking point =>
    obtain ⟨called, at_⟩ := at_
    obtain ⟨moves, head⟩ := moves_peeking (t := t) (o := o) (m := m) point
    obtain ⟨l, shared, contents⟩ := id h
    have goes := at_.step fun a top => by
      obtain ⟨v, l', rfl⟩ := (top ▸ shared).exists_eq_cons
      exact shared.leads.lt_size (n := ⟨a, v⟩) List.mem_cons_self
    have empty : m.head = none → (ledger past).contents = [] := by
      intro top
      obtain rfl := (top ▸ shared).eq_nil
      exact contents.symm
    have step : (Point.peeking point).step m =
        ((point.step m).1.lift .peeking fun v => .done (.seen v), (point.step m).2) := rfl
    generalize point.step m = x at moves head goes step
    obtain ⟨progress, m'⟩ := x
    refine h.stepped_looking step rfl moves head ?_ id
    cases progress with
    | next => exact ⟨called, goes⟩
    | done => exact ⟨called, fun none => empty (goes none)⟩
    | fail => exact goes.elim
  | visiting point =>
    obtain ⟨moves, head⟩ := moves_visiting (t := t) (o := o) (m := m) point
    have step : (Point.visiting point).step m =
        ((point.step m).1.lift .visiting fun x => .done (.visited x.1 x.2), (point.step m).2) := rfl
    generalize point.step m = x at moves head step
    obtain ⟨progress, m'⟩ := x
    refine h.stepped_looking step rfl moves head ?_ id
    cases progress <;> exact at_
  | ready outcome =>
    obtain ⟨op, called, begin⟩ := at_
    refine h.stepped_looking rfl rfl (.still rfl) rfl (right_of_begin called begin) id
  | capturing => exact h.stepped_looking rfl rfl (.still rfl) rfl at_ id
  | clearing =>
    have none : Shared { m with head := none } o none [] := ⟨rfl, nofun⟩
    refine .deed rfl rfl (.still rfl) ⟨[], none, ?_⟩ at_ (at_ended trivial) none.leads.chain_eq
    rw [ledger_append]
    rfl

/-! ## Runs -/

variable {μ : Type} {c : Crew (Stack α) (Point α) μ}

/-- What holds of a stack and its past at any moment. -/
structure Sure (c : Crew (Stack α) (Point α) μ) (past : List (Nat × Deed α)) (o : Owners) :
    Prop where
  holds : Tallies c.shared o past
  stands : ∀ t thread, c.threads[t]? = some thread → At c.shared o past t thread.point
  right : AllDeeds Right past

theorem Sure.idle (memories : List μ) :
    Sure (Crew.idle (empty : Stack α) memories) [] fun _ => none where
  holds := ⟨[], ⟨rfl, nofun⟩, rfl⟩
  stands t thread here := by
    obtain ⟨memory, -, rfl⟩ := List.mem_map.mp (List.mem_of_getElem? here)
    exact nofun
  right := allDeeds_nil

theorem At.begun (op : Operation α) :
    At m o (past ++ [(t, .called op)]) t (some op.begin) := by
  have called : lastDeed t (past ++ [(t, .called op)]) = some (.called op) :=
    lastDeed_append_self _
  cases op with
  | push values =>
    cases values with
    | nil => exact ⟨_, called, rfl⟩
    | cons v values => exact ⟨called, rfl⟩
  | pop count =>
    cases count with
    | zero => exact ⟨_, called, rfl⟩
    | succ count => exact ⟨Nat.succ_pos count, called⟩
  | peek => exact ⟨called, trivial⟩
  | visit c => exact ⟨c, called⟩
  | clear | capture => exact called

/-- A thread that does something stays sure, and so do the others. -/
theorem Sure.set (h : Sure c past o) {thread : Thread (Point α) μ} {d : Option (Deed α)}
    (moves : Moves t c.shared o m' o') (holds : Tallies m' o' (past ++ d.toList.map (t, ·)))
    (right : ∀ x ∈ d, Right t past x)
    (stands : At m' o' (past ++ d.toList.map (t, ·)) t thread.point) :
    Sure ⟨m', c.threads.set t thread⟩ (past ++ d.toList.map (t, ·)) o' where
  holds := holds
  right := h.right.append right
  stands u other here := by
    by_cases same : t = u
    · subst same
      obtain ⟨-, rfl⟩ : t < c.threads.length ∧ thread = other := by
        simpa [List.getElem?_set] using here
      exact stands
    · rw [List.getElem?_set_ne same] at here
      exact (h.stands u other here).kept moves (Ne.symm same) d

section

variable {p : Program (Operation α) (Outcome α) μ}

theorem Sure.turn (h : ∃ o, Sure c past o) (i : Nat) :
    ∃ o, Sure (c.turn machine p i) (past ++ (c.deed p observer i).toList.map (i, ·)) o := by
  refine Crew.turn_cases (P := fun c past => ∃ o, Sure c past o) past h ?_ ?_
  · intro memory op here _
    obtain ⟨o, h⟩ := h
    obtain ⟨l, shared, contents⟩ := h.holds
    refine ⟨o, h.set (d := some (.called op)) (.still rfl) ⟨l, shared, ?_⟩ ?_ (.begun op)⟩
    · exact contents.trans (congrArg Ledger.contents (ledger_append (i, .called op))).symm
    · rintro _ ⟨⟩
      exact h.stands i _ here
  · intro point memory here
    obtain ⟨o, h⟩ := h
    obtain ⟨⟨o', moves, holds, stands⟩, right, -⟩ := h.holds.stepped (h.stands i _ here)
    refine ⟨o', h.set moves holds right ?_⟩
    rw [Program.point_after]
    exact stands

/-- Whatever the schedule, threads stay sure. -/
theorem Sure.follow (h : ∃ o, Sure c past o) (schedule : List Nat) :
    ∃ o, Sure (c.follow machine p schedule) (past ++ c.history machine p observer schedule) o :=
  Crew.follow_invariant (P := fun c past => ∃ o, Sure c past o) (fun _ _ i h => Sure.turn h i)
    schedule h

end

/-- Let any threads work on a stack, each by a program of its own, and interleave their steps by any
schedule. At any moment the links lead from the head through the nodes on the stack to the end, and
the next step of a thread acts on those nodes: a push that succeeds puts its own nodes on top of
them, a pop that succeeds takes as many as it may off their top, however long ago it has walked
along them, and an exchange that fails writes nothing. The stack holds what its history says, and
every deed is right in view of the deeds before it: a push ends once its own values are on top, and
a pop answers with the values that it has taken off, from the top down, or that there is none if the
stack is empty. A thread without a call has ended those that it began, and holds nothing. Every
value that was pushed has been answered with, is held by one thread, was dropped or is still there.
If all ranges go on and come off in one size, an answer with any values is one of the ranges that
were pushed, the other way round. -/
theorem ranges_interleaved (p : Program (Operation α) (Outcome α) μ) (memories : List μ)
    (schedule : List Nat) :
    let start : Crew (Stack α) (Point α) μ := Crew.idle empty memories
    let c := start.follow machine p schedule
    let past := start.history machine p observer schedule
    let a := ledger past
    c.shared.Leads c.shared.head c.shared.chain none ∧
    (∀ (t : Nat) point memory, c.threads[t]? = some ⟨some point, memory⟩ →
      point.Acts c.shared (point.step c.shared).2) ∧
    c.shared.values = a.contents ∧
    (∀ before t d after, past = before ++ (t, d) :: after → Right t before d) ∧
    (∀ (t : Nat) memory, c.threads[t]? = some ⟨none, memory⟩ →
      (∀ d ∈ lastDeed t past, d.Ends) ∧ a.heldBy t = none) ∧
    a.pushed.Perm (a.answered ++ (a.held.map Prod.snd).flatten ++ a.dropped ++ a.contents) ∧
    ∀ n, Sized past n → ∀ t values, (t, .answered (.popped values)) ∈ past → values ≠ [] →
      ∃ u range, (u, .pushed range) ∈ past ∧ values = range.reverse := by
  obtain ⟨o, sure⟩ := Sure.follow (p := p) ⟨_, Sure.idle (α := α) memories⟩ schedule
  rw [List.nil_append] at sure
  obtain ⟨l, shared, contents⟩ := sure.holds
  have chain := shared.leads.chain_eq
  refine ⟨chain.symm ▸ shared.leads, fun t point memory here => ?_, ?_, sure.right,
    fun t memory here => ?_, (balanced sure.right).all, ?_⟩
  · exact (sure.holds.stepped (sure.stands t _ here)).acts
  · rw [values, chain, contents]
  · have ended : ∀ d ∈ lastDeed t _, Deed.Ends d := sure.stands t _ here
    exact ⟨ended, heldBy_eq_none sure.right fun count off => ended _ off⟩
  · exact fun n sized t values here found => (whole_of_answered sure.right sized here found).2

end SharedCollections.Stack

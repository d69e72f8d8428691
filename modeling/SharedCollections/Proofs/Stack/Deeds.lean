import SharedCollections.Proofs.Crew
import SharedCollections.Proofs.Stack.Links
import SharedCollections.Stack.Threads
/-!
# The deeds of threads on a stack

A call on a stack begins, and it ends with a deed: a push with the exchange that puts its nodes on
top, a clear with the exchange that takes all off, and any other call with its answer. A pop takes
nodes off by an exchange before that. These deeds are the history of a stack. What the stack holds
after a history, and what each thread has taken off and not yet given back, is its `ledger`. `Right`
says what a deed has to be in view of the deeds before it, and `At` what a thread can be sure of at
its point.
-/

namespace SharedCollections.Stack

/-- What a thread does on a stack. -/
inductive Deed (α : Type) where
  /-- A call begins. -/
  | called (op : Operation α)
  /-- A call that pushes ends. -/
  | pushed (values : List α)
  /-- Up to `count` nodes are taken off. -/
  | unlinked (count : Nat)
  /-- A call that clears the stack ends. -/
  | cleared
  /-- Any other call ends. -/
  | answered (o : Outcome α)
  | failed (f : Fault)

variable {α : Type} {m m' : Stack α} {o o' : Owners} {past new : List (Nat × Deed α)}
  {t u : Nat} {values : List α}

/-! ## Observing threads -/

/-- What is done by a step that ends a call, or does not. -/
def Deed.ofProgress : Progress (Point α) (Outcome α) → Option (Deed α)
  | .next _ => none
  | .done o => some (.answered o)
  | .fail f => some (.failed f)

/-- What is done by a step with the given outcome. A push without values puts nothing on top, and
answers at once. -/
def Point.deedOf : Point α → Progress (Point α) (Outcome α) → Option (Deed α)
  | .pushing values _, .done _ => some (.pushed values)
  | .popping count (.exchanging ..), .next (.popping _ (.following ..)) => some (.unlinked count)
  | .clearing, .done _ => some .cleared
  | _, progress => Deed.ofProgress progress

/-- What is done by a step. -/
def Point.deed (point : Point α) (m : Stack α) : Option (Deed α) := point.deedOf (point.step m).1

def observer : Observer (Stack α) (Operation α) (Point α) (Deed α) :=
  ⟨fun op => some (.called op), Point.deed⟩

/-! ## Reading a history -/

/-- What came of the values in a history. -/
structure Ledger (α : Type) where
  /-- What is on the stack, from the top down. -/
  contents : List α
  /-- What threads have taken off and not yet given back. -/
  held : List (Nat × List α)
  pushed : List α
  answered : List α
  /-- What was on the stack when it was cleared. -/
  dropped : List α

namespace Ledger

def empty : Ledger α := ⟨[], [], [], [], []⟩

/-- The ledger after a deed. A range goes on top in reverse, for the last value of it comes off
first. -/
def record (a : Ledger α) : Nat × Deed α → Ledger α
  | (_, .pushed values) =>
    { a with contents := values.reverse ++ a.contents, pushed := a.pushed ++ values }
  | (t, .unlinked count) =>
    { a with contents := a.contents.drop count, held := (t, a.contents.take count) :: a.held }
  | (_, .cleared) => { a with contents := [], dropped := a.dropped ++ a.contents }
  | (t, .answered (.popped values)) =>
    { a with held := a.held.filter (·.1 != t), answered := a.answered ++ values }
  | _ => a

/-- What thread `t` has taken off and not yet given back. -/
def heldBy (t : Nat) (a : Ledger α) : Option (List α) := a.held.lookup t

end Ledger

def ledger (past : List (Nat × Deed α)) : Ledger α := past.foldl Ledger.record .empty

/-- A thread whose last deed this is has nothing to do any more. -/
def Deed.Ends : Deed α → Prop
  | called _ | unlinked _ => False
  | pushed _ | cleared | answered _ | failed _ => True

/-- What a deed of thread `t` has to be. A call begins when the one before has ended. A call that
pushes ends once its own values are on top, and one that clears the stack once that is done; a call
that has taken a range off answers with it, and any other call that pops answers that there is
nothing, and only if that is what it asked for or there is nothing. No call fails, unless it visits
a node that may not exist. -/
def Right (t : Nat) (past : List (Nat × Deed α)) : Deed α → Prop
  | .called _ => ∀ d ∈ lastDeed t past, d.Ends
  | .pushed values => lastDeed t past = some (.called (.push values))
  | .unlinked count => lastDeed t past = some (.called (.pop count)) ∧ 0 < count ∧
    (ledger past).contents ≠ []
  | .cleared => lastDeed t past = some (.called .clear)
  | .answered .done => lastDeed t past = some (.called (.push []))
  | .answered (.popped values) =>
    (∃ count, lastDeed t past = some (.unlinked count) ∧ (ledger past).heldBy t = some values) ∨
      ∃ count, lastDeed t past = some (.called (.pop count)) ∧ values = [] ∧
        (count = 0 ∨ (ledger past).contents = [])
  | .answered (.seen v) => lastDeed t past = some (.called .peek) ∧
    (v = none → (ledger past).contents = [])
  | .answered (.captured _) => lastDeed t past = some (.called .capture)
  | .answered (.visited ..) | .failed _ => ∃ c, lastDeed t past = some (.called (.visit c))

section

theorem ledger_append (x : Nat × Deed α) : ledger (past ++ [x]) = (ledger past).record x :=
  List.foldl_concat ..

theorem lookup_filter_ne {held : List (Nat × List α)} (other : u ≠ t) :
    (held.filter (·.1 != t)).lookup u = held.lookup u := by
  induction held with
  | nil => rfl
  | cons x held ih =>
    obtain ⟨s, range⟩ := x
    by_cases same : s = t
    · subst same
      simp [ih, List.lookup_cons, beq_false_of_ne other]
    · simp [same, ih, List.lookup_cons]

theorem lookup_filter_self (held : List (Nat × List α)) :
    (held.filter (·.1 != t)).lookup t = none := by
  rw [List.lookup_eq_none_iff]
  intro x hx
  have other := bne_iff_ne.mp (List.mem_filter.mp hx).2
  exact bne_iff_ne.mpr other.symm

/-- What a thread holds does not depend on what the others do. -/
theorem heldBy_record_of_ne (a : Ledger α) (other : u ≠ t) (d : Deed α) :
    (a.record (t, d)).heldBy u = a.heldBy u := by
  cases d with
  | unlinked count => simp [Ledger.record, Ledger.heldBy, List.lookup_cons, beq_false_of_ne other]
  | answered outcome =>
    cases outcome with
    | popped values => exact lookup_filter_ne other
    | _ => rfl
  | _ => rfl

/-- A thread that has taken nodes off does nothing else before its answer. -/
theorem Right.eq_popped {d : Deed α} {count : Nat} (right : Right t past d)
    (off : lastDeed t past = some (.unlinked count)) :
    ∃ values, d = .answered (.popped values) := by
  cases d with
  | answered outcome =>
    cases outcome with
    | popped values => exact ⟨values, rfl⟩
    | _ => simp [Right, off] at right
  | _ => simp [Right, off, Deed.Ends] at right

/-- A thread holds a range only between taking it off and its answer. -/
theorem heldBy_eq_none (h : AllDeeds Right past)
    (free : ∀ count, lastDeed t past ≠ some (.unlinked count)) : (ledger past).heldBy t = none := by
  refine h.induction (P := fun past => (∀ count, lastDeed t past ≠ some (.unlinked count)) →
    (ledger past).heldBy t = none) (fun _ => rfl) ?_ free
  intro past u d _ ih right free
  rw [ledger_append]
  by_cases same : u = t
  · subst same
    rw [lastDeed_append_self] at free
    cases d with
    | unlinked count => exact absurd rfl (free count)
    | answered outcome =>
      cases outcome with
      | popped values => exact lookup_filter_self _
      | _ => exact ih fun count off => nomatch right.eq_popped off
    | _ => exact ih fun count off => nomatch right.eq_popped off
  · rw [heldBy_record_of_ne _ (Ne.symm same)]
    refine ih fun count => ?_
    have last : lastDeed t (past ++ [(u, d)]) = lastDeed t past :=
      lastDeed_append_of_ne (by simpa using same)
    rw [← last]
    exact free count

end

/-! ## What a thread can be sure of -/

/-- A thread has built nodes for `built`, the last of them on top, and has not given them away. -/
def Built (m : Stack α) (o : Owners) (t top bottom : Nat) (built : List α) (y : Option Nat) :
    Prop :=
  ∃ l, Own m o t top bottom l y ∧ l.map Node.value = built.reverse

def Pushing.At (m : Stack α) (o : Owners) (t : Nat) (values : List α) : Pushing α → Prop
  | starting v rest => values = v :: rest
  | building top bottom rest => ∃ built y, values = built ++ rest ∧ Built m o t top bottom built y
  | loading top bottom | linking top bottom _ => ∃ y, Built m o t top bottom values y
  | exchanging top bottom seen => Built m o t top bottom values seen

/-- What is certain of the nodes that a thread has seen lasts, for others do not write to them:
whether they are still on the stack makes no difference. -/
def Popping.At (m : Stack α) (o : Owners) (last : Option (Deed α)) (held : Option (List α))
    (count : Nat) : Popping α → Prop
  | loading => last = some (.called (.pop count))
  | walking first final passed => last = some (.called (.pop count)) ∧ ∃ before v behind,
      Shared m o (some first) (before ++ ⟨final, v⟩ :: behind) ∧
      passed = before.length + 1 ∧ passed ≤ count
  | closing first final passed => last = some (.called (.pop count)) ∧ ∃ before v behind,
      Shared m o (some first) (before ++ ⟨final, v⟩ :: behind) ∧
      passed = before.length + 1 ∧ passed = min count (before.length + 1 + behind.length)
  | exchanging first passed below => last = some (.called (.pop count)) ∧ ∃ l behind,
      Shared m o (some first) (l ++ behind) ∧ Shared m o below behind ∧
      passed = l.length ∧ passed = min count (l.length + behind.length)
  | following current left values => last = some (.unlinked count) ∧ ∃ l behind,
      Shared m o current (l ++ behind) ∧ l.length = left ∧
      held = some (values.reverse ++ l.map Node.value)
  | taking a next left values _ | moving a next left values => last = some (.unlinked count) ∧
      ∃ v l behind,
      Shared m o (some a) (⟨a, v⟩ :: (l ++ behind)) ∧ Shared m o next (l ++ behind) ∧
      l.length = left ∧ held = some (values.reverse ++ v :: l.map Node.value)

/-- A look at a value does not fail. -/
def Peeking.At (m : Stack α) : Peeking α → Prop
  | loading => True
  | reading _ (.leaving (.error _)) => False
  | reading a _ => a < m.cells.size

/-- What thread `t` can be sure of at a point, or while it is idle. -/
def At (m : Stack α) (o : Owners) (past : List (Nat × Deed α)) (t : Nat) :
    Option (Point α) → Prop
  | none => ∀ d ∈ lastDeed t past, d.Ends
  | some (.ready outcome) => ∃ op, lastDeed t past = some (.called op) ∧ op.begin = .ready outcome
  | some (.pushing values point) =>
    lastDeed t past = some (.called (.push values)) ∧ point.At m o t values
  | some (.popping count point) =>
    0 < count ∧ point.At m o (lastDeed t past) ((ledger past).heldBy t) count
  | some (.peeking point) => lastDeed t past = some (.called .peek) ∧ point.At m
  | some .clearing => lastDeed t past = some (.called .clear)
  | some .capturing => lastDeed t past = some (.called .capture)
  | some (.visiting _) => ∃ c, lastDeed t past = some (.called (.visit c))

/-! ## What others do -/

section

variable (moves : Moves u m o m' o')

include moves

theorem Built.kept {top bottom : Nat} {built : List α} {y : Option Nat} (other : t ≠ u)
    (h : Built m o t top bottom built y) : Built m' o' t top bottom built y := by
  obtain ⟨l, own, values⟩ := h
  exact ⟨l, own.kept other.symm moves, values⟩

theorem Pushing.At.kept {point : Pushing α} (other : t ≠ u) (h : point.At m o t values) :
    point.At m' o' t values := by
  cases point with
  | starting => exact h
  | building =>
    obtain ⟨built, y, eq, h⟩ := h
    exact ⟨built, y, eq, h.kept moves other⟩
  | loading | linking => exact h.imp fun _ h => h.kept moves other
  | exchanging => exact Built.kept moves other h

theorem Popping.At.kept {point : Popping α} {last : Option (Deed α)} {held : Option (List α)}
    {count : Nat} (h : point.At m o last held count) : point.At m' o' last held count := by
  cases point with
  | loading => exact h
  | walking | closing =>
    obtain ⟨called, before, v, behind, h, rest⟩ := h
    exact ⟨called, before, v, behind, h.kept moves, rest⟩
  | exchanging =>
    obtain ⟨called, l, behind, h, below, rest⟩ := h
    exact ⟨called, l, behind, h.kept moves, below.kept moves, rest⟩
  | following =>
    obtain ⟨off, l, behind, h, rest⟩ := h
    exact ⟨off, l, behind, h.kept moves, rest⟩
  | taking | moving =>
    obtain ⟨off, v, l, behind, h, next, rest⟩ := h
    exact ⟨off, v, l, behind, h.kept moves, next.kept moves, rest⟩

theorem Peeking.At.kept {point : Peeking α} (h : point.At m) : point.At m' := by
  rcases point with _ | ⟨a, _ | _ | _ | _⟩
  · trivial
  all_goals first | exact h.elim | exact Nat.lt_of_lt_of_le h moves.size_le

/-- What a thread can be sure of does not depend on what the others do. -/
theorem At.kept {point : Option (Point α)} (h : At m o past t point) (other : t ≠ u)
    (d : Option (Deed α)) : At m' o' (past ++ d.toList.map (u, ·)) t point := by
  have held : (ledger (past ++ d.toList.map (u, ·))).heldBy t = (ledger past).heldBy t := by
    cases d with
    | none => rw [Option.toList_none, List.map_nil, List.append_nil]
    | some d => exact (congrArg _ (ledger_append _)).trans (heldBy_record_of_ne _ other d)
  have last : lastDeed t (past ++ d.toList.map (u, ·)) = lastDeed t past := by
    refine lastDeed_append_of_ne fun x hx => ?_
    obtain ⟨_, -, rfl⟩ := List.mem_map.mp hx
    exact other.symm
  cases point with
  | none => simpa only [At, last] using h
  | some point =>
    cases point with
    | pushing => exact ⟨last.trans h.1, h.2.kept moves other⟩
    | popping => exact ⟨h.1, last.symm ▸ held.symm ▸ h.2.kept moves⟩
    | peeking => exact ⟨last.trans h.1, h.2.kept moves⟩
    | clearing | capturing => exact last.trans h
    | ready | visiting => simpa only [At, last] using h

end

end SharedCollections.Stack

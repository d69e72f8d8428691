import Mathlib.Data.List.TakeWhile
import SharedCollections.Proofs.Sequence.Run
import SharedCollections.Proofs.Stack.Calls
import SharedCollections.Stack.Session
/-!
# Runs on a stack

To its user a stack is what it has gone through, and each open cursor is a chain that was captured
with the part of it that is still to be visited (`Ideal`). In memory a cursor is the address of the
next node; the links from there on lead through that part, whatever was done to the stack since. So
every run answers as the ideal stack does (`Shows.move`), and a cursor visits the nodes of its chain
that were not popped before it got to them (`cursors_visit`).
-/

namespace SharedCollections.Stack

variable {α : Type}

abbrev Move (α : Type) := Sequence.Move (Special α) α

abbrev Run (α : Type) := Sequence.Run (Stack α) Cursor

def move : Move α → Action (Run α) (Reply α) := Sequence.Run.move Special.run

/-! ## The ideal stack -/

/-- What a cursor stands for. -/
structure View (α : Type) where
  /-- The nodes of the stack when the cursor was opened, from the top down. -/
  captured : List (Node α)
  /-- The nodes at or behind the cursor. -/
  rest : List (Node α)
  suffix : rest <:+ captured
  /-- Nodes are told apart by address, whatever their values are. -/
  nodup : (captured.map Node.id).Nodup

namespace View

def ofAccount (r : Account α) : View α :=
  ⟨r.chain, r.chain, List.suffix_rfl, r.leads.nodup⟩

/-- What is left of the nodes at or behind the cursor, from the first one on that is not among those
that were popped. -/
def ahead (popped : List Nat) (w : View α) : List (Node α) := w.rest.dropWhile (·.id ∈ popped)

/-- The value to be given next. -/
def value? (popped : List Nat) (w : View α) : Option α := (w.ahead popped).head?.map Node.value

/-- The view behind the node of that value. -/
def advance (popped : List Nat) (w : View α) : View α :=
  { w with
    rest := (w.ahead popped).tail
    suffix := (List.tail_suffix _).trans ((List.dropWhile_suffix _).trans w.suffix) }

end View

/-- A stack as its user sees it. -/
structure Ideal (α : Type) where
  account : Account α
  /-- What the cursors stand for. -/
  views : Opened (View α)

/-- What a move of ranges answers, and the account after it. -/
def Account.special (r : Account α) : Special α → Reply α × Account α
  | .pushRange items => (.done, r.push items)
  | .pushSlice items start count =>
    match checkWindow start count items.length with
    | .error m => (.misuse m, r)
    | .ok () => (.done, r.push (window items start count))
  | .popRange count => (.values ((r.chain.take count).map Node.value), r.pop count)
  | .popRangeInto buffer start count =>
    match checkWindow start count buffer.length with
    | .error m => (.filled (.error m) buffer, r)
    | .ok () =>
      let values := (r.chain.take count).map Node.value
      (.filled (.ok values.length) (overwrite buffer start values), r.pop count)
  | .clear => (.done, r.clear)

namespace Ideal

def start : Ideal α := ⟨.new, .empty⟩

/-- What a move answers, and the stack after it. -/
def move (x : Ideal α) : Move α → Reply α × Ideal α
  | .put v => (.done, { x with account := x.account.push [v] })
  | .extend vs => (.done, { x with account := x.account.push vs })
  | .take => (.value (x.account.chain.head?.map Node.value), { x with account := x.account.pop 1 })
  | .peek => (.value (x.account.chain.head?.map Node.value), x)
  | .isEmpty => (.flag x.account.chain.isEmpty, x)
  | .size => (.count x.account.chain.length, x)
  | .toList => (.values (x.account.chain.map Node.value), x)
  | .openCursor => (.done, { x with views := x.views.add (.ofAccount x.account) })
  | .next i =>
    (.value ((x.views.get? i).bind (View.value? x.account.popped)),
      { x with views := x.views.set i ((x.views.get? i).map (View.advance x.account.popped)) })
  | .closeCursor i => (.flag (x.views.get? i).isSome, { x with views := x.views.set i none })
  | .special s => ((x.account.special s).1, { x with account := (x.account.special s).2 })

/-- The answers to moves on a new stack, and the stack after them. -/
def after (moves : List (Move α)) : List (Reply α) × Ideal α := answers move start moves

variable {x : Ideal α} {i : Nat} {w : View α}

theorem move_next_of_none (closed : x.views.get? i = none) :
    x.move (.next i) = (.value none, x) := by
  rw [move, closed, Option.map_none, Opened.set_eq_self closed]
  rfl

theorem move_next_of_some (view : x.views.get? i = some w) : x.move (.next i) =
    (.value (w.value? x.account.popped),
      { x with views := x.views.set i (some (w.advance x.account.popped)) }) := by
  rw [move, view]
  rfl

theorem move_closeCursor_of_none (closed : x.views.get? i = none) :
    x.move (.closeCursor i) = (.flag false, x) := by
  rw [move, closed, Opened.set_eq_self closed]
  rfl

theorem move_closeCursor_of_some (view : x.views.get? i = some w) :
    x.move (.closeCursor i) = (.flag true, { x with views := x.views.set i none }) := by
  rw [move, view]
  rfl

end Ideal

/-! ## Runs answer as the ideal stack does -/

theorem Account.run_special (r : Account α) (s : Special α) :
    s.run.run r.layout = .ok (r.special s).1 (r.special s).2.layout := by
  cases s with
  | pushRange items => exact Action.run_bind_ok (r.run_pushRange_layout items) _
  | pushSlice items start count =>
    rw [Special.run, pushSlice, Account.special]
    cases checkWindow start count items.length with
    | error m => rfl
    | ok =>
      have run := Action.run_bind_ok (r.run_pushRange_layout (window items start count))
        fun _ => (pure (.ok ()) : Action (Stack α) (Except Misuse Unit))
      exact Action.run_bind_ok run _
  | popRange count => exact Action.run_bind_ok (r.run_popRange_layout count) _
  | popRangeInto buffer start count =>
    rw [Special.run, popRangeInto, Account.special]
    cases checkWindow start count buffer.length with
    | error m => rfl
    | ok =>
      have run := Action.run_bind_ok (r.run_popRange_layout count) fun values =>
        (pure (.ok values.length, overwrite buffer start values) :
          Action (Stack α) (Except Misuse Nat × List α))
      exact Action.run_bind_ok run _
  | clear => exact Action.run_bind_ok r.run_clear_layout _

/-- What a stack has gone through goes on with every move of ranges. -/
theorem Account.follows_special (r : Account α) (s : Special α) : Follows (r.special s).2 r := by
  cases s with
  | pushRange items => exact .push r items
  | pushSlice items start count =>
    rw [special]
    cases checkWindow start count items.length with
    | error m => exact .refl r
    | ok => exact .push r _
  | popRange count => exact .pop r count
  | popRangeInto buffer start count =>
    rw [special]
    cases checkWindow start count buffer.length with
    | error m => exact .refl r
    | ok => exact .pop r count
  | clear => exact .clear r

/-- A cursor leads through the nodes that are still to be visited, and the node at which it was
opened through all that were there. -/
structure View.Stands (s : Stack α) (c : Cursor) (w : View α) : Prop where
  rest : s.Leads c w.rest none
  captured : s.Leads (w.captured.head?.map Node.id) w.captured none

namespace View.Stands

variable {r r' : Account α} {c : Cursor} {w : View α}

theorem kept (h : Stands r.layout c w) (follows : r'.Follows r) : Stands r'.layout c w :=
  ⟨follows.leads h.rest, follows.leads h.captured⟩

theorem advance (h : Stands r.layout c w) : Stands r.layout
    ((w.ahead r.popped).tail.head?.map Node.id) (w.advance r.popped) :=
  ⟨Account.leads_next? h.rest, h.captured⟩

end View.Stands

/-- A run shows its user the ideal stack `x`. -/
structure Shows (s : Run α) (x : Ideal α) : Prop where
  collection : s.collection = x.account.layout
  cursors : Opened.Rel (View.Stands s.collection) s.cursors x.views

namespace Shows

variable {s : Run α} {x : Ideal α}

theorem new : Shows (Sequence.Run.start : Run α) .start := ⟨rfl, .empty⟩

section

variable {r r' : Account α} {cursors : Opened Cursor} {views : Opened (View α)} {β : Type}
  {a : Action (Stack α) β} {v : β}

/-- A move that asks something of the stack and leaves the cursors alone. -/
theorem act (rel : Opened.Rel (View.Stands r.layout) cursors views)
    (run : a.run r.layout = .ok v r'.layout) (follows : r'.Follows r) (reply : β → Reply α) :
    ∃ s', (do return reply (← Sequence.Run.act a)).run (⟨r.layout, cursors⟩ : Run α) =
      .ok (reply v) s' ∧ Shows s' ⟨r', views⟩ :=
  ⟨_, Action.run_bind_ok (Sequence.Run.run_act run cursors) _, rfl,
    rel.mono fun _ _ _ _ stands => stands.kept follows⟩

end

/-- One move. -/
theorem move (h : Shows s x) (m : Move α) :
    ∃ s', (Stack.move m).run s = .ok (x.move m).1 s' ∧ Shows s' (x.move m).2 := by
  obtain ⟨_, cursors⟩ := s
  obtain ⟨r, views⟩ := x
  obtain ⟨rfl, rel⟩ := h
  have rel : Opened.Rel (View.Stands r.layout) cursors views := rel
  cases m with
  | put v => exact act rel (r.run_push_layout v) (.push r [v]) fun _ => .done
  | extend vs => exact act rel (r.run_pushRange_layout vs) (.push r vs) fun _ => .done
  | take => exact act rel r.run_pop?_layout (.pop r 1) .value
  | peek => exact act rel r.run_peek?_layout (.refl r) .value
  | isEmpty =>
    have run : (Sequence.isEmpty : Action (Stack α) Bool).run r.layout =
        .ok r.chain.isEmpty r.layout := congrArg (EStateM.Result.ok · _) r.isEmpty_layout
    exact act rel run (.refl r) .flag
  | size =>
    have run : (Sequence.size : Action (Stack α) Nat).run r.layout =
        .ok r.chain.length r.layout := congrArg (EStateM.Result.ok · _) r.size_layout
    exact act rel run (.refl r) .count
  | toList => exact act rel r.run_toList_layout (.refl r) .values
  | openCursor => exact ⟨_, rfl, rfl, rel.add ⟨r.leads_layout, r.leads_layout⟩⟩
  | next i =>
    cases view : views.get? i with
    | none =>
      rw [Ideal.move_next_of_none view]
      exact ⟨_, Sequence.Run.run_next_of_none (rel.eq_none view), rfl, rel⟩
    | some w =>
      obtain ⟨c, cursor, stands⟩ := rel.exists_of_some view
      rw [Ideal.move_next_of_some view]
      exact ⟨_, Sequence.Run.run_next_of_some cursor (Account.run_next?_layout stands.rest), rfl,
        rel.set (.some stands.advance) i⟩
  | closeCursor i =>
    cases view : views.get? i with
    | none =>
      rw [Ideal.move_closeCursor_of_none view]
      exact ⟨_, Sequence.Run.run_closeCursor_of_none (rel.eq_none view), rfl, rel⟩
    | some w =>
      obtain ⟨c, cursor, -⟩ := rel.exists_of_some view
      rw [Ideal.move_closeCursor_of_some view]
      exact ⟨_, Sequence.Run.run_closeCursor_of_some cursor rfl, rfl, rel.set .none i⟩
  | special s =>
    exact ⟨_, Sequence.Run.run_act (r.run_special s) cursors, rfl,
      rel.mono fun _ _ _ _ stands => stands.kept (r.follows_special s)⟩

end Shows

/-! ## What a cursor visits -/

namespace View

variable {popped : List Nat} {w : View α} {skipped behind : List (Node α)} {n : Node α}

/-- A cursor skips the nodes that were popped, up to the first one that was not. -/
theorem ahead_of_append (split : w.rest = skipped ++ n :: behind)
    (gone : ∀ m ∈ skipped, m.id ∈ popped) (left : n.id ∉ popped) :
    w.ahead popped = n :: behind := by
  rw [ahead, split, List.dropWhile_append_of_pos (by simpa using gone),
    List.dropWhile_cons_of_neg (by simpa using left)]

theorem ahead_of_forall (gone : ∀ m ∈ w.rest, m.id ∈ popped) : w.ahead popped = [] :=
  List.dropWhile_eq_nil_iff.mpr (by simpa using gone)

end View

namespace Ideal

variable {x : Ideal α} {i : Nat}

/-- A cursor has nothing more to visit: it is closed, or all nodes behind it were popped. -/
def Spent (i : Nat) (x : Ideal α) : Prop :=
  x.views.Holds (fun w => ∀ m ∈ w.rest, m.id ∈ x.account.popped) i

namespace Spent

theorem move_next (h : x.Spent i) : (x.move (.next i)).1 = .value none := by
  cases view : x.views.get? i with
  | none => rw [move_next_of_none view]
  | some w =>
    rw [move_next_of_some view, View.value?, View.ahead_of_forall (h.get? w view)]
    rfl

theorem account (h : x.Spent i) {r : Account α} (more : x.account.popped ⊆ r.popped) :
    Spent i { x with account := r } :=
  h.mono fun _ gone m hm => more (gone m hm)

theorem move (h : x.Spent i) (m : Move α) : (x.move m).2.Spent i := by
  cases m with
  | put v => exact h.account (Account.Follows.push _ [v]).popped
  | extend vs => exact h.account (Account.Follows.push _ vs).popped
  | take => exact h.account (Account.Follows.pop _ 1).popped
  | openCursor => exact h.add _
  | next j =>
    refine h.set ?_
    rintro w rfl next
    obtain ⟨w', view, rfl⟩ := Option.map_eq_some_iff.mp next
    change ∀ m ∈ (w'.ahead x.account.popped).tail, m.id ∈ x.account.popped
    rw [View.ahead_of_forall (h.get? w' view)]
    exact nofun
  | closeCursor j => exact h.set fun _ _ none => nomatch none
  | special s => exact h.account (x.account.follows_special s).popped
  | _ => exact h

end Spent

end Ideal

/-- Every run answers as the ideal stack does, and leaves its layout: the links lead from the head
through its chain, and the slots that are marked are those of the nodes that were popped. Whatever
was done since a cursor was opened, the links still lead from its address through the nodes that it
is to visit. It gives the value of the first of them that no pop has taken so far, and then holds
the address behind that node; and if there is none, it gives nothing, now and ever after. -/
theorem cursors_visit (moves : List (Move α)) :
    let x := (Ideal.after moves).2
    ∃ s : Run α, (follow move moves).run .start = .ok (Ideal.after moves).1 s ∧
      s.collection = x.account.layout ∧
      s.collection.Leads s.collection.head x.account.chain none ∧
      (∀ (a : Nat) c, s.collection.cells[a]? = some c →
        (c.slot.isTaken = true ↔ a ∈ x.account.popped)) ∧
      ∀ i w, x.views.get? i = some w → ∃ c, s.cursors.get? i = some c ∧
        s.collection.Leads c w.rest none ∧ w.rest <:+ w.captured ∧
        s.collection.Leads (w.captured.head?.map Node.id) w.captured none ∧
        (w.captured.map Node.id).Nodup ∧
        (∀ skipped n behind, w.rest = skipped ++ n :: behind →
          (∀ m ∈ skipped, m.id ∈ x.account.popped) → n.id ∉ x.account.popped →
          ∃ s' c', (move (.next i)).run s = .ok (.value (some n.value)) s' ∧
            s'.collection = s.collection ∧ s'.cursors.get? i = some c' ∧
            s.collection.Leads c' behind none) ∧
        ((∀ m ∈ w.rest, m.id ∈ x.account.popped) → ∀ later, ∃ replies s' s'',
          (follow move later).run s = .ok replies s' ∧
          (move (.next i)).run s' = .ok (.value none) s'') := by
  intro x
  obtain ⟨s, run, shows⟩ := exists_follow Shows.move Shows.new moves
  change Shows s x at shows
  refine ⟨s, run, shows.collection, ?_, ?_, fun i w view => ?_⟩
  · rw [shows.collection]
    exact x.account.leads_layout
  · intro a c cell
    rw [shows.collection] at cell
    rw [Account.slot_layout cell, isTaken_mark, decide_eq_true_iff]
  obtain ⟨c, cursor, stands⟩ := shows.cursors.exists_of_some view
  refine ⟨c, cursor, stands.rest, w.suffix, stands.captured, w.nodup, ?_, ?_⟩
  · intro skipped n behind split gone left
    have ahead := View.ahead_of_append split gone left
    obtain ⟨s', next, shows'⟩ := shows.move (.next i)
    rw [Ideal.move_next_of_some view] at next shows'
    -- the cursor stands where its view does, behind the first node that is left
    have view' := Opened.get?_set_self (Opened.lt_count_of_get? view)
      (some (w.advance x.account.popped))
    obtain ⟨c', cursor', stands'⟩ := shows'.cursors.exists_of_some view'
    have same : s'.collection = s.collection := shows'.collection.trans shows.collection.symm
    refine ⟨s', c', ?_, same, cursor', ?_⟩
    · rw [next, View.value?, ahead]
      rfl
    · have rest : (w.advance x.account.popped).rest = behind := congrArg List.tail ahead
      exact same ▸ rest ▸ stands'.rest
  · -- nodes are never put back, so a cursor that has come to its end stays there
    intro gone later
    have spent : x.Spent i := .of_get? view gone
    obtain ⟨s', run', shows'⟩ := exists_follow Shows.move shows later
    obtain ⟨s'', next, -⟩ := shows'.move (.next i)
    refine ⟨_, s', s'', run', ?_⟩
    rw [next, (answers_induction Ideal.Spent.move spent later).move_next]

end SharedCollections.Stack

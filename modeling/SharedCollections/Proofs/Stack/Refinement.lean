import SharedCollections.Proofs.Stack.Run
/-!
# Stacks as lists

A stack that no operation is busy with is the list of its values with the top as its head. Every
step of a session answers as the list does (`Holds.step`), whatever the session has gone through. On
the list a range is moved value by value, and that is what it comes to on the stack too: one
exchange of the head leaves what many exchanges leave.
-/

namespace SharedCollections.Stack

variable {α : Type}

/-! ## Lists with the top as their head -/

namespace OnList

/-- Puts values on top of a list one after the other. -/
def pushAll : (values : List α) → List α → List α
  | [], l => l
  | v :: values, l => pushAll values (v :: l)

/-- Takes the head of a list until that was done `count` times or there is none; gives what was
taken and what is left. -/
def popUpTo : (count : Nat) → List α → List α × List α
  | 0, l => ([], l)
  | _ + 1, [] => ([], [])
  | count + 1, v :: l => (v :: (popUpTo count l).1, (popUpTo count l).2)

theorem pushAll_eq (values l : List α) : pushAll values l = values.reverse ++ l := by
  induction values generalizing l with
  | nil => rfl
  | cons v values ih =>
    rw [pushAll, ih, List.reverse_cons, List.append_assoc, List.singleton_append]

theorem popUpTo_eq (count : Nat) (l : List α) : popUpTo count l = (l.take count, l.drop count) := by
  induction count generalizing l with
  | zero => rfl
  | succ count ih =>
    cases l with
    | nil => rfl
    | cons v l => rw [popUpTo, ih, List.take_succ_cons, List.drop_succ_cons]

/-- Copies a list into `dest` from `index` on. -/
def copyTo (l dest : List α) (index : Nat) : Reply α :=
  if index > dest.length then .copied dest (some (.indexOutOfRange index dest.length))
  else if l.length > dest.length - index then
    .copied dest (some (.insufficientSpace l.length (dest.length - index)))
  else .copied (overwrite dest index l) none

def special (l : List α) : Special α → Reply α × List α
  | .pushRange items => (.done, pushAll items l)
  | .pushSlice items start count =>
    match checkWindow start count items.length with
    | .error m => (.misuse m, l)
    | .ok () => (.done, pushAll (window items start count) l)
  | .popRange count => (.values (popUpTo count l).1, (popUpTo count l).2)
  | .popRangeInto buffer start count =>
    match checkWindow start count buffer.length with
    | .error m => (.filled (.error m) buffer, l)
    | .ok () =>
      let values := (popUpTo count l).1
      (.filled (.ok values.length) (overwrite buffer start values), (popUpTo count l).2)
  | .clear => (.done, [])

variable [Outlined α]

/-- What a step answers, and the list after it. A cursor answers what the list cannot tell, and
leaves the list alone. -/
def step (l : List α) : Sequence.Step (Special α) α → Option (Reply α) × List α
  | .put v => (some .done, v :: l)
  | .take => (some (.value l.head?), l.tail)
  | .takeMany n => (some (.values (popUpTo n l).1), (popUpTo n l).2)
  | .peek => (some (.value l.head?), l)
  | .isEmpty => (some (.flag l.isEmpty), l)
  | .size => (some (.count l.length), l)
  | .toList => (some (.values l), l)
  | .debug expanded =>
    let o := Outline.list (l.map Outlined.outline)
    (some (.text (if expanded then o.expanded 0 else o.inline)), l)
  | .extend items => (some .done, pushAll items l)
  | .renew => (some .done, [])
  | .collect items => (some .done, pushAll items [])
  | .drain n => (some (.values (popUpTo n l).1), [])
  | .openCursor _ => (some .done, l)
  | .next _ | .rest _ | .closeCursor _ => (none, l)
  | .offer v => (some .done, v :: l)
  | .exchangeTake => (some (.value l.head?), l.tail)
  | .exchangeItems => (some (.values l), l)
  | .exchangeCount => (some (.count l.length), l)
  | .exchangeIsEmpty => (some (.flag l.isEmpty), l)
  | .copyTo dest index => (some (copyTo l dest index), l)
  | .special x => (some (special l x).1, (special l x).2)

/-- The list after steps on a new stack. -/
def after (steps : List (Sequence.Step (Special α) α)) : List (Option (Reply α)) × List α :=
  answers step [] steps

end OnList

/-! ## Ranges, one value after the other -/

namespace Account

variable {r : Account α}

theorem pop_zero : r.pop 0 = r := by
  ext1
  · rfl
  · rfl
  · exact List.append_nil _

theorem pop_pop (count : Nat) : (r.pop 1).pop count = r.pop (count + 1) := by
  have taken : r.chain.take 1 ++ (r.chain.drop 1).take count = r.chain.take (count + 1) := by
    rw [Nat.add_comm, List.take_add]
  ext1
  · rfl
  · exact (List.drop_drop (l := r.chain)).trans (congrArg (r.chain.drop ·) (Nat.add_comm 1 count))
  · change (r.popped ++ _) ++ _ = r.popped ++ _
    rw [List.append_assoc, ← List.map_append]
    exact congrArg (r.popped ++ List.map Node.id ·) taken

theorem pop_of_nil (empty : r.chain = []) (count : Nat) : r.pop count = r := by
  ext1
  · rfl
  · change r.chain.drop count = r.chain
    rw [empty, List.drop_nil]
  · change r.popped ++ (r.chain.take count).map Node.id = r.popped
    rw [empty, List.take_nil, List.map_nil, List.append_nil]

theorem run_forM_push_layout (values : List α) (r : Account α) :
    (values.forM Stack.push).run r.layout = .ok () (r.push values).layout := by
  induction values generalizing r with
  | nil => rfl
  | cons v values ih => exact (Action.run_bind_ok (r.run_push_layout v) _).trans (ih (r.put v))

theorem run_takeMany_layout (count : Nat) (r : Account α) :
    (Exchange.takeMany count : Action (Stack α) (List α)).run r.layout =
      .ok ((r.chain.take count).map Node.value) (r.pop count).layout := by
  induction count generalizing r with
  | zero =>
    rw [pop_zero]
    rfl
  | succ count ih =>
    rw [Exchange.takeMany]
    refine (Action.run_bind_ok r.run_pop?_layout _).trans ?_
    cases chain : r.chain with
    | nil =>
      rw [pop_of_nil chain, pop_of_nil chain]
      rfl
    | cons n rest =>
      have left : (r.pop 1).chain = rest := congrArg (List.drop 1) chain
      refine (Action.run_bind_ok (ih (r.pop 1)) _).trans ?_
      rw [left, pop_pop]
      rfl

/-- A range is pushed as its values are, one after the other. -/
theorem run_pushRange_eq_forM (r : Account α) (values : List α) :
    (pushRange values).run r.layout = (values.forM Stack.push).run r.layout := by
  rw [run_pushRange_layout, run_forM_push_layout]

/-- A range is popped as its values are, until there is none. -/
theorem run_popRange_eq_takeMany (r : Account α) (count : Nat) :
    (popRange count).run r.layout =
      (Exchange.takeMany count : Action (Stack α) (List α)).run r.layout := by
  rw [run_popRange_layout, run_takeMany_layout]

end Account

/-! ## Sessions answer as the list does -/

/-- An answer is the one that is asked for, if one is. -/
def Fits (reply : Reply α) (spec : Option (Reply α)) : Prop := ∀ x ∈ spec, reply = x

theorem Fits.some {reply spec : Reply α} (h : reply = spec) : Fits reply (some spec) := by
  rintro _ ⟨⟩
  exact h

/-- What the values of a stack are, to all that look at it. -/
structure Reads (s : Stack α) (l : List α) : Prop where
  toList : toList.run s = .ok l s
  size : s.size = l.length
  isEmpty : s.isEmpty = l.isEmpty
  peek? : Stack.peek?.run s = .ok l.head? s
  displayed : displayed.run s = .ok l s

/-- The links lead from a cursor to an end. -/
def Grounded (s : Stack α) (c : Cursor) : Prop := ∃ nodes, s.Leads c nodes none

/-- The stack of a session holds the values of `l`, and its cursors are grounded. -/
def Holds (s : Sequence.Session (Stack α) Cursor) (l : List α) : Prop :=
  ∃ r : Account α, s.collection = r.layout ∧ r.chain.map Node.value = l ∧
    ∀ x ∈ s.cursors, Grounded r.layout x.2

namespace Account

variable (r : Account α)

theorem reads : Reads r.layout (r.chain.map Node.value) where
  toList := r.run_toList_layout
  size := by rw [size_layout, List.length_map]
  isEmpty := by
    rw [isEmpty_layout]
    exact List.isEmpty_map.symm
  peek? := by rw [run_peek?_layout, List.head?_map]
  displayed := r.run_displayed_layout

theorem map_value_pushAll (values : List α) :
    (r.push values).chain.map Node.value = OnList.pushAll values (r.chain.map Node.value) := by
  rw [OnList.pushAll_eq, map_value_push]

theorem map_value_pop (count : Nat) : (r.pop count).chain.map Node.value =
    (OnList.popUpTo count (r.chain.map Node.value)).2 := by
  rw [OnList.popUpTo_eq]
  exact List.map_drop

theorem map_value_take (count : Nat) : (r.chain.take count).map Node.value =
    (OnList.popUpTo count (r.chain.map Node.value)).1 := by
  rw [OnList.popUpTo_eq]
  exact List.map_take

/-- A move of ranges answers as the list does, and leaves what the list is afterwards. -/
theorem special_eq (x : Special α) :
    (r.special x).1 = (OnList.special (r.chain.map Node.value) x).1 ∧
      (r.special x).2.chain.map Node.value = (OnList.special (r.chain.map Node.value) x).2 := by
  cases x with
  | pushRange items => exact ⟨rfl, r.map_value_pushAll items⟩
  | pushSlice items start count =>
    rw [special, OnList.special]
    cases checkWindow start count items.length with
    | error m => exact ⟨rfl, rfl⟩
    | ok => exact ⟨rfl, r.map_value_pushAll _⟩
  | popRange count => exact ⟨congrArg Reply.values (r.map_value_take count), r.map_value_pop count⟩
  | popRangeInto buffer start count =>
    rw [special, OnList.special]
    cases checkWindow start count buffer.length with
    | error m => exact ⟨rfl, rfl⟩
    | ok =>
      refine ⟨?_, r.map_value_pop count⟩
      rw [← map_value_take]
  | clear => exact ⟨rfl, rfl⟩

end Account

namespace Holds

variable {β : Type} {r r' : Account α} {hasSink : Bool} {cursors : List (String × Cursor)}
  {s : Sequence.Session (Stack α) Cursor} {l : List α}

theorem new (hasSink : Bool) : Holds ⟨empty, hasSink, []⟩ ([] : List α) :=
  ⟨.new, rfl, rfl, nofun⟩

section

variable (grounded : ∀ x ∈ cursors, Grounded r.layout x.2)

include grounded

/-- A step that answers with what a computation on the stack gives. -/
theorem act {a : Action (Stack α) β} {x : β} (run : a.run r.layout = .ok x r'.layout)
    (follows : r'.Follows r) (reply : β → Reply α) {spec : Reply α} (fits : reply x = spec)
    (values : r'.chain.map Node.value = l) :
    ∃ y s', (do return reply (← Sequence.Session.act a)).run ⟨r.layout, hasSink, cursors⟩ =
        .ok y s' ∧ Fits y (some spec) ∧ Holds s' l := by
  refine ⟨reply x, ⟨r'.layout, hasSink, cursors⟩, ?_, .some fits, r', rfl, values, ?_⟩
  · exact Action.run_bind_ok (Sequence.Session.run_act run hasSink cursors) _
  · exact fun y hy => (grounded y hy).imp fun _ way => follows.leads way

/-- A step that looks at the stack. -/
theorem look {a : Action (Stack α) β} {x : β} (run : a.run r.layout = .ok x r.layout)
    (reply : β → Reply α) {spec : Reply α} (fits : reply x = spec) :
    ∃ y s', (do return reply (← Sequence.Session.act a)).run ⟨r.layout, hasSink, cursors⟩ =
        .ok y s' ∧ Fits y (some spec) ∧ Holds s' (r.chain.map Node.value) :=
  act grounded run (.refl r) reply fits rfl

/-- A stack keeps no account of its cursors. -/
theorem exists_run_close (name : String) (hasSink : Bool) : ∃ was cursors',
    (Sequence.Session.close name).run
        (⟨r.layout, hasSink, cursors⟩ : Sequence.Session (Stack α) Cursor) =
      .ok was ⟨r.layout, hasSink, cursors'⟩ ∧ ∀ x ∈ cursors', Grounded r.layout x.2 := by
  obtain ⟨was, cursors', run, fewer⟩ :=
    Sequence.Session.exists_run_close (q := r.layout) (fun _ => rfl) name hasSink cursors
  exact ⟨was, cursors', run, fun x hx => grounded x (fewer hx)⟩

/-- A step that moves a cursor. -/
theorem walk {move : Cursor → Action (Stack α) (β × Cursor)}
    (quiet : ∀ c, Grounded r.layout c →
      ∃ x c', (move c).run r.layout = .ok (x, c') r.layout ∧ Grounded r.layout c')
    (name : String) (missing : β) (reply : β → Reply α) :
    ∃ y s', (do return reply (← Sequence.Session.walk name move missing)).run
        ⟨r.layout, hasSink, cursors⟩ = .ok y s' ∧ Fits y none ∧
      Holds s' (r.chain.map Node.value) := by
  obtain ⟨x, cursors', walk, grounded'⟩ :=
    Sequence.Session.exists_run_walk quiet name missing hasSink grounded
  exact ⟨reply x, _, Action.run_bind_ok walk _, nofun, r, rfl, rfl, grounded'⟩

end

/-- Copying the values into a buffer answers as it does for the list. -/
theorem run_copyTo (r : Account α) (dest : List α) (index : Nat) :
    ∃ x, (Exchange.copyTo dest index : Action (Stack α) _).run r.layout = .ok x r.layout ∧
      Reply.ofCopy x = OnList.copyTo (r.chain.map Node.value) dest index := by
  rw [Exchange.copyTo, OnList.copyTo]
  by_cases beyond : index > dest.length
  · rw [if_pos beyond, if_pos beyond]
    exact ⟨_, rfl, rfl⟩
  · rw [if_neg beyond, if_neg beyond]
    refine ⟨_, Action.run_bind_ok r.run_toList_layout _, ?_⟩
    split <;> rfl

variable [Outlined α]

/-- One step. -/
theorem step (h : Holds s l) (x : Sequence.Step (Special α) α) :
    ∃ reply s', (Sequence.Session.run Special.run x).run s = .ok reply s' ∧
      Fits reply (OnList.step l x).1 ∧ Holds s' (OnList.step l x).2 := by
  obtain ⟨c, hasSink, cursors⟩ := s
  obtain ⟨r, collection, rfl, grounded⟩ := h
  obtain rfl : c = r.layout := collection
  have grounded : ∀ x ∈ cursors, Grounded r.layout x.2 := grounded
  have head : r.chain.head?.map Node.value = (r.chain.map Node.value).head? :=
    List.head?_map.symm
  have tail : (r.pop 1).chain.map Node.value = (r.chain.map Node.value).tail :=
    List.map_drop.trans List.drop_one
  cases x with
  | put v =>
    exact act grounded (r.run_push_layout v) (.push r [v]) (fun _ => .done) rfl
      (r.map_value_pushAll [v])
  | take => exact act grounded r.run_pop?_layout (.pop r 1) .value (congrArg _ head) tail
  | takeMany n =>
    exact act grounded (r.run_takeMany_layout n) (.pop r n) .values
      (congrArg _ (r.map_value_take n)) (r.map_value_pop n)
  | peek => exact look grounded r.run_peek?_layout .value (congrArg _ head)
  | isEmpty => exact look grounded rfl .flag (congrArg _ r.reads.isEmpty)
  | size => exact look grounded rfl .count (congrArg _ r.reads.size)
  | toList => exact look grounded r.run_toList_layout .values rfl
  | debug expanded => exact look grounded r.run_displayed_layout _ rfl
  | extend items =>
    exact act grounded (r.run_pushRange_layout items) (.push r items) (fun _ => .done) rfl
      (r.map_value_pushAll items)
  | renew => exact ⟨.done, _, rfl, .some rfl, .new _⟩
  | collect items =>
    have run := Account.new.run_pushRange_layout items
    refine ⟨.done, ⟨(Account.new.push items).layout, false, []⟩, ?_, .some rfl, ?_⟩
    · exact Action.run_bind_ok (Sequence.Session.run_act run false []) _
    · exact ⟨_, rfl, Account.new.map_value_pushAll items, nofun⟩
  | drain n =>
    have run := Sequence.Session.run_act (r.run_takeMany_layout n) hasSink cursors
    refine ⟨_, ⟨empty, false, []⟩, Action.run_bind_ok run _, ?_, .new _⟩
    exact .some (congrArg _ (r.map_value_take n))
  | openCursor name =>
    obtain ⟨was, cursors', close, grounded'⟩ := exists_run_close grounded name hasSink
    refine ⟨.done, Sequence.Session.setCursor name r.layout.head ⟨r.layout, hasSink, cursors'⟩,
      Action.run_bind_ok close _, .some rfl, r, rfl, rfl, ?_⟩
    exact Sequence.Session.forall_setCursor grounded' ⟨_, r.leads_layout⟩ name r.layout hasSink
  | next name =>
    refine walk grounded ?_ name none .value
    rintro c ⟨nodes, way⟩
    exact ⟨_, _, Account.run_next?_layout way, _, Account.leads_next? way⟩
  | rest name =>
    refine walk grounded ?_ name [] .values
    rintro c ⟨nodes, way⟩
    exact ⟨_, _, Account.run_rest_layout way, [], rfl⟩
  | closeCursor name =>
    obtain ⟨was, cursors', close, grounded'⟩ := exists_run_close grounded name hasSink
    exact ⟨.flag was, _, Action.run_bind_ok close _, nofun, r, rfl, rfl, grounded'⟩
  | offer v =>
    have run : (Exchange.offer v : Action (Stack α) (Option α)).run r.layout =
        .ok none (r.push [v]).layout := Action.run_bind_ok (r.run_push_layout v) _
    exact act grounded run (.push r [v]) .ofOffer rfl (r.map_value_pushAll [v])
  | exchangeTake => exact act grounded r.run_pop?_layout (.pop r 1) .value (congrArg _ head) tail
  | exchangeItems => exact look grounded r.run_toList_layout .values rfl
  | exchangeCount => exact look grounded rfl .count (congrArg _ r.reads.size)
  | exchangeIsEmpty =>
    have none : decide (r.layout.size = 0) = (r.chain.map Node.value).isEmpty := by
      rw [r.reads.size]
      cases r.chain <;> rfl
    exact look grounded rfl .flag (congrArg _ none)
  | copyTo dest index =>
    obtain ⟨x, run, fits⟩ := run_copyTo r dest index
    exact look grounded run .ofCopy fits
  | special x =>
    obtain ⟨fits, values⟩ := r.special_eq x
    have run := Sequence.Session.run_act (r.run_special x) hasSink cursors
    refine ⟨_, _, run, .some fits, _, rfl, values, fun y hy => ?_⟩
    exact (grounded y hy).imp fun _ way => (r.follows_special x).leads way

end Holds

/-! ## The refinement -/

/-- A session on a stack, whatever its steps, answers as the same steps on a list do. At its end all
nodes of the chain are written and not taken, all ways to look at the values show the list, and a
range moves as its values do one after the other. -/
theorem session_refines_list [Outlined α] (steps : List (Sequence.Step (Special α) α))
    (hasSink : Bool) :
    ∃ replies s, (follow (Sequence.Session.run Special.run) steps).run
        (⟨empty, hasSink, []⟩ : Sequence.Session (Stack α) Cursor) = .ok replies s ∧
      List.Forall₂ Fits replies (OnList.after steps).1 ∧
      (∀ n ∈ s.collection.chain, ∃ c, s.collection.cells[n.id]? = some c ∧ c.value = n.value ∧
        c.slot.isWritten = true ∧ c.slot.isTaken = false) ∧
      Reads s.collection (OnList.after steps).2 ∧
      (∀ values, (pushRange values).run s.collection = (values.forM Stack.push).run s.collection) ∧
      ∀ count, (popRange count).run s.collection =
        (Exchange.takeMany count : Action (Stack α) (List α)).run s.collection := by
  obtain ⟨replies, s, run, fits, r, collection, values, -⟩ :=
    exists_follow_fitting Holds.step (Holds.new hasSink) steps
  refine ⟨replies, s, run, fits, ?_⟩
  rw [collection]
  refine ⟨?_, ?_, r.run_pushRange_eq_forM, r.run_popRange_eq_takeMany⟩
  · intro n hn
    rw [Account.chain_layout] at hn
    obtain ⟨c, cell, value⟩ := r.exists_cell_of_mem hn
    refine ⟨c, cell, value, ?_⟩
    rw [Account.slot_layout cell, mark_of_notMem (Account.notMem_popped hn)]
    decide
  · change Reads r.layout (answers OnList.step [] steps).2
    rw [← values]
    exact r.reads

end SharedCollections.Stack

import SharedCollections.Proofs.Drive
import SharedCollections.Proofs.Stack.Account
import SharedCollections.Stack.Range
import SharedCollections.Stack.Snapshot
/-!
# What calls do to the account of a stack

Each operation on a stack, run alone, makes the layout of one account the layout of another one. No
exchange of the head fails, so a push comes to its nodes on top of the others (`run_pushRange`). A
pop passes nodes on top, takes them off with one exchange, and then marks their slots one by one;
all ways to pop come down to this (`drive_popping`). A look registers as a reader and leaves a slot
as it found it.
-/

namespace SharedCollections.Stack

variable {α : Type} {s : Stack α} {r : Account α} {x : Option Nat} {l behind : List (Node α)}
  {values : List α} {count a : Nat} {c : Cell α}

/-! ## Pushing -/

/-- The stack with one more node on top. -/
def onTop (s : Stack α) (v : α) : Stack α := { s.alloc v s.head with head := some s.cells.size }

/-- A node that is linked later might as well be linked before the next one is made. -/
theorem link_alloc (inside : a < s.cells.size) (v : α) (next : Option Nat) :
    (s.alloc v next).link a x = (s.link a x).alloc v next := by
  have size : (s.link a x).cells.size = s.cells.size := Array.size_modify
  refine eq_of_cells rfl rfl fun b => ?_
  rw [getElem?_link, getElem?_alloc, getElem?_alloc, getElem?_link, size]
  by_cases same : a = b
  · subst same
    simp [Nat.ne_of_lt inside]
  · simp [same]

theorem link_alloc_self (v : α) (next : Option Nat) :
    (s.alloc v next).link s.cells.size x = s.alloc v x := by
  refine eq_of_cells rfl rfl fun b => ?_
  rw [getElem?_link, getElem?_alloc, getElem?_alloc]
  by_cases same : s.cells.size = b
  · simp [same]
  · simp [same, Ne.symm same]

/-- A push that has built nodes down to `bottom` comes to the same as if it had put them on top and
then pushed the rest of its values. -/
theorem drive_building (rest : List α) {top bottom : Nat} (inside : bottom < s.cells.size) :
    drive Pushing.step (rest.length + 4) (.building top bottom rest) s =
      .ok () (rest.foldl onTop { s.link bottom s.head with head := some top }) := by
  induction rest generalizing s top with
  | nil =>
    have exchange : Pushing.step (.exchanging top bottom s.head : Pushing α)
        (s.link bottom s.head) = (.done (), { s.link bottom s.head with head := some top }) :=
      if_pos rfl
    exact drive_succ_done 0 exchange
  | cons v rest ih =>
    have step : Pushing.step (.building top bottom (v :: rest)) s =
        (.next (.building s.cells.size bottom rest), s.alloc v (some top)) := rfl
    have inside' : bottom < (s.alloc v (some top)).cells.size := by
      rw [alloc, Array.size_push]
      exact Nat.lt_succ_of_lt inside
    have size : (s.link bottom s.head).cells.size = s.cells.size := Array.size_modify
    rw [List.length_cons, Nat.add_right_comm, drive_succ_next _ step, ih inside', List.foldl_cons,
      link_alloc inside, onTop, ← size]
    rfl

theorem drive_pushing (v : α) (rest : List α) :
    drive Pushing.step (rest.length + 5) (.starting v rest) s =
      .ok () ((v :: rest).foldl onTop s) := by
  have step : Pushing.step (.starting v rest) s =
      (.next (.building s.cells.size s.cells.size rest), s.alloc v none) := rfl
  have inside : s.cells.size < (s.alloc v none).cells.size := by
    rw [alloc, Array.size_push]
    exact Nat.lt_succ_self _
  rw [drive_succ_next _ step, drive_building rest inside, link_alloc_self]
  rfl

theorem run_push (v : α) : (push v).run s = .ok () (s.onTop v) := drive_pushing v []

theorem run_pushRange (vs : List α) : (pushRange vs).run s = .ok () (vs.foldl onTop s) := by
  cases vs with
  | nil => rfl
  | cons v rest => exact drive_pushing v rest

namespace Account

theorem onTop_layout (r : Account α) (v : α) : r.layout.onTop v = (r.put v).layout := by
  have cells : (laidCells r.pushed r.popped).push ⟨v, r.chain.head?.map Node.id, .written⟩ =
      laidCells (r.pushed ++ [(v, r.chain.head?.map Node.id)]) r.popped :=
    push_laidCells r.lt_length
  simp only [onTop, alloc, layout, laidOut, size_laidCells, cells]
  rfl

theorem run_push_layout (r : Account α) (v : α) :
    (Stack.push v).run r.layout = .ok () (r.push [v]).layout := by
  rw [run_push, onTop_layout]
  rfl

theorem run_pushRange_layout (r : Account α) (vs : List α) :
    (pushRange vs).run r.layout = .ok () (r.push vs).layout := by
  rw [run_pushRange]
  congr 1
  induction vs generalizing r with
  | nil => rfl
  | cons v vs ih => rw [List.foldl_cons, onTop_layout, ih]; rfl

end Account

/-! ## Popping -/

section

variable {first last passed : Nat} {ρ : Type}

/-- A pop walks down nodes from the one that was passed last, of which `left` more are to be passed,
or fewer if the chain ends before. -/
theorem drive_walking {left b : Nat} {t : Stack α} (cell : s.cells[last]? = some c)
    (way : s.Leads c.next behind none) (sum : passed + left = count)
    (exchange : drive (Popping.step count) b
      (.exchanging first (passed + min left behind.length) ((behind.drop left).head?.map Node.id))
      s = .ok values t) :
    drive (Popping.step count) (b + left + 2) (.walking first last passed) s = .ok values t := by
  induction left generalizing passed last c behind with
  | zero =>
    have step : Popping.step count (.walking first last passed) s =
        (.next (.exchanging first passed c.next), s) := by
      simp only [Popping.step, onCell, cell, if_neg (show ¬ passed < count by omega)]
    rw [Nat.zero_min, List.drop_zero, ← way.start_eq] at exchange
    rw [drive_succ_next _ step]
    exact drive_mono exchange (Nat.le_succ b)
  | succ left ih =>
    have more : passed < count := by omega
    cases behind with
    | nil =>
      have step : Popping.step count (.walking first last passed) s =
          (.next (.closing first last passed), s) := by
        simp only [Popping.step, onCell, cell, if_pos more, show c.next = none from way]
      have close : Popping.step count (.closing first last passed) s =
          (.next (.exchanging first passed none), s) := by
        simp only [Popping.step, onCell, cell, show c.next = none from way]
      rw [drive_succ_next _ step, drive_succ_next _ close]
      exact drive_mono exchange (Nat.le_add_right b _)
    | cons n behind =>
      obtain ⟨here, c', cell', -, way'⟩ := way
      have step : Popping.step count (.walking first last passed) s =
          (.next (.walking first n.id (passed + 1)), s) := by
        simp only [Popping.step, onCell, cell, if_pos more, here]
      have passing : passed + min (left + 1) (n :: behind).length =
          passed + 1 + min left behind.length := by
        rw [List.length_cons, Nat.succ_min_succ]
        omega
      rw [passing, List.drop_succ_cons] at exchange
      rw [drive_succ_next _ step]
      exact ih cell' way' (by omega) exchange

/-- A pop takes the values of the nodes that it has taken off, and marks their slots. -/
theorem drive_following {pushed : List (α × Option Nat)} {popped : List Nat}
    (cells : s.cells = laidCells pushed popped) (way : s.Leads x (l ++ behind) none) :
    drive (Popping.step count) (3 * l.length + 1) (.following x l.length values) s =
      .ok (values.reverse ++ l.map Node.value)
        { s with cells := laidCells pushed (popped ++ l.map Node.id) } := by
  induction l generalizing s x values popped with
  | nil =>
    have step : Popping.step count (.following x 0 values) s = (.done values.reverse, s) := rfl
    rw [List.length_nil, drive_succ_done _ step, List.map_nil, List.append_nil, List.map_nil,
      List.append_nil, ← cells]
  | cons n l ih =>
    obtain ⟨rfl, c, cell, value, below⟩ := way
    obtain ⟨p, here, rfl⟩ :=
      Option.map_eq_some_iff.mp (getElem?_laidCells.symm.trans (cells ▸ cell))
    let taken : Stack α := { s with cells := laidCells pushed (popped ++ [n.id]) }
    have cell' : taken.cells[n.id]? = some ⟨p.1, p.2, mark (popped ++ [n.id]) n.id⟩ :=
      getElem?_laidCells.trans (here ▸ rfl)
    have mark : s.modifyCell n.id ({ · with slot := (mark popped n.id).markTaken }) = taken := by
      rw [modifyCell, cells, modify_laidCells]
    have follow : Popping.step count (.following (some n.id) (l.length + 1) values) s =
        (.next (.taking n.id p.2 l.length values .marking), s) := by
      simp only [Popping.step, onCell, cell]
    have take : Popping.step count (.taking n.id p.2 l.length values .marking) s =
        (.next (.moving n.id p.2 l.length values), taken) := by
      simp only [Popping.step, stepSlot, cell, Slot.Taking.step, isRead_mark, mark]
      rfl
    have move : Popping.step count (.moving n.id p.2 l.length values) taken =
        (.next (.following p.2 l.length (n.value :: values)), taken) := by
      simp only [Popping.step, onCell, cell', ← value]
    rw [List.length_cons, Nat.mul_succ, Nat.add_right_comm, drive_succ_next _ follow,
      drive_succ_next _ take, drive_succ_next _ move,
      ih rfl (Leads.laid below cells rfl List.prefix_rfl)]
    simp [taken]

end

namespace Account

theorem layout_pop (r : Account α) (count : Nat) : (r.pop count).layout =
    { r.layout with
      head := (r.chain.drop count).head?.map Node.id
      cells := laidCells r.pushed (r.popped ++ (r.chain.take count).map Node.id) } := rfl

/-- A pop takes the nodes on top. -/
theorem drive_popping (r : Account α) (left : Nat) :
    drive (Popping.step (left + 1)) (4 * (left + 1) + 4) .loading r.layout =
      .ok ((r.chain.take (left + 1)).map Node.value) (r.pop (left + 1)).layout := by
  rw [layout_pop]
  cases chain : r.chain with
  | nil =>
    have head : r.layout.head = none := congrArg (·.head?.map Node.id) chain
    have load : Popping.step (left + 1) .loading r.layout = (.done [], r.layout) := by
      simp only [Popping.step, head]
    rw [drive_succ_done _ load]
    simp [layout, laidOut, chain]
  | cons n rest =>
    -- one node was passed when the head was loaded, and there are `left` to go
    let todo := (n :: rest).take (left + 1)
    let below := (rest.drop left).head?.map Node.id
    let s : Stack α := { r.layout with head := below }
    have head : r.layout.head = some n.id := congrArg (·.head?.map Node.id) chain
    have way := r.leads_layout
    rw [head, chain] at way
    have length : todo.length = 1 + min left rest.length := by
      rw [List.length_take, List.length_cons, Nat.succ_min_succ, Nat.add_comm]
    have load : Popping.step (left + 1) .loading r.layout =
        (.next (.walking n.id n.id 1), r.layout) := by
      simp only [Popping.step, head]
    have exchange : Popping.step (left + 1) (.exchanging n.id (1 + min left rest.length) below)
        r.layout = (.next (.following (some n.id) todo.length []), s) := by
      simp only [Popping.step, head, if_true, length, s]
    have split : todo ++ rest.drop left = n :: rest := List.take_append_drop (left + 1) (n :: rest)
    have follow : drive (Popping.step (left + 1)) (3 * todo.length + 1)
        (.following (some n.id) todo.length []) s = _ :=
      drive_following rfl ((split.symm ▸ way : r.layout.Leads _ (todo ++ _) _).laid rfl rfl
        List.prefix_rfl)
    obtain ⟨-, c, cell, -, behind⟩ := way
    have enough : 3 * todo.length + 1 + 1 + left + 2 + 1 ≤ 4 * (left + 1) + 4 := by omega
    refine drive_mono ?_ enough
    rw [drive_succ_next _ load]
    refine drive_walking cell behind (Nat.add_comm 1 left) ?_
    rw [drive_succ_next _ exchange, follow]
    rfl

theorem run_popRange_layout (r : Account α) (count : Nat) : (popRange count).run r.layout =
    .ok ((r.chain.take count).map Node.value) (r.pop count).layout := by
  cases count with
  | zero =>
    rw [layout_pop]
    simp [popRange, layout, laidOut]
  | succ left => exact r.drive_popping left

theorem run_pop?_layout (r : Account α) : pop?.run r.layout =
    .ok (r.chain.head?.map Node.value) (r.pop 1).layout := by
  have run : (alone (Popping.step 1) 8 .loading).run r.layout =
      .ok ((r.chain.take 1).map Node.value) (r.pop 1).layout := r.drive_popping 0
  rw [pop?, Action.run_bind_ok run]
  cases r.chain <;> rfl

theorem run_clear_layout (r : Account α) : Stack.clear.run r.layout = .ok () r.clear.layout := rfl

end Account

/-! ## Looking at one node -/

theorem setSlot_self (cell : s.cells[a]? = some c) :
    s.modifyCell a ({ · with slot := c.slot }) = s := by
  refine eq_of_cells rfl rfl fun b => ?_
  rw [getElem?_modifyCell]
  by_cases same : a = b
  · subst same
    rw [if_pos rfl, cell]
    rfl
  · rw [if_neg same]

theorem setSlot_setSlot (slot slot' : Slot) :
    (s.modifyCell a ({ · with slot })).modifyCell a ({ · with slot := slot' }) =
      s.modifyCell a ({ · with slot := slot' }) := by
  refine eq_of_cells rfl rfl fun b => ?_
  rw [getElem?_modifyCell, getElem?_modifyCell, getElem?_modifyCell]
  by_cases same : a = b
  · simp [same, Function.comp_def]
  · simp [same]

/-- One step of a look at the value of the node at `a`. -/
def lookStep (a : Nat) (point : Slot.Reading α) (s : Stack α) :
    Progress (Slot.Reading α) (Option α) × Stack α :=
  s.stepSlot a fun c => point.step (.ok c.value) c.slot

/-- An operation that looks at a value goes on with what the look finds. -/
theorem stepSlot_lift {π ρ : Type} (s : Stack α) (point : Slot.Reading α)
    (wrap : Slot.Reading α → π) (finish : Option α → Progress π ρ) :
    (s.stepSlot a fun c =>
      ((point.step (.ok c.value) c.slot).1.lift wrap finish,
        (point.step (.ok c.value) c.slot).2)) =
      ((lookStep a point s).1.lift wrap finish, (lookStep a point s).2) := by
  rw [lookStep, stepSlot, stepSlot]
  cases s.cells[a]? <;> rfl

/-- A look finds the value unless it was taken, and leaves everything as it was. -/
theorem drive_lookStep (cell : s.cells[a]? = some c) :
    drive (lookStep a) 3 .arriving s = .ok (if c.slot.isTaken then none else some c.value) s := by
  let inside := s.modifyCell a ({ · with slot := c.slot.arrive })
  have cell' : inside.cells[a]? = some { c with slot := c.slot.arrive } := by
    rw [getElem?_modifyCell, if_pos rfl, cell]
    rfl
  have leave (seen : Option α) : lookStep a (.leaving (.ok seen)) inside = (.done seen, s) := by
    simp only [lookStep, stepSlot, cell', Slot.Reading.step, Slot.arrive_leave, inside,
      setSlot_setSlot, setSlot_self cell]
  by_cases taken : c.slot.isTaken = true
  · have arrive : lookStep a .arriving s = (.next (.leaving (.ok none)), inside) := by
      simp only [lookStep, stepSlot, cell, Slot.Reading.step, if_pos taken, inside]
    rw [if_pos taken, drive_succ_next _ arrive, drive_succ_done _ (leave none)]
  · have arrive : lookStep a .arriving s = (.next .looking, inside) := by
      simp only [lookStep, stepSlot, cell, Slot.Reading.step, if_neg taken, inside]
    have look : lookStep a .looking inside = (.next (.leaving (.ok (some c.value))), inside) := by
      simp only [lookStep, stepSlot, cell', Slot.Reading.step, inside, setSlot_setSlot]
      rfl
    rw [if_neg taken, drive_succ_next _ arrive, drive_succ_next _ look, drive_succ_done _ (leave _)]

theorem run_read? (cell : s.cells[a]? = some c) :
    (read? a).run s = .ok (if c.slot.isTaken then none else some c.value) s := by
  have run : (Slot.readWith (pure c.value)).run c.slot =
      .ok (if c.slot.isTaken then none else some c.value) c.slot := by
    by_cases taken : c.slot.isTaken = true
    · rw [if_pos taken, Slot.readWith, Action.run_mk, if_pos taken, Slot.arrive_leave]
    · rw [if_neg taken, Slot.readWith, Action.run_mk, if_neg taken, Action.run_pure]
      exact congrArg _ c.slot.arrive_leave
  rw [read?, Action.run_mk, cell]
  simp only [run, setSlot_self cell]

/-! ## Looking at many -/

namespace Account

/-- A look finds the value of a node that was not popped. -/
theorem look_layout {n : Node α} (cell : r.layout.cells[n.id]? = some c)
    (value : c.value = n.value) : (if c.slot.isTaken then none else some c.value) =
      if n.id ∈ r.popped then none else some n.value := by
  rw [slot_layout cell, isTaken_mark, value]
  simp only [decide_eq_true_eq]

theorem run_peek?_layout (r : Account α) :
    peek?.run r.layout = .ok (r.chain.head?.map Node.value) r.layout := by
  cases chain : r.chain with
  | nil =>
    have head : r.layout.head = none := congrArg (·.head?.map Node.id) chain
    have load : Peeking.step .loading r.layout = (.done none, r.layout) := by
      simp only [Peeking.step, head]
    exact drive_succ_done 3 load
  | cons n rest =>
    have head : r.layout.head = some n.id := congrArg (·.head?.map Node.id) chain
    have load : Peeking.step .loading r.layout = (.next (.reading n.id .arriving), r.layout) := by
      simp only [Peeking.step, head]
    have way := r.leads_layout
    rw [chain] at way
    obtain ⟨-, c, cell, value, -⟩ := way
    have look := drive_lookStep cell
    rw [look_layout cell value, if_neg (notMem_popped (chain ▸ List.mem_cons_self))] at look
    exact (drive_succ_next 3 load).trans
      (drive_lift (fun point s => stepSlot_lift s point _ _) (b := 0) look rfl)

/-- A cursor skips nodes that were popped. -/
theorem drive_seeking (way : r.layout.Leads x l none) :
    drive Visiting.step (4 * l.length + 1) (.seeking x) r.layout =
      .ok ((l.dropWhile (·.id ∈ r.popped)).head?.map Node.value,
        (l.dropWhile (·.id ∈ r.popped)).tail.head?.map Node.id) r.layout := by
  induction l generalizing x with
  | nil =>
    obtain rfl : x = none := way
    rfl
  | cons n l ih =>
    obtain ⟨rfl, c, cell, value, below⟩ := way
    have seek : Visiting.step (.seeking (some n.id)) r.layout =
        (.next (.reading n.id c.next .arriving), r.layout) := by
      simp only [Visiting.step, onCell, cell]
    have look := drive_lookStep cell
    rw [look_layout cell value] at look
    have bound : 4 * (n :: l).length + 1 = 3 + (4 * l.length + 1) + 1 := by
      rw [List.length_cons]
      omega
    rw [bound, drive_succ_next _ seek]
    refine drive_lift (fun point s => stepSlot_lift s point _ _) look ?_
    by_cases popped : n.id ∈ r.popped
    · rw [if_pos popped, List.dropWhile_cons_of_pos (by simpa using popped)]
      exact ih below
    · rw [if_neg popped, List.dropWhile_cons_of_neg (by simpa using popped)]
      exact congrArg (fun next => EStateM.Result.ok (some n.value, next) r.layout) below.start_eq

/-- A cursor gives the value of the first node that was not popped. -/
theorem run_next?_layout (way : r.layout.Leads x l none) : (Cursor.next? x).run r.layout =
    .ok ((l.dropWhile (·.id ∈ r.popped)).head?.map Node.value,
      (l.dropWhile (·.id ∈ r.popped)).tail.head?.map Node.id) r.layout :=
  drive_mono (drive_seeking way)
    (Nat.add_le_add_right (Nat.mul_le_mul_left 4 way.length_le) 1)

/-- The way behind the cursor after that. -/
theorem leads_next? (way : r.layout.Leads x l none) : r.layout.Leads
    ((l.dropWhile (·.id ∈ r.popped)).tail.head?.map Node.id)
    (l.dropWhile (·.id ∈ r.popped)).tail none := by
  obtain ⟨skipped, eq⟩ := (List.tail_suffix _).trans (l.dropWhile_suffix (·.id ∈ r.popped))
  rw [← eq] at way
  obtain ⟨y, -, rest⟩ := leads_append.mp way
  exact rest.start_eq ▸ rest

theorem filter_dropWhile (popped : List Nat) (l : List (Node α)) :
    (l.dropWhile (·.id ∈ popped)).filter (·.id ∉ popped) = l.filter (·.id ∉ popped) := by
  induction l with
  | nil => rfl
  | cons n l ih =>
    by_cases here : n.id ∈ popped
    · rw [List.dropWhile_cons_of_pos (by simpa using here), ih,
        List.filter_cons_of_neg (by simpa using here)]
    · rw [List.dropWhile_cons_of_neg (by simpa using here)]

theorem run_collect_layout {bound : Nat} (way : r.layout.Leads x l none)
    (enough : l.length < bound) : (Cursor.collect bound x).run r.layout =
      .ok ((l.filter (·.id ∉ r.popped)).map Node.value, none) r.layout := by
  induction bound generalizing x l with
  | zero => cases enough
  | succ bound ih =>
    rw [Cursor.collect, Action.run_bind_ok (run_next?_layout way), ← filter_dropWhile]
    have left := leads_next? way
    have short := (l.dropWhile_suffix (·.id ∈ r.popped)).length_le
    cases ahead : l.dropWhile (·.id ∈ r.popped) with
    | nil => rfl
    | cons n behind =>
      rw [ahead] at left short
      have here := List.head?_dropWhile_not (·.id ∈ r.popped) l
      rw [ahead] at here
      rw [List.filter_cons_of_pos (by simpa using here)]
      refine (Action.run_bind_ok (ih left ?_) _).trans ?_
      · exact Nat.lt_of_succ_le (Nat.le_trans short (Nat.le_of_lt_succ enough))
      · rfl

theorem run_rest_layout (way : r.layout.Leads x l none) : (Cursor.rest x).run r.layout =
    .ok ((l.filter (·.id ∉ r.popped)).map Node.value, none) r.layout := by
  rw [Cursor.rest, Action.run_get_bind]
  exact run_collect_layout way (Nat.lt_succ_of_le way.length_le)

theorem filter_chain : r.chain.filter (·.id ∉ r.popped) = r.chain :=
  List.filter_eq_self.mpr fun _ hn => by simpa using notMem_popped hn

theorem run_toList_layout (r : Account α) :
    toList.run r.layout = .ok (r.chain.map Node.value) r.layout := by
  have run := run_rest_layout r.leads_layout
  rw [filter_chain] at run
  rw [toList, Action.run_get_bind]
  exact Action.run_bind_ok run _

theorem run_shown_layout {bound : Nat} (way : r.layout.Leads x l none)
    (enough : l.length ≤ bound) : (shown bound x).run r.layout =
      .ok ((l.filter (·.id ∉ r.popped)).map Node.value) r.layout := by
  induction l generalizing x bound with
  | nil =>
    obtain rfl : x = none := way
    cases bound <;> rfl
  | cons n l ih =>
    obtain ⟨rfl, c, cell, value, behind⟩ := way
    cases bound with
    | zero => cases enough
    | succ bound =>
      have look := run_read? cell
      rw [look_layout cell value] at look
      have link : (below n.id).run r.layout = .ok c.next r.layout := by
        rw [below, Action.run_get_bind, cell]
        rfl
      rw [shown, Action.run_bind_ok look, Action.run_bind_ok link,
        Action.run_bind_ok (ih behind (Nat.le_of_succ_le_succ enough))]
      by_cases popped : n.id ∈ r.popped
      · rw [if_pos popped, List.filter_cons_of_neg (by simpa using popped)]
        rfl
      · rw [if_neg popped, List.filter_cons_of_pos (by simpa using popped)]
        rfl

theorem run_displayed_layout (r : Account α) :
    displayed.run r.layout = .ok (r.chain.map Node.value) r.layout := by
  have run := run_shown_layout r.leads_layout r.leads_layout.length_le
  rw [filter_chain] at run
  rw [displayed, Action.run_get_bind, Action.run_get_bind]
  exact run

end Account

end SharedCollections.Stack

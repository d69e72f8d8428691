import Mathlib.Data.List.Nodup
import SharedCollections.Proofs.Slot
import SharedCollections.Proofs.Stack.Links
/-!
# What a stack has gone through

A stack that no operation is busy with is determined by its chain, by the nodes that were ever
pushed, and by which of them were popped (`Account.layout`). A slot is marked as taken exactly if
its node was popped; a node that was detached otherwise keeps its value. No link is written again
after its node was pushed, so a way that was there once is there ever after
(`Account.Follows.leads`).
-/

namespace SharedCollections.Stack

variable {α : Type}

/-! ## Nodes in memory -/

/-- The slot of the node at `a` after the nodes `popped` were popped. -/
def mark (popped : List Nat) (a : Nat) : Slot :=
  if a ∈ popped then Slot.written.markTaken else .written

/-- The cells of nodes with these values and links, of which `popped` were popped. -/
def laidCells (pushed : List (α × Option Nat)) (popped : List Nat) : Array (Cell α) :=
  (pushed.mapIdx fun a p => ⟨p.1, p.2, mark popped a⟩).toArray

/-- The stack with this chain. -/
def laidOut (chain : List (Node α)) (pushed : List (α × Option Nat)) (popped : List Nat) :
    Stack α :=
  ⟨chain.head?.map Node.id, laidCells pushed popped, #[]⟩

section

variable {popped popped' : List Nat} {pushed pushed' : List (α × Option Nat)} {a : Nat} {v : α}
  {next : Option Nat}

theorem mark_of_notMem (h : a ∉ popped) : mark popped a = .written := if_neg h

theorem isTaken_mark : (mark popped a).isTaken = decide (a ∈ popped) := by
  by_cases h : a ∈ popped
  · rw [mark, if_pos h, decide_eq_true h]
    decide
  · rw [mark, if_neg h, decide_eq_false h]
    decide

theorem isRead_mark : (mark popped a).isRead = false := by
  by_cases h : a ∈ popped
  · rw [mark, if_pos h]
    decide
  · rw [mark, if_neg h]
    decide

theorem markTaken_mark : (mark popped a).markTaken = Slot.written.markTaken := by
  by_cases h : a ∈ popped
  · rw [mark, if_pos h]
    decide
  · rw [mark, if_neg h]

@[simp] theorem size_laidCells : (laidCells pushed popped).size = pushed.length := by
  simp [laidCells]

theorem getElem?_laidCells :
    (laidCells pushed popped)[a]? = pushed[a]?.map fun p => ⟨p.1, p.2, mark popped a⟩ := by
  simp [laidCells]

/-- The slot of a new node is not marked. -/
theorem push_laidCells (lt : ∀ i ∈ popped, i < pushed.length) :
    (laidCells pushed popped).push ⟨v, next, .written⟩ =
      laidCells (pushed ++ [(v, next)]) popped := by
  have free : mark popped pushed.length = .written :=
    mark_of_notMem fun old => Nat.lt_irrefl _ (lt _ old)
  simp [laidCells, List.mapIdx_append, free]

/-- The slot of a node is marked when the node is popped. -/
theorem modify_laidCells :
    (laidCells pushed popped).modify a ({ · with slot := (mark popped a).markTaken }) =
      laidCells pushed (popped ++ [a]) := by
  refine Array.ext_getElem? fun b => ?_
  rw [Array.getElem?_modify, getElem?_laidCells, getElem?_laidCells, markTaken_mark, Option.map_map]
  by_cases same : a = b
  · subst same
    simp [mark, Function.comp_def]
  · simp [mark, same, Ne.symm same]

/-- A way stays when more nodes are pushed and popped. -/
theorem Leads.laid {s s' : Stack α} {l : List (Node α)} {x y : Option Nat} (way : s.Leads x l y)
    (before : s.cells = laidCells pushed popped) (after : s'.cells = laidCells pushed' popped')
    (grown : pushed <+: pushed') : s'.Leads x l y := by
  obtain ⟨new, rfl⟩ := grown
  refine way.mono fun n _ c cell => ?_
  rw [before, getElem?_laidCells] at cell
  obtain ⟨p, here, rfl⟩ := Option.map_eq_some_iff.mp cell
  have inside := (List.getElem?_eq_some_iff.mp here).1
  refine ⟨⟨p.1, p.2, mark popped' n.id⟩, ?_, rfl, rfl⟩
  rw [after, getElem?_laidCells, List.getElem?_append_left inside, here, Option.map_some]

end

/-! ## Accounts -/

/-- What a stack has gone through. -/
@[ext]
structure Account (α : Type) where
  /-- The value and the link of every node that was pushed, by address. -/
  pushed : List (α × Option Nat)
  /-- The nodes from the top down. -/
  chain : List (Node α)
  /-- The nodes that were popped. -/
  popped : List Nat
  leads : (laidOut chain pushed popped).Leads (chain.head?.map Node.id) chain none
  /-- No node is popped twice, and none is in the chain that was popped. -/
  nodup : (popped ++ chain.map Node.id).Nodup
  lt_length : ∀ a ∈ popped, a < pushed.length

namespace Account

/-- A new stack. -/
def new : Account α := ⟨[], [], [], rfl, .nil, nofun⟩

variable (r : Account α)

/-- The stack. -/
def layout : Stack α := laidOut r.chain r.pushed r.popped

theorem leads_layout : r.layout.Leads r.layout.head r.chain none := r.leads

@[simp] theorem chain_layout : r.layout.chain = r.chain := r.leads_layout.chain_eq

theorem values_layout : r.layout.values = r.chain.map Node.value :=
  congrArg (List.map Node.value) r.chain_layout

theorem size_layout : r.layout.size = r.chain.length := congrArg List.length r.chain_layout

theorem isEmpty_layout : r.layout.isEmpty = r.chain.isEmpty := by
  rw [isEmpty, layout, laidOut]
  cases r.chain <;> rfl

variable {r} {n : Node α} {a : Nat}

@[simp] theorem size_cells_layout : r.layout.cells.size = r.pushed.length := size_laidCells

theorem getElem?_layout :
    r.layout.cells[a]? = r.pushed[a]?.map fun p => ⟨p.1, p.2, mark r.popped a⟩ :=
  getElem?_laidCells

theorem slot_layout {c : Cell α} (cell : r.layout.cells[a]? = some c) :
    c.slot = mark r.popped a := by
  obtain ⟨p, -, rfl⟩ := Option.map_eq_some_iff.mp (getElem?_layout.symm.trans cell)
  rfl

theorem notMem_popped (hn : n ∈ r.chain) : n.id ∉ r.popped := fun popped =>
  (List.nodup_append.mp r.nodup).2.2 n.id popped n.id (List.mem_map_of_mem hn) rfl

theorem exists_cell_of_mem (hn : n ∈ r.chain) :
    ∃ c, r.layout.cells[n.id]? = some c ∧ c.value = n.value := by
  obtain ⟨above, below, eq⟩ := List.append_of_mem hn
  have way := r.leads_layout
  rw [eq] at way
  obtain ⟨c, cell, value, -⟩ := way.cell
  exact ⟨c, cell, value⟩

theorem lt_of_mem_chain (hn : n ∈ r.chain) : n.id < r.pushed.length :=
  size_cells_layout (r := r) ▸ r.leads_layout.lt_size hn

variable (r)

/-- A value is pushed. -/
def put (v : α) : Account α where
  pushed := r.pushed ++ [(v, r.chain.head?.map Node.id)]
  chain := ⟨r.pushed.length, v⟩ :: r.chain
  popped := r.popped
  leads := by
    refine ⟨rfl, ⟨v, r.chain.head?.map Node.id, mark r.popped r.pushed.length⟩, ?_, rfl, ?_⟩
    · refine getElem?_laidCells.trans ?_
      rw [List.getElem?_concat_length, Option.map_some]
    · exact r.leads.laid rfl rfl (List.prefix_append ..)
  nodup := by
    refine List.nodup_middle.mpr (List.nodup_cons.mpr ⟨fun old => ?_, r.nodup⟩)
    rcases List.mem_append.mp old with popped | chained
    · exact Nat.lt_irrefl _ (r.lt_length _ popped)
    · obtain ⟨n, hn, same⟩ := List.mem_map.mp chained
      exact Nat.ne_of_lt (r.lt_of_mem_chain hn) same
  lt_length a popped := by
    rw [List.length_append]
    exact Nat.lt_add_right _ (r.lt_length a popped)

/-- Values are pushed, the last one on top. -/
def push (vs : List α) : Account α := vs.foldl put r

/-- The `n` nodes on top are popped. -/
def pop (n : Nat) : Account α where
  pushed := r.pushed
  chain := r.chain.drop n
  popped := r.popped ++ (r.chain.take n).map Node.id
  leads := by
    have way := r.leads
    rw [← List.take_append_drop n r.chain] at way
    obtain ⟨below, -, rest⟩ := leads_append.mp way
    rw [← rest.start_eq]
    exact rest.laid rfl rfl List.prefix_rfl
  nodup := by
    rw [List.append_assoc, ← List.map_append, List.take_append_drop]
    exact r.nodup
  lt_length a popped := by
    rcases List.mem_append.mp popped with old | top
    · exact r.lt_length a old
    · obtain ⟨n, hn, rfl⟩ := List.mem_map.mp top
      exact r.lt_of_mem_chain (List.mem_of_mem_take hn)

/-- All nodes are detached. -/
def clear : Account α where
  pushed := r.pushed
  chain := []
  popped := r.popped
  leads := rfl
  nodup := by
    rw [List.map_nil, List.append_nil]
    exact (List.nodup_append.mp r.nodup).1
  lt_length := r.lt_length

theorem map_value_push (vs : List α) :
    (r.push vs).chain.map Node.value = vs.reverse ++ r.chain.map Node.value := by
  induction vs generalizing r with
  | nil => rfl
  | cons v vs ih =>
    refine (ih (r.put v)).trans ?_
    rw [List.reverse_cons, List.append_assoc]
    rfl

/-! ## What comes of a stack -/

/-- The stack with account `r'` was the one with account `r` before. -/
structure Follows (r' r : Account α) : Prop where
  pushed : r.pushed <+: r'.pushed
  popped : r.popped ⊆ r'.popped

namespace Follows

variable {r r' r'' : Account α}

theorem refl (r : Account α) : Follows r r := ⟨List.prefix_rfl, List.Subset.refl _⟩

theorem trans (h : Follows r'' r') (h' : Follows r' r) : Follows r'' r :=
  ⟨h'.pushed.trans h.pushed, List.Subset.trans h'.popped h.popped⟩

theorem push (r : Account α) (vs : List α) : Follows (r.push vs) r := by
  induction vs generalizing r with
  | nil => exact .refl r
  | cons v vs ih => exact (ih (r.put v)).trans ⟨List.prefix_append .., List.Subset.refl _⟩

theorem pop (r : Account α) (n : Nat) : Follows (r.pop n) r :=
  ⟨List.prefix_rfl, List.subset_append_left ..⟩

theorem clear (r : Account α) : Follows r.clear r := ⟨List.prefix_rfl, List.Subset.refl _⟩

/-- A way that was there once is there ever after, whatever became of its nodes. -/
theorem leads (h : Follows r' r) {x y : Option Nat} {l : List (Node α)}
    (way : r.layout.Leads x l y) : r'.layout.Leads x l y :=
  way.laid rfl rfl h.pushed

end Follows

end Account

end SharedCollections.Stack

import Mathlib.Data.List.Perm.Subperm
import SharedCollections.Stack.Basic
/-!
# Links in memory

The links of a stack lead from node to node (`Leads`). Where they lead to the end there is one way
only, and it meets no node twice, so what a walk finds is all there is (`Leads.chain_eq`). A way
stays as it is while threads write nowhere but to nodes of their own (`Moves`).
-/

namespace SharedCollections.Stack

variable {α : Type} {m m' : Stack α} {x y z : Option Nat} {l l' : List (Node α)}

/-! ## Cells -/

theorem eq_of_cells (head : m.head = m'.head) (trace : m.trace = m'.trace)
    (cells : ∀ a : Nat, m.cells[a]? = m'.cells[a]?) : m = m' := by
  cases m
  cases m'
  obtain rfl : _ = _ := head
  obtain rfl : _ = _ := trace
  exact congrArg (mk _ · _) (Array.ext_getElem? cells)

section

variable {v : α} {next : Option Nat} {f : Cell α → Cell α} {a b : Nat}

theorem getElem?_alloc : (m.alloc v next).cells[b]? =
    if b = m.cells.size then some ⟨v, next, .written⟩ else m.cells[b]? := Array.getElem?_push

theorem getElem?_modifyCell :
    (m.modifyCell a f).cells[b]? = if a = b then m.cells[b]?.map f else m.cells[b]? :=
  Array.getElem?_modify

theorem getElem?_link : (m.link a next).cells[b]? =
    if a = b then m.cells[b]?.map ({ · with next }) else m.cells[b]? := getElem?_modifyCell

end

/-! ## Ways -/

/-- From `x` the links lead through the nodes of `l` to `y`. -/
def Leads (m : Stack α) (x : Option Nat) : List (Node α) → (y : Option Nat) → Prop
  | [], y => x = y
  | n :: l, y => x = some n.id ∧
    ∃ c, m.cells[n.id]? = some c ∧ c.value = n.value ∧ Leads m c.next l y

theorem leads_append :
    m.Leads x (l ++ l') z ↔ ∃ y, m.Leads x l y ∧ m.Leads y l' z := by
  induction l generalizing x with
  | nil => simp [Leads]
  | cons n l ih =>
    rw [List.cons_append, Leads]
    simp only [Leads, ih]
    constructor
    · rintro ⟨here, c, cell, value, y, first, second⟩
      exact ⟨y, ⟨here, c, cell, value, first⟩, second⟩
    · rintro ⟨y, ⟨here, c, cell, value, first⟩, second⟩
      exact ⟨here, c, cell, value, y, first, second⟩

theorem Leads.trans (h : m.Leads x l y) (h' : m.Leads y l' z) : m.Leads x (l ++ l') z :=
  leads_append.mpr ⟨y, h, h'⟩

/-- A way to the end starts at the first of its nodes. -/
theorem Leads.start_eq (h : m.Leads x l none) : x = l.head?.map Node.id := by
  cases l with
  | nil => exact h
  | cons n l => exact h.1

/-- A way stays if its nodes keep their values and links. -/
theorem Leads.mono (h : m.Leads x l y) (kept : ∀ n ∈ l, ∀ c, m.cells[n.id]? = some c →
    ∃ c', m'.cells[n.id]? = some c' ∧ c'.value = c.value ∧ c'.next = c.next) :
    m'.Leads x l y := by
  induction l generalizing x with
  | nil => exact h
  | cons n l ih =>
    obtain ⟨rfl, c, cell, value, rest⟩ := h
    obtain ⟨c', cell', value', next⟩ := kept n List.mem_cons_self c cell
    refine ⟨rfl, c', cell', value'.trans value, ?_⟩
    rw [next]
    exact ih rest fun n hn => kept n (List.mem_cons_of_mem _ hn)

/-- There is one way to the end. -/
theorem Leads.unique (h : m.Leads x l none) (h' : m.Leads x l' none) : l = l' := by
  induction l generalizing x l' with
  | nil =>
    obtain rfl : x = none := h
    cases l' with
    | nil => rfl
    | cons n l' => cases h'.1
  | cons n l ih =>
    obtain ⟨rfl, c, cell, value, rest⟩ := h
    cases l' with
    | nil => cases h'
    | cons n' l' =>
      obtain ⟨here, c', cell', value', rest'⟩ := h'
      have id := Option.some.inj here
      obtain rfl : c = c' := Option.some.inj (cell.symm.trans (id ▸ cell'))
      obtain rfl : n = n' := by
        cases n
        cases n'
        simp_all
      rw [ih rest rest']

/-- The node at some place of a way, with what is below it. -/
theorem Leads.cell {n : Node α} (h : m.Leads x (l ++ n :: l') y) :
    ∃ c, m.cells[n.id]? = some c ∧ c.value = n.value ∧ m.Leads c.next l' y := by
  obtain ⟨_, -, -, at_⟩ := leads_append.mp h
  exact at_

theorem Leads.lt_size (h : m.Leads x l y) {n : Node α} (hn : n ∈ l) : n.id < m.cells.size := by
  obtain ⟨before, behind, rfl⟩ := List.append_of_mem hn
  obtain ⟨c, cell, -⟩ := h.cell
  exact (Array.getElem?_eq_some_iff.mp cell).1

/-- A way to the end meets no node twice: from the node on it would have to go on in two ways. -/
theorem Leads.nodup (h : m.Leads x l none) : (l.map Node.id).Nodup := by
  induction l generalizing x with
  | nil => exact List.nodup_nil
  | cons n l ih =>
    obtain ⟨-, c, cell, -, rest⟩ := id h
    refine List.nodup_cons.mpr ⟨fun again => ?_, ih rest⟩
    obtain ⟨n', hn', same⟩ := List.mem_map.mp again
    obtain ⟨before, behind, rfl⟩ := List.append_of_mem hn'
    obtain ⟨c', cell', -, rest'⟩ := rest.cell
    obtain rfl : c = c' := Option.some.inj (cell.symm.trans (same ▸ cell'))
    have short := congrArg List.length (rest.unique rest')
    rw [List.length_append, List.length_cons] at short
    omega

/-- A walk follows the way to the end. -/
theorem Leads.walk_eq (h : m.Leads x l none) {bound : Nat} (enough : l.length ≤ bound) :
    m.walk bound x = l := by
  induction l generalizing x bound with
  | nil =>
    obtain rfl : x = none := h
    cases bound <;> rfl
  | cons n l ih =>
    obtain ⟨rfl, c, cell, value, rest⟩ := h
    cases bound with
    | zero => cases enough
    | succ bound =>
      rw [walk]
      simp only [cell, value]
      rw [ih rest (Nat.le_of_succ_le_succ enough)]

/-- There are as many addresses as nodes were made. -/
theorem Leads.length_le (h : m.Leads x l none) : l.length ≤ m.cells.size := by
  have inside : l.map Node.id ⊆ List.range m.cells.size := by
    intro a ha
    obtain ⟨n, hn, rfl⟩ := List.mem_map.mp ha
    exact List.mem_range.mpr (h.lt_size hn)
  have enough := (h.nodup.subperm inside).length_le
  rwa [List.length_map, List.length_range] at enough

/-- The walk from the head is never cut off. -/
theorem Leads.chain_eq (h : m.Leads m.head l none) : m.chain = l := h.walk_eq h.length_le

/-- As many nodes as there are, up to `count`, are those that a walk for `count` nodes passes. -/
theorem drop_passed {count : Nat} (passed : l.length = min count (l.length + l'.length)) :
    (l ++ l').drop count = l' ∧ (l ++ l').take count = l := by
  by_cases all : l.length = count
  · subst all
    exact ⟨List.drop_left, List.take_left⟩
  · obtain rfl : l' = [] := by
      rw [← List.length_eq_zero_iff]
      omega
    have le : (l ++ []).length ≤ count := by
      rw [List.append_nil]
      exact Nat.le_trans (Nat.le_of_eq passed) (Nat.min_le_left _ _)
    exact ⟨List.drop_eq_nil_of_le le, (List.take_of_length_le le).trans (List.append_nil l)⟩

/-! ## Moves of a thread -/

/-- The thread that still has the node at an address to itself. -/
abbrev Owners := Nat → Option Nat

variable {o o' : Owners} {t : Nat}

/-- A move of thread `t`, which writes links of its own nodes only and takes no node from others. -/
structure Moves (t : Nat) (m : Stack α) (o : Owners) (m' : Stack α) (o' : Owners) : Prop where
  cell : ∀ a c, m.cells[a]? = some c →
    ∃ c', m'.cells[a]? = some c' ∧ c'.value = c.value ∧ (o a ≠ some t → c'.next = c.next)
  owner : ∀ a < m.cells.size, o a ≠ some t → o' a = o a

namespace Moves

/-- A thread may write the head. -/
theorem still (cells : m'.cells = m.cells) : Moves t m o m' o where
  cell _ c here := ⟨c, cells ▸ here, rfl, fun _ => rfl⟩
  owner _ _ _ := rfl

/-- A thread may give its nodes away. -/
theorem give (cells : m'.cells = m.cells) :
    Moves t m o m' fun a => if o a = some t then none else o a where
  cell _ c here := ⟨c, cells ▸ here, rfl, fun _ => rfl⟩
  owner _ _ others := if_neg others

theorem modifyCell (f : Cell α → Cell α) {a : Nat}
    (value : ∀ c, (f c).value = c.value) (next : o a ≠ some t → ∀ c, (f c).next = c.next) :
    Moves t m o (m.modifyCell a f) o where
  cell b c here := by
    rw [getElem?_modifyCell, here]
    split
    · rename_i same
      subst same
      exact ⟨f c, rfl, value c, fun others => next others c⟩
    · exact ⟨c, rfl, rfl, fun _ => rfl⟩
  owner _ _ _ := rfl

theorem alloc (v : α) (next : Option Nat) :
    Moves t m o (m.alloc v next) (Function.update o m.cells.size (some t)) where
  cell a c here := by
    have old := (Array.getElem?_eq_some_iff.mp here).1
    refine ⟨c, ?_, rfl, fun _ => rfl⟩
    rw [getElem?_alloc, if_neg (Nat.ne_of_lt old)]
    exact here
  owner a old _ := Function.update_of_ne (Nat.ne_of_lt old) _ _

theorem size_le (h : Moves t m o m' o') : m.cells.size ≤ m'.cells.size := by
  by_contra less
  have inside := Nat.not_le.mp less
  obtain ⟨c, cell, -⟩ :=
    h.cell m'.cells.size m.cells[m'.cells.size] (Array.getElem?_eq_getElem inside)
  exact Nat.lt_irrefl _ (Array.getElem?_eq_some_iff.mp cell).1

/-- Ways through nodes of other threads, or of none, stay. -/
theorem leads (h : Moves t m o m' o') (others : ∀ n ∈ l, o n.id ≠ some t) (way : m.Leads x l y) :
    m'.Leads x l y := by
  refine way.mono fun n hn c cell => ?_
  obtain ⟨c', cell', value, next⟩ := h.cell _ c cell
  exact ⟨c', cell', value, next (others n hn)⟩

end Moves

/-! ## Nodes of all threads -/

/-- From `x` the links lead through `l` to the end, and no thread has a node of `l` to itself. -/
structure Shared (m : Stack α) (o : Owners) (x : Option Nat) (l : List (Node α)) : Prop where
  leads : m.Leads x l none
  free : ∀ n ∈ l, o n.id = none

namespace Shared

theorem kept (h : Shared m o x l) (moves : Moves t m o m' o') : Shared m' o' x l where
  leads := moves.leads (fun n hn => by simp [h.free n hn]) h.leads
  free n hn := by
    rw [moves.owner _ (h.leads.lt_size hn) (by simp [h.free n hn])]
    exact h.free n hn

theorem cell {n : Node α} (h : Shared m o x (l ++ n :: l')) :
    ∃ c, m.cells[n.id]? = some c ∧ c.value = n.value ∧ Shared m o c.next l' := by
  obtain ⟨c, cell, value, below⟩ := h.leads.cell
  exact ⟨c, cell, value, below,
    fun n hn => h.free n (List.mem_append_right _ (List.mem_cons_of_mem _ hn))⟩

/-- A way that starts at a node leads through it first. -/
theorem exists_eq_cons {a : Nat} (h : Shared m o (some a) l) : ∃ v l', l = ⟨a, v⟩ :: l' := by
  cases l with
  | nil => cases h.leads
  | cons n l' =>
    obtain ⟨id, v⟩ := n
    obtain rfl := Option.some.inj h.leads.1
    exact ⟨v, l', rfl⟩

theorem eq_nil (h : Shared m o none l) : l = [] := h.leads.unique rfl

end Shared

/-! ## Nodes of one thread -/

/-- Thread `t` has the nodes of `l` to itself, from `top` down to `bottom`, which is linked to `y`.
-/
structure Own (m : Stack α) (o : Owners) (t top bottom : Nat) (l : List (Node α))
    (y : Option Nat) : Prop where
  leads : m.Leads (some top) l y
  last : ∃ before v, l = before ++ [⟨bottom, v⟩]
  nodup : (l.map Node.id).Nodup
  mine : ∀ n ∈ l, o n.id = some t

namespace Own

variable {top bottom : Nat}

theorem head?_eq (h : Own m o t top bottom l y) : l.head?.map Node.id = some top := by
  have leads := h.leads
  obtain ⟨before, v, rfl⟩ := h.last
  cases before <;> exact leads.1.symm

theorem getLast?_eq (h : Own m o t top bottom l y) : l.getLast?.map Node.id = some bottom := by
  obtain ⟨before, v, rfl⟩ := h.last
  rw [List.getLast?_concat]
  rfl

theorem mine_bottom (h : Own m o t top bottom l y) : o bottom = some t := by
  obtain ⟨before, v, rfl⟩ := h.last
  exact h.mine _ (List.mem_append_right _ List.mem_cons_self)

/-- Other threads do not touch the nodes of a thread. -/
theorem kept (h : Own m o t top bottom l y) {u : Nat} (other : u ≠ t) (moves : Moves u m o m' o') :
    Own m' o' t top bottom l y := by
  have others : ∀ n ∈ l, o n.id ≠ some u := by
    intro n hn
    rw [h.mine n hn]
    exact fun same => other (Option.some.inj same).symm
  refine ⟨moves.leads others h.leads, h.last, h.nodup, fun n hn => ?_⟩
  rw [moves.owner _ (h.leads.lt_size hn) (others n hn), h.mine n hn]

theorem alloc_first (v : α) :
    Own (m.alloc v none) (Function.update o m.cells.size (some t)) t m.cells.size m.cells.size
      [⟨m.cells.size, v⟩] none where
  leads := ⟨rfl, ⟨v, none, .written⟩, Array.getElem?_push_size, rfl, rfl⟩
  last := ⟨[], v, rfl⟩
  nodup := List.pairwise_singleton _ _
  mine n hn := by
    obtain rfl := List.mem_singleton.mp hn
    exact Function.update_self _ _ _

/-- A new node on top of those that are there. -/
theorem alloc (h : Own m o t top bottom l y) (v : α) :
    Own (m.alloc v (some top)) (Function.update o m.cells.size (some t)) t m.cells.size bottom
      (⟨m.cells.size, v⟩ :: l) y where
  leads := by
    have moves : Moves t m (fun _ => none) (m.alloc v (some top)) _ := .alloc v _
    exact ⟨rfl, ⟨v, some top, .written⟩, Array.getElem?_push_size, rfl,
      moves.leads (by simp) h.leads⟩
  last := by
    obtain ⟨before, w, rfl⟩ := h.last
    exact ⟨⟨m.cells.size, v⟩ :: before, w, rfl⟩
  nodup := by
    refine List.nodup_cons.mpr ⟨fun again => ?_, h.nodup⟩
    obtain ⟨n, hn, same⟩ := List.mem_map.mp again
    exact absurd same (Nat.ne_of_lt (h.leads.lt_size hn))
  mine n hn := by
    rcases List.mem_cons.mp hn with rfl | hn
    · exact Function.update_self _ _ _
    · rw [Function.update_of_ne (Nat.ne_of_lt (h.leads.lt_size hn))]
      exact h.mine n hn

theorem link (h : Own m o t top bottom l y) (z : Option Nat) :
    Own (m.link bottom z) o t top bottom l z := by
  refine ⟨?_, h.last, h.nodup, h.mine⟩
  obtain ⟨before, v, rfl⟩ := h.last
  obtain ⟨y', above, at_bottom⟩ := leads_append.mp h.leads
  obtain ⟨rfl, c, cell, value, -⟩ := at_bottom
  have below : (m.link bottom z).Leads (some bottom) [⟨bottom, v⟩] z := by
    refine ⟨rfl, { c with next := z }, ?_, value, rfl⟩
    rw [getElem?_link, if_pos rfl, cell]
    rfl
  refine Leads.trans (above.mono fun n hn c' cell' => ⟨c', ?_, rfl, rfl⟩) below
  have elsewhere : bottom ≠ n.id := by
    intro same
    have apart := h.nodup
    rw [List.map_append, List.nodup_append] at apart
    exact apart.2.2 n.id (List.mem_map_of_mem hn) bottom List.mem_cons_self same.symm
  rw [getElem?_link, if_neg elsewhere, cell']

/-- A thread that puts its nodes on top of shared ones and gives them away shares all of them. -/
theorem publish (h : Own m o t top bottom l y) (below : Shared m o y l') :
    Shared { m with head := some top } (fun a => if o a = some t then none else o a) (some top)
      (l ++ l') where
  leads := (h.leads.trans below.leads).mono fun _ _ c cell => ⟨c, cell, rfl, rfl⟩
  free n hn := by
    rcases List.mem_append.mp hn with hn | hn
    · rw [if_pos (h.mine n hn)]
    · rw [below.free n hn]
      rfl

end Own

end SharedCollections.Stack

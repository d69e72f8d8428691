import SharedCollections.Proofs.Slot.Straight
import SharedCollections.Proofs.Stack.Run
/-!
# Operations on a stack that run straight

On a stack with one user no node is being read and none of the chain is taken, and the head stays as
it was seen until it is exchanged. So every exchange succeeds, a pop waits for no reader, and a look
finds the value on top (`Unhindered`).
-/

namespace SharedCollections

namespace Stack

variable {α : Type} {s : Stack α}

/-! ## Steps back -/

/-- A push that lost the exchange starts over. -/
def Pushing.back : Pushing α → Pushing α → Bool
  | exchanging .., loading .. => true
  | _, _ => false

/-- A pop that lost the exchange starts over, or waits for the readers of a node. It passes and
takes nodes in loops that end with the chain. -/
def Popping.back : Popping α → Popping α → Bool
  | _, loading | _, taking _ _ _ _ .waiting => true
  | _, _ => false

/-- A look at the top starts over if the node there was taken. -/
def Peeking.back : Peeking α → Peeking α → Bool
  | _, loading => true
  | _, _ => false

/-! ## Pushes -/

/-- What a push relies on where it stands. -/
def Pushing.Clear : Pushing α → Stack α → Prop
  | linking _ _ seen, s | exchanging _ _ seen, s => s.head = seen
  | _, _ => True

theorem Pushing.Clear.step {p p' : Pushing α} {s' : Stack α} (h : p.Clear s)
    (step : p.step s = (.next p', s')) : p.back p' = false ∧ p'.Clear s' := by
  cases p with
  | starting => cases step; exact ⟨rfl, trivial⟩
  | building top bottom rest => cases rest <;> cases step <;> exact ⟨rfl, trivial⟩
  | loading => cases step; exact ⟨rfl, rfl⟩
  | linking => cases step; exact ⟨rfl, h⟩
  | exchanging top bottom seen =>
    have same : s.head = seen := h
    simp only [Pushing.step, if_pos same] at step
    cases step

/-! ## Pops -/

/-- No reader has arrived at a node and not left. -/
def Unread (s : Stack α) : Prop :=
  ∀ (a : Nat) c, s.cells[a]? = some c → c.slot.isRead = false

/-- What a pop relies on where it stands. -/
def Popping.Clear : Popping α → Stack α → Prop
  | walking first _ _, s | closing first _ _, s | exchanging first _ _, s =>
    s.Unread ∧ s.head = some first
  | taking _ _ _ _ .waiting, _ => False
  | _, s => s.Unread

theorem Unread.markTaken (h : s.Unread) {a : Nat} {c : Cell α} (cell : s.cells[a]? = some c) :
    (s.modifyCell a ({ · with slot := c.slot.markTaken })).Unread := by
  intro b c' here
  rw [getElem?_modifyCell] at here
  split at here
  · obtain ⟨d, -, rfl⟩ := Option.map_eq_some_iff.mp here
    exact (Slot.isRead_markTaken _).trans (h a c cell)
  · exact h b c' here

/-- A step that reads the node at an address goes on if there is one. -/
theorem onCell_eq_next {π ρ : Type} {a : Nat} {f : Cell α → Progress π ρ} {p : π} {s' : Stack α}
    (step : s.onCell a f = (.next p, s')) :
    ∃ c, s.cells[a]? = some c ∧ f c = .next p ∧ s = s' := by
  rw [onCell] at step
  split at step
  · next c cell =>
    obtain ⟨goes, same⟩ := Prod.mk.inj step
    exact ⟨c, cell, goes, same⟩
  · cases step

theorem Popping.Clear.step {count : Nat} {p p' : Popping α} {s' : Stack α} (h : p.Clear s)
    (step : p.step count s = (.next p', s')) : p.back p' = false ∧ p'.Clear s' := by
  cases p with
  | loading =>
    cases head : s.head with
    | none =>
      simp only [Popping.step, head] at step
      cases step
    | some a =>
      simp only [Popping.step, head] at step
      cases step
      exact ⟨rfl, h, head⟩
  | walking first last passed =>
    obtain ⟨c, -, goes, rfl⟩ := onCell_eq_next step
    split at goes
    · cases next : c.next <;> rw [next] at goes <;> cases goes <;> exact ⟨rfl, h⟩
    · cases goes
      exact ⟨rfl, h⟩
  | closing first last passed =>
    obtain ⟨c, -, goes, rfl⟩ := onCell_eq_next step
    cases goes
    exact ⟨rfl, h⟩
  | exchanging first passed below =>
    obtain ⟨unread, head⟩ := h
    simp only [Popping.step, if_pos head] at step
    cases step
    exact ⟨rfl, unread⟩
  | following current left values =>
    cases left with
    | zero => cases step
    | succ left =>
      cases current with
      | none => cases step
      | some a =>
        obtain ⟨c, -, goes, rfl⟩ := onCell_eq_next step
        cases goes
        exact ⟨rfl, h⟩
  | taking a next left values point =>
    cases point with
    | waiting => exact h.elim
    | marking =>
      cases cell : s.cells[a]? with
      | none =>
        simp only [Popping.step, stepSlot, cell] at step
        cases step
      | some c =>
        have unread : s.Unread := h
        simp only [Popping.step, stepSlot, cell, Slot.Taking.step, unread a c cell] at step
        cases step
        exact ⟨rfl, unread.markTaken cell⟩
  | moving a next left values =>
    obtain ⟨c, -, goes, rfl⟩ := onCell_eq_next step
    cases goes
    exact ⟨rfl, h⟩

/-! ## Looks -/

/-- What a look at the top relies on where it stands. -/
def Peeking.Clear : Peeking α → Stack α → Prop
  | loading, s => ∀ (a : Nat) c, s.head = some a → s.cells[a]? = some c → c.slot.isTaken = false
  | reading a .arriving, s => ∀ c, s.cells[a]? = some c → c.slot.isTaken = false
  | reading _ (.leaving (.ok none)), _ => False
  | _, _ => True

theorem Peeking.Clear.step {p p' : Peeking α} {s' : Stack α} (h : p.Clear s)
    (step : p.step s = (.next p', s')) : p.back p' = false ∧ p'.Clear s' := by
  cases p with
  | loading =>
    cases head : s.head with
    | none =>
      simp only [Peeking.step, head] at step
      cases step
    | some a =>
      simp only [Peeking.step, head] at step
      cases step
      exact ⟨rfl, fun c => h a c head⟩
  | reading a point =>
    cases cell : s.cells[a]? with
    | none =>
      simp only [Peeking.step, stepSlot, cell] at step
      cases step
    | some c =>
      simp only [Peeking.step, stepSlot, cell] at step
      rcases point with _ | _ | _ | _ | _
      · have left : c.slot.isTaken = false := h c cell
        simp only [Slot.Reading.step, left] at step
        cases step
        exact ⟨rfl, trivial⟩
      · cases step
        exact ⟨rfl, trivial⟩
      · cases step
      · exact h.elim
      · cases step

/-! ## Stacks with one user -/

/-- Every operation on the stack runs straight. -/
structure Unhindered (s : Stack α) : Prop where
  push : ∀ v rest, Straight Pushing.step Pushing.back (.starting v rest) s
  pop : ∀ count, 0 < count → Straight (Popping.step count) Popping.back .loading s
  peek : Straight Peeking.step Peeking.back .loading s
  /-- Nobody has tried again so far. -/
  quiet : ∀ site, .retried site ∉ s.trace.toList

namespace Account

variable (r : Account α)

theorem unread_layout : r.layout.Unread := by
  intro a c cell
  rw [slot_layout cell, isRead_mark]

theorem clear_peeking_layout : Peeking.Clear .loading r.layout := by
  intro a c head cell
  obtain ⟨n, top, rfl⟩ := Option.map_eq_some_iff.mp (head : r.chain.head?.map Node.id = some a)
  rw [slot_layout cell, mark_of_notMem (notMem_popped (List.mem_of_head? top))]
  decide

theorem unhindered_layout : Unhindered r.layout where
  push v rest := .of_drive Pushing.Clear.step (drive_pushing v rest) trivial
  pop count pos := by
    obtain ⟨left, rfl⟩ := Nat.exists_eq_succ_of_ne_zero (Nat.ne_of_gt pos)
    exact .of_drive Popping.Clear.step (r.drive_popping left) r.unread_layout
  peek := .of_drive Peeking.Clear.step r.run_peek?_layout r.clear_peeking_layout
  quiet site := List.not_mem_nil

end Account

/-- Nobody ever waits or tries again who uses a stack alone. -/
theorem exists_follow_unhindered (moves : List (Move α)) : ∃ replies s,
    (follow move moves).run .start = .ok replies s ∧ Unhindered s.collection := by
  obtain ⟨s, run, shows⟩ := exists_follow Shows.move Shows.new moves
  exact ⟨_, s, run, shows.collection ▸ Account.unhindered_layout _⟩

end Stack

end SharedCollections

/-!
# Open cursors

Cursors are told apart by the order in which they were opened. The list of them only grows, so the
number of a cursor stays the same when others are opened or closed.
-/

namespace SharedCollections

/-- What belongs to each cursor that was opened, by number; `none` for a closed one. -/
structure Opened (κ : Type) where
  entries : List (Option κ)

namespace Opened

variable {κ μ : Type}

def empty : Opened κ := ⟨[]⟩

/-- How many were ever opened. -/
def count (l : Opened κ) : Nat := l.entries.length

/-- How many are open. -/
def live (l : Opened κ) : Nat := l.entries.countP Option.isSome

def get? (i : Nat) (l : Opened κ) : Option κ := l.entries[i]?.join

def add (c : κ) (l : Opened κ) : Opened κ := ⟨l.entries ++ [some c]⟩

def set (i : Nat) (c : Option κ) (l : Opened κ) : Opened κ := ⟨l.entries.set i c⟩

variable {l : Opened κ} {i j : Nat} {c : κ}

@[simp] theorem count_add : (l.add c).count = l.count + 1 := by simp [count, add]

@[simp] theorem count_set (c : Option κ) : (l.set i c).count = l.count := List.length_set

@[simp] theorem live_add : (l.add c).live = l.live + 1 := by simp [live, add]

theorem getElem?_of_get? (h : l.get? i = some c) : l.entries[i]? = some (some c) :=
  Option.join_eq_some_iff.mp h

theorem lt_count_of_get? (h : l.get? i = some c) : i < l.count :=
  (List.getElem?_eq_some_iff.mp (getElem?_of_get? h)).1

theorem get?_of_count_le (h : l.count ≤ i) : l.get? i = none := by
  rw [get?, List.getElem?_eq_none h]
  rfl

theorem get?_add_of_lt (h : i < l.count) : (l.add c).get? i = l.get? i := by
  rw [get?, add, List.getElem?_append_left h]
  rfl

theorem get?_add_count : (l.add c).get? l.count = some c := by
  rw [get?, add, count, List.getElem?_concat_length]
  rfl

theorem get?_set_self (h : i < l.count) (c : Option κ) : (l.set i c).get? i = c := by
  rw [get?, set, List.getElem?_set_self h]
  rfl

theorem get?_set_of_ne (h : j ≠ i) (c : Option κ) : (l.set j c).get? i = l.get? i := by
  rw [get?, set, List.getElem?_set_ne h]
  rfl

/-- There is nothing to close where no cursor is open. -/
theorem set_eq_self (h : l.get? i = none) : l.set i none = l := by
  refine congrArg mk (List.ext_getElem? fun j => ?_)
  rcases Nat.lt_or_ge i l.entries.length with inside | beyond
  · have closed : l.entries[i] = none := by
      rwa [get?, List.getElem?_eq_getElem inside] at h
    rw [← closed, List.set_getElem_self]
  · rw [List.set_eq_of_length_le beyond]

theorem live_pos (h : l.get? i = some c) : 0 < l.live :=
  List.countP_pos_iff.mpr ⟨some c, List.mem_of_getElem? (getElem?_of_get? h), rfl⟩

theorem live_set (h : l.get? i = some c) (c' : Option κ) :
    (l.set i c').live = l.live - 1 + if c'.isSome then 1 else 0 := by
  obtain ⟨inside, here⟩ := List.getElem?_eq_some_iff.mp (getElem?_of_get? h)
  rw [live, set, List.countP_set inside, here]
  rfl

/-! ## What holds of a cursor -/

/-- Cursor `i` was opened, and `P` holds of what belongs to it, if it is still open. -/
structure Holds (P : κ → Prop) (i : Nat) (l : Opened κ) : Prop where
  lt_count : i < l.count
  get? : ∀ c, l.get? i = some c → P c

namespace Holds

variable {P P' : κ → Prop}

theorem of_get? (h : l.get? i = some c) (hc : P c) : l.Holds P i where
  lt_count := lt_count_of_get? h
  get? _ h' := Option.some.inj (h.symm.trans h') ▸ hc

theorem mono (h : l.Holds P i) (imp : ∀ c, P c → P' c) : l.Holds P' i :=
  ⟨h.lt_count, fun c hc => imp c (h.get? c hc)⟩

theorem add (h : l.Holds P i) (c : κ) : (l.add c).Holds P i where
  lt_count := by rw [count_add]; exact Nat.lt_succ_of_lt h.lt_count
  get? c' hc := h.get? c' (by rwa [get?_add_of_lt h.lt_count] at hc)

theorem set (h : l.Holds P i) {c' : Option κ} (new : ∀ c, j = i → c' = some c → P c) :
    (l.set j c').Holds P i where
  lt_count := by rw [count_set]; exact h.lt_count
  get? c hc := by
    by_cases same : j = i
    · subst same
      rw [get?_set_self h.lt_count] at hc
      exact new c rfl hc
    · exact h.get? c (by rwa [get?_set_of_ne same] at hc)

end Holds

/-! ## Relating what belongs to cursors -/

/-- The same cursors are open, and what belongs to each is related. -/
structure Rel (R : κ → μ → Prop) (l : Opened κ) (l' : Opened μ) : Prop where
  count_eq : l.count = l'.count
  get? : ∀ i, Option.Rel R (l.get? i) (l'.get? i)

namespace Rel

variable {R R' : κ → μ → Prop} {l' : Opened μ} {w : μ}

theorem empty : Rel R Opened.empty Opened.empty := ⟨rfl, fun _ => .none⟩

theorem exists_of_some (h : Rel R l l') (open' : l'.get? i = some w) :
    ∃ c, l.get? i = some c ∧ R c w := by
  have rel := h.get? i
  rw [open'] at rel
  cases cursor : l.get? i with
  | none => rw [cursor] at rel; cases rel
  | some c =>
    rw [cursor] at rel
    cases rel with
    | some related => exact ⟨c, rfl, related⟩

theorem eq_none (h : Rel R l l') (closed : l'.get? i = none) : l.get? i = none := by
  have rel := h.get? i
  rw [closed] at rel
  cases cursor : l.get? i with
  | none => rfl
  | some c => rw [cursor] at rel; cases rel

theorem mono (h : Rel R l l') (keeps : ∀ i c w, l'.get? i = some w → R c w → R' c w) :
    Rel R' l l' where
  count_eq := h.count_eq
  get? i := by
    cases view : l'.get? i with
    | none =>
      rw [h.eq_none view]
      exact .none
    | some w =>
      obtain ⟨c, cursor, related⟩ := h.exists_of_some view
      rw [cursor]
      exact .some (keeps i c w view related)

theorem add (h : Rel R l l') (new : R c w) : Rel R (l.add c) (l'.add w) where
  count_eq := by rw [count_add, count_add, h.count_eq]
  get? i := by
    rcases Nat.lt_trichotomy i l.count with before | rfl | behind
    · rw [get?_add_of_lt before, get?_add_of_lt (h.count_eq ▸ before)]
      exact h.get? i
    · rw [get?_add_count, h.count_eq, get?_add_count]
      exact .some new
    · rw [get?_of_count_le (by rwa [count_add]),
        get?_of_count_le (by rwa [count_add, ← h.count_eq])]
      exact .none

theorem set (h : Rel R l l') {c : Option κ} {w : Option μ} (new : Option.Rel R c w) (i : Nat) :
    Rel R (l.set i c) (l'.set i w) where
  count_eq := by rw [count_set, count_set, h.count_eq]
  get? j := by
    by_cases same : i = j
    · subst same
      rcases Nat.lt_or_ge i l.count with inside | beyond
      · rw [get?_set_self inside, get?_set_self (h.count_eq ▸ inside)]
        exact new
      · rw [get?_of_count_le (by rwa [count_set]),
          get?_of_count_le (by rwa [count_set, ← h.count_eq])]
        exact .none
    · rw [get?_set_of_ne same, get?_set_of_ne same]
      exact h.get? j

end Rel

end Opened

end SharedCollections

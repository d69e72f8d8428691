import SharedCollections.Proofs.Drain
import SharedCollections.Proofs.Stack.Refinement
/-!
# Windows of buffers

An operation on a window of a buffer is refused before anything is read or written (`Refused`), or
it is carried out as a whole. The check is the same for words, whose sums and differences wrap
(`checkWords_eq`). A write into an accepted window finds a cell for every value, so none is lost,
and leaves all other cells alone (`Writes`).
-/

namespace SharedCollections

/-! ## Checking -/

section

variable {start count len : Nat} {m : Misuse}

/-- Why a window of `count` cells from `start` on does not lie in a buffer of `len` cells. -/
inductive Refused (start count len : Nat) : Misuse → Prop where
  | beyond (h : len < start) : Refused start count len (.indexOutOfRange start len)
  | long (h : start ≤ len) (h' : len - start < count) :
      Refused start count len (.invalidRange start count len)

theorem checkWindow_eq_error :
    checkWindow start count len = .error m ↔ Refused start count len m := by
  rw [checkWindow]
  constructor
  · intro refused
    split at refused
    · next beyond => exact Except.error.inj refused ▸ .beyond beyond
    · split at refused
      · next inside long => exact Except.error.inj refused ▸ .long (Nat.not_lt.mp inside) long
      · cases refused
  · rintro (beyond | ⟨inside, long⟩)
    · rw [if_pos beyond]
    · rw [if_neg (Nat.not_lt.mpr inside), if_pos long]

end

/-- The check as it is made on words. -/
def checkWords (start count len : UInt64) : Except Misuse Unit :=
  if start > len then .error (.indexOutOfRange start.toNat len.toNat)
  else if count > len - start then .error (.invalidRange start.toNat count.toNat len.toNat)
  else .ok ()

/-- The difference is formed only where it exists. -/
theorem checkWords_eq (start count len : UInt64) :
    checkWords start count len = checkWindow start.toNat count.toNat len.toNat := by
  rw [checkWords, checkWindow]
  by_cases beyond : start > len
  · rw [if_pos beyond, if_pos (UInt64.lt_iff_toNat_lt.mp beyond)]
  · have inside : start ≤ len := UInt64.not_lt.mp beyond
    have room := UInt64.toNat_sub_of_le len start inside
    rw [if_neg beyond, if_neg (UInt64.lt_iff_toNat_lt.not.mp beyond)]
    simp only [gt_iff_lt, UInt64.lt_iff_toNat_lt, room]

/-- An accepted window ends at a word. -/
theorem toNat_add_of_checkWords {start count len : UInt64}
    (ok : checkWords start count len = .ok ()) :
    (start + count).toNat = start.toNat + count.toNat := by
  rw [checkWords_eq, checkWindow_eq_ok] at ok
  rw [UInt64.toNat_add]
  exact Nat.mod_eq_of_lt (ok.trans_lt len.toNat_lt)

/-! ## Writing -/

section

variable {α : Type}

/-- Writes values over cells one by one for as long as there are both; values without a cell are
lost. -/
def fill : (cells values : List α) → List α
  | _ :: cells, v :: values => v :: fill cells values
  | [], _ => []
  | cells, [] => cells

theorem fill_of_length_le {cells values : List α} (room : values.length ≤ cells.length) :
    fill cells values = values ++ cells.drop values.length := by
  induction values generalizing cells with
  | nil => cases cells <;> rfl
  | cons v values ih =>
    cases cells with
    | nil => cases room
    | cons c cells => exact congrArg (v :: ·) (ih (Nat.le_of_succ_le_succ room))

variable {buffer buffer' values : List α} {start : Nat}

/-- The buffer `buffer'` is `buffer` with `values` in the cells from `start` on. There is a cell for
each of them, so that writing them one by one loses none. -/
structure Writes (buffer : List α) (start : Nat) (values buffer' : List α) : Prop where
  room : start + values.length ≤ buffer.length
  length_eq : buffer'.length = buffer.length
  written : ∀ i < values.length, buffer'[start + i]? = values[i]?
  kept : ∀ j, (j < start ∨ start + values.length ≤ j) → buffer'[j]? = buffer[j]?
  one_by_one : buffer' = buffer.take start ++ fill (buffer.drop start) values

theorem writes_overwrite (room : start + values.length ≤ buffer.length) :
    Writes buffer start values (overwrite buffer start values) where
  room := room
  length_eq := length_overwrite room
  written i hi := by
    have before : (buffer.take start).length = start := by
      rw [List.length_take]
      omega
    rw [overwrite, List.append_assoc, List.getElem?_append_right (by omega), before,
      Nat.add_sub_cancel_left, List.getElem?_append_left hi]
  kept j outside := by
    have inside : start ≤ buffer.length := by omega
    rcases outside with before | behind
    · rw [← List.getElem?_take_of_lt before, take_overwrite inside, List.getElem?_take_of_lt before]
    · obtain ⟨i, rfl⟩ := Nat.exists_eq_add_of_le behind
      rw [← List.getElem?_drop, drop_overwrite inside, List.getElem?_drop]
  one_by_one := by
    have cells : values.length ≤ (buffer.drop start).length := by
      rw [List.length_drop]
      omega
    rw [overwrite, fill_of_length_le cells, List.drop_drop, List.append_assoc]

end

/-! ## Copies of a collection -/

namespace Exchange

variable {σ ι : Type} {s s' : σ} {xs dest : List ι} {index : Nat}

/-- What copying into `dest` from `index` on comes to for a collection `s` that gives a copy `xs` of
its items and is `s'` afterwards. -/
def Copies (xs dest : List ι) (index : Nat) (s s' : σ) :
    Ending σ (Except Misuse Unit × List ι) → Prop
  | .ok (.error m, dest') t => dest' = dest ∧
      (dest.length < index ∧ m = .indexOutOfRange index dest.length ∧ t = s ∨
        index ≤ dest.length ∧ dest.length - index < xs.length ∧
          m = .insufficientSpace xs.length (dest.length - index) ∧ t = s')
  | .ok (.ok (), dest') t => Writes dest index xs dest' ∧ t = s'
  | .error _ _ => False

variable [Exchange σ ι]

theorem copies (run : (items : Action σ (List ι)).run s = .ok xs s') (dest : List ι) (index : Nat) :
    Copies xs dest index s s' ((copyTo dest index : Action σ _).run s) := by
  rw [copyTo]
  by_cases beyond : dest.length < index
  · rw [if_pos beyond]
    exact ⟨rfl, .inl ⟨beyond, rfl, rfl⟩⟩
  · have inside := Nat.not_lt.mp beyond
    rw [if_neg beyond, Action.run_bind_ok run]
    dsimp only
    by_cases long : dest.length - index < xs.length
    · rw [if_pos long]
      exact ⟨rfl, .inr ⟨inside, long, rfl, rfl⟩⟩
    · rw [if_neg long]
      exact ⟨writes_overwrite (by omega), rfl⟩

/-- Where reading the items fails, so does the copy, before anything is written. -/
theorem run_copyTo_of_error {f : Fault} (run : (items : Action σ (List ι)).run s = .error f s')
    (inside : index ≤ dest.length) : (copyTo dest index : Action σ _).run s = .error f s' := by
  rw [copyTo, if_neg (Nat.not_lt.mpr inside), Action.run_bind_error run]

end Exchange

/-! ## Windows of a stack -/

namespace Stack

variable {α : Type} {start count : Nat}

/-- What it comes to to push a window of `items` on `s`: a misuse leaves the stack alone, and
otherwise the window is pushed as one range. -/
def PushesWindow (items : List α) (start count : Nat) (s : Stack α) :
    Ending (Stack α) (Except Misuse Unit) → Prop
  | .ok (.error m) s' => Refused start count items.length m ∧ s' = s
  | .ok (.ok ()) s' => start + count ≤ items.length ∧
      (pushRange (window items start count)).run s = .ok () s' ∧
      Stack.toList.run s' = .ok ((window items start count).reverse ++ s.values) s'
  | .error _ _ => False

/-- What it comes to to pop into a window of `buffer` from `s`: a misuse leaves stack and buffer
alone, and otherwise as many values as there are, up to `count`, are taken off the top as one range
and written into the window. -/
def PopsWindow (buffer : List α) (start count : Nat) (s : Stack α) :
    Ending (Stack α) (Except Misuse Nat × List α) → Prop
  | .ok (.error m, buffer') s' => Refused start count buffer.length m ∧ buffer' = buffer ∧ s' = s
  | .ok (.ok n, buffer') s' => start + count ≤ buffer.length ∧ n = min count s.values.length ∧
      (popRange count).run s = .ok (s.values.take n) s' ∧
      Stack.toList.run s' = .ok (s.values.drop n) s' ∧
      Writes buffer start (s.values.take n) buffer'
  | .error _ _ => False

namespace Account

variable (r : Account α)

theorem pushesWindow (items : List α) (start count : Nat) :
    PushesWindow items start count r.layout ((pushSlice items start count).run r.layout) := by
  rw [pushSlice]
  cases check : checkWindow start count items.length with
  | error m => exact ⟨checkWindow_eq_error.mp check, rfl⟩
  | ok =>
    have run := r.run_pushRange_layout (window items start count)
    dsimp only
    rw [Action.run_bind_ok run]
    refine ⟨checkWindow_eq_ok.mp check, run, ?_⟩
    rw [run_toList_layout, map_value_push, values_layout]

theorem popsWindow (buffer : List α) (start count : Nat) :
    PopsWindow buffer start count r.layout ((popRangeInto buffer start count).run r.layout) := by
  rw [popRangeInto]
  cases check : checkWindow start count buffer.length with
  | error m => exact ⟨checkWindow_eq_error.mp check, rfl, rfl⟩
  | ok =>
    have inside := checkWindow_eq_ok.mp check
    have run := r.run_popRange_layout count
    let l := r.layout.values
    have there : l = r.chain.map Node.value := r.values_layout
    have values : (r.chain.take count).map Node.value = l.take (min count l.length) := by
      rw [← List.take_eq_take_min, there, List.map_take]
    have left : Stack.toList.run (r.pop count).layout =
        .ok (l.drop (min count l.length)) (r.pop count).layout := by
      rw [run_toList_layout, ← List.drop_eq_drop_min, there, ← List.map_drop]
      rfl
    have popped : (l.take (min count l.length)).length = min count l.length := by
      rw [List.length_take]
      omega
    have room : start + (l.take (min count l.length)).length ≤ buffer.length := by omega
    rw [values] at run
    dsimp only
    rw [Action.run_bind_ok run, popped]
    exact ⟨inside, rfl, run, left, writes_overwrite room⟩

end Account

end Stack

/-! ## All windows -/

open Exchange

/-- Operations on a window are refused as a whole or carried out as a whole. The check of a window
never wraps on words. A window of a buffer is pushed on a stack or popped from it so, whatever was
done with the stack before; and so is any collection copied into a buffer, which leaves a stack and
a queue as they are, and a map but for its trace. -/
theorem windows_all_or_nothing {α κ ν : Type} [DecidableEq κ] (pushes : List (Stack.Move α))
    (puts : List (Queue.Move α)) (m : Map κ ν) :
    (∀ start count len : UInt64,
      checkWords start count len = checkWindow start.toNat count.toNat len.toNat ∧
      (checkWords start count len = .ok () →
        (start + count).toNat = start.toNat + count.toNat)) ∧
    (∃ replies r, (follow Stack.move pushes).run .start = .ok replies r ∧
      let s := r.collection
      (∀ items start count,
        Stack.PushesWindow items start count s ((Stack.pushSlice items start count).run s)) ∧
      (∀ buffer start count,
        Stack.PopsWindow buffer start count s ((Stack.popRangeInto buffer start count).run s)) ∧
      Stack.toList.run s = .ok s.values s ∧
      ∀ dest index, Copies s.values dest index s s ((copyTo dest index).run s)) ∧
    (∃ replies r, (follow Queue.move puts).run .start = .ok replies r ∧
      let q := r.collection
      ∃ xs, Queue.toList.run q = .ok xs q ∧
        ∀ dest index, Copies xs dest index q q ((copyTo dest index).run q)) ∧
    (∃ trace, ∀ dest index,
      Copies m.pairs dest index m (m.retrace trace) ((copyTo dest index).run m)) ∧
    ∀ (σ ι : Type) [Exchange σ ι] (s : σ) (dest : List ι) (index : Nat),
      match (items : Action σ (List ι)).run s with
      | .ok xs s' => Copies xs dest index s s' ((copyTo dest index : Action σ _).run s)
      | .error f s' => index ≤ dest.length →
          (copyTo dest index : Action σ _).run s = .error f s' := by
  obtain ⟨s, pushed, stack⟩ := exists_follow Stack.Shows.move Stack.Shows.new pushes
  obtain ⟨q, put, r, queue⟩ := Queue.exists_follow_ideal Queue.Shows.new puts
  refine ⟨fun start count len => ⟨checkWords_eq start count len, toNat_add_of_checkWords⟩,
    ⟨_, s, pushed, ?_⟩, ⟨_, q, put, ?_⟩, ?_, ?_⟩
  · intro collection
    have here : collection = _ := stack.collection
    rw [here]
    have run := Stack.Account.run_toList_layout (Stack.Ideal.after pushes).2.account
    rw [← Stack.Account.values_layout] at run
    exact ⟨Stack.Account.pushesWindow _, Stack.Account.popsWindow _, run, copies run⟩
  · intro collection
    have here : collection = _ := queue.collection
    rw [here]
    exact ⟨_, r.run_toList_layout, copies r.run_toList_layout⟩
  · obtain ⟨trace, run⟩ := Map.exists_run_exclusively (fun t => t.entries.map Map.Entry.pair) m
    exact ⟨trace, copies run⟩
  · intro σ ι _ s dest index
    split
    · next run => exact copies run dest index
    · next run => exact run_copyTo_of_error run

end SharedCollections

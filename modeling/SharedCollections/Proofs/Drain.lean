import SharedCollections.Proofs.Map.Order
import SharedCollections.Proofs.Queue.Run
import SharedCollections.Proofs.Stack.Run
/-!
# Draining a collection

A collection that is drained gives its items in the order of a copy, and counts down
(`Exchange.GivesCopy`). What the three collections have in common is that there is a list which a
copy and the counts show, and whose head a take removes (`Exchange.drains_of`). A stack shows its
values from the top down, a queue what is left from the head on, and a map its entries in the order
of its table, however often the table was replaced.
-/

namespace SharedCollections

/-! ## Draining -/

namespace Exchange

variable {σ ι : Type} [Exchange σ ι]

/-- Takes, until there is nothing to take, give the items of a list. Before each of them the count
is the number of items still to come. -/
inductive Drains : σ → List ι → Prop where
  | nil {s t u v : σ} (count : count.run s = .ok 0 t) (isEmpty : isEmpty.run s = .ok true u)
      (take : take?.run s = .ok none v) : Drains s []
  | cons {s t u v : σ} {x : ι} {xs : List ι} (count : count.run s = .ok (xs.length + 1) t)
      (isEmpty : isEmpty.run s = .ok false u) (take : take?.run s = .ok (some x) v)
      (rest : Drains v xs) : Drains s (x :: xs)

theorem run_isEmpty {s t : σ} {n : Nat} (count : (count : Action σ Nat).run s = .ok n t) :
    (isEmpty : Action σ Bool).run s = .ok (decide (n = 0)) t :=
  Action.run_bind_ok count _

/-- A collection that shows a list, as its counts do, is drained of it if a take removes the head
and leaves a collection that shows the tail. -/
theorem drains_of {P : σ → List ι → Prop}
    (counts : ∀ {s xs}, P s xs → ∃ t, (count : Action σ Nat).run s = .ok xs.length t)
    (takes : ∀ {s xs}, P s xs → ∃ t, (take? : Action σ (Option ι)).run s = .ok xs.head? t ∧
      P t xs.tail) {s : σ} {xs : List ι} (shows : P s xs) : Drains s xs := by
  induction xs generalizing s with
  | nil =>
    obtain ⟨t, count⟩ := counts shows
    obtain ⟨u, take, -⟩ := takes shows
    exact .nil count (run_isEmpty count) take
  | cons x xs ih =>
    obtain ⟨t, count⟩ := counts shows
    obtain ⟨u, take, shows'⟩ := takes shows
    exact .cons count (run_isEmpty count) take (ih shows')

/-- A copy of the items is what the collection is then drained of. -/
def GivesCopy (s : σ) : Prop :=
  ∃ xs t, (items : Action σ (List ι)).run s = .ok xs t ∧ Drains t xs

end Exchange

open Exchange

variable {α : Type}

/-! ## Stacks and queues -/

theorem Stack.Account.givesCopy (r : Stack.Account α) : GivesCopy r.layout := by
  let Shows (s : Stack α) (xs : List α) : Prop :=
    ∃ r : Stack.Account α, s = r.layout ∧ xs = r.chain.map Node.value
  refine ⟨_, _, r.run_toList_layout, drains_of (P := Shows) ?_ ?_ ⟨r, rfl, rfl⟩⟩
  · rintro _ _ ⟨r, rfl, rfl⟩
    refine ⟨r.layout, congrArg (EStateM.Result.ok · _) ?_⟩
    exact r.size_layout.trans (List.length_map _).symm
  · rintro _ _ ⟨r, rfl, rfl⟩
    refine ⟨(r.pop 1).layout, ?_, r.pop 1, rfl, ?_⟩
    · rw [List.head?_map]
      exact r.run_pop?_layout
    · rw [← List.drop_one]
      exact List.map_drop.symm

theorem Queue.Account.givesCopy (r : Queue.Account α) : GivesCopy r.layout := by
  let Shows (q : Queue α) (xs : List α) : Prop :=
    ∃ r : Queue.Account α, q = r.layout ∧ xs = r.values.drop r.taken
  refine ⟨_, _, r.run_toList_layout, drains_of (P := Shows) ?_ ?_ ⟨r, rfl, rfl⟩⟩
  · rintro _ _ ⟨r, rfl, rfl⟩
    refine ⟨r.layout, ?_⟩
    rw [List.length_drop]
    exact r.run_size_layout
  · rintro _ _ ⟨r, rfl, rfl⟩
    refine ⟨r.take.layout, ?_, r.take, rfl, ?_⟩
    · rw [List.head?_drop]
      exact r.run_dequeue?_layout
    · rw [List.tail_drop, values_take]
      rcases Nat.lt_or_eq_of_le r.taken_le_total with left | none
      · rw [taken_take left]
      · rw [take_of_eq none, List.drop_of_length_le (Nat.le_of_eq none.symm),
          List.drop_of_length_le (Nat.le_succ_of_le (Nat.le_of_eq none.symm))]

/-! ## Maps -/

namespace Map

variable {κ ν : Type} [DecidableEq κ] {m : Map κ ν}

/-- A take removes the first entry of the map and leaves the others in their order. -/
theorem Sound.take? (h : m.Sound) :
    ∃ t, (Exchange.take? : Action (Map κ ν) (Option (κ × ν))).run m = .ok m.pairs.head? t ∧
      t.pairs = m.pairs.tail ∧ Change m t := by
  cases eq : m.entries with
  | nil =>
    refine ⟨m, ?_, ?_, .none m.trace⟩
    · rw [pairs, eq]
      exact h.run_takeFirst_of_nil eq 0
    · rw [pairs, eq]
      rfl
  | cons e es =>
    refine ⟨guarded (m.target e.key).stripe (m.erased e), ?_, ?_, ?_⟩
    · rw [pairs, eq]
      exact h.run_takeFirst_of_cons eq 0
    · rw [pairs, pairs, eq]
      exact congrArg (List.map Entry.pair) (h.entries_erased_of_cons eq)
    · exact .erased (eq ▸ List.mem_cons_self) _

theorem Reached.givesCopy (h : Reached (fun m => m.entries.length < Word.limit) m)
    (fits : m.entries.length < Word.limit) : GivesCopy m := by
  let Shows (m : Map κ ν) (xs : List (κ × ν)) : Prop :=
    m.Sound ∧ m.Counted ∧ m.pairs = xs ∧ xs.length < Word.limit
  obtain ⟨trace, copied⟩ := exists_run_exclusively (fun t => t.entries.map Entry.pair) m
  have counted := h.counted_of_length_lt fits
  have length : m.pairs.length < Word.limit := by rwa [pairs, List.length_map]
  refine ⟨_, _, copied, drains_of (P := Shows) ?_ ?_ ?_⟩
  · rintro m _ ⟨sound, counted, rfl, fits⟩
    obtain ⟨trace, run⟩ := exists_run_exclusively Table.total m
    rw [pairs, List.length_map] at fits ⊢
    rw [counted.total_eq sound, Nat.mod_eq_of_lt fits] at run
    exact ⟨_, run⟩
  · rintro m _ ⟨sound, counted, rfl, fits⟩
    obtain ⟨t, run, rest, change⟩ := sound.take?
    have fewer : m.pairs.tail.length < Word.limit := List.length_tail.trans_lt (by omega)
    have entries : t.entries.length < Word.limit := by
      rwa [← rest, pairs, List.length_map] at fewer
    exact ⟨t, run, sound.change change, counted.change_of_length_lt sound change entries, rest,
      fewer⟩
  · exact ⟨(sound_retrace trace m).mpr h.sound, counted, rfl, length⟩

end Map

/-! ## All collections -/

/-- Whatever has been done with a stack, a queue or a map, a copy of its items is what takes then
give until there is none, and before each of them the count is that of the items still to come.
Besides, all copies of a map are the same: the one that takes no lock, the one under all locks, and
the keys with the values; and each take removes the first entry of it. -/
theorem drain_gives_copy {κ ν : Type} [DecidableEq κ] (pushes : List (Stack.Move α))
    (puts : List (Queue.Move α)) {m : Map κ ν} (reached : Map.Reached (fun _ => True) m) :
    (∃ replies s, (follow Stack.move pushes).run .start = .ok replies s ∧
      GivesCopy s.collection) ∧
    (∃ replies s, (follow Queue.move puts).run .start = .ok replies s ∧ GivesCopy s.collection) ∧
    (Map.Reached (fun m => m.entries.length < Word.limit) m → m.entries.length < Word.limit →
      GivesCopy m) ∧
    (∃ t, Map.toList.run m = .ok m.iterate t) ∧
    (∃ keys values t u, Map.keys.run m = .ok keys t ∧ Map.values.run m = .ok values u ∧
      keys.length = values.length ∧ keys.zip values = m.iterate) ∧
    ∃ t, (take? : Action (Map κ ν) (Option (κ × ν))).run m = .ok m.iterate.head? t ∧
      t.iterate = m.iterate.tail := by
  have sound := reached.sound
  obtain ⟨s, pushed, stack⟩ := exists_follow Stack.Shows.move Stack.Shows.new pushes
  obtain ⟨q, put, r, queue⟩ := Queue.exists_follow_ideal Queue.Shows.new puts
  refine ⟨⟨_, s, pushed, ?_⟩, ⟨_, q, put, ?_⟩, Map.Reached.givesCopy, ?_, ?_, ?_⟩
  · rw [stack.collection]
    exact Stack.Account.givesCopy _
  · rw [queue.collection]
    exact r.givesCopy
  · rw [sound.iterate_eq]
    exact ⟨_, rfl⟩
  · refine ⟨m.entries.map Map.Entry.key, m.entries.map Map.Entry.value, _, _, rfl, rfl, ?_, ?_⟩
    · rw [List.length_map, List.length_map]
    · rw [sound.iterate_eq, List.zip_map']
      rfl
  · obtain ⟨t, run, rest, change⟩ := sound.take?
    rw [sound.iterate_eq]
    refine ⟨t, run, ?_⟩
    rw [(sound.change change).iterate_eq, rest]

/-- A map with two entries that has grown. -/
theorem drain_gives_copy_two : ∃ m : Map Nat Nat, m.iterate = [(1, 5), (32, 6)] ∧ GivesCopy m ∧
    ∃ t, (take? : Action (Map Nat Nat) _).run m = .ok (some (1, 5)) t ∧
      t.iterate = [(32, 6)] := by
  let m₀ : Map Nat Nat := .ofConfig ⟨1, 1, true, .default, false⟩
    ⟨"identity", fun _ k => UInt64.ofNat k⟩ fun _ => 0
  let m₁ := Map.Part.after (.insert 1 5 false) m₀
  let m₂ := Map.Part.after (.insert 32 6 false) m₁
  let m₃ := Map.Part.after (.grow ⟨0, none⟩) m₂
  have reached {allowed : Map Nat Nat → Prop} (h₀ : allowed m₀) (h₁ : allowed m₁)
      (h₂ : allowed m₂) : Map.Reached allowed m₃ :=
    .part (.part (.part (.new rfl _ _) h₀ _) h₁ _) h₂ _
  obtain ⟨-, -, copied, -, -, t, take, rest⟩ :=
    drain_gives_copy [.put 1, .put 2] [.put 1, .put 2] (reached trivial trivial trivial)
  have order : m₃.iterate = [(1, 5), (32, 6)] := by decide +kernel
  rw [order] at take rest
  refine ⟨m₃, order, copied (reached ?_ ?_ ?_) (by decide +kernel), t, take, rest⟩
  · decide +kernel
  · decide +kernel
  · decide +kernel

end SharedCollections

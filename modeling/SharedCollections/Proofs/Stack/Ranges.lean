import Mathlib.Data.List.Nodup
import SharedCollections.Proofs.Stack.Deeds
/-!
# The ledgers of right histories

If every deed is right in view of the deeds before it, the ledger of a history adds up: a value that
was pushed has been given back, is held by one thread, was dropped or is still on the stack. And if
ranges go on and come off in one size, they stay what they were.
-/

namespace SharedCollections.Stack

variable {α : Type} {past : List (Nat × Deed α)} {held : List (Nat × List α)} {t : Nat} {d : Deed α}
  {range : List α} {n : Nat}

/-! ## Values -/

/-- A thread holds one range at most, and every value that was pushed is in one place. -/
structure Ledger.Balanced (a : Ledger α) : Prop where
  apart : (a.held.map Prod.fst).Nodup
  all : a.pushed.Perm
    (a.answered ++ (a.held.map Prod.snd).flatten ++ a.dropped ++ a.contents)

theorem not_mem_of_lookup_eq_none (free : held.lookup t = none) : t ∉ held.map Prod.fst := by
  intro here
  obtain ⟨x, hx, rfl⟩ := List.mem_map.mp here
  have other := List.lookup_eq_none_iff.mp free x hx
  simp at other

theorem filter_of_not_mem (free : t ∉ held.map Prod.fst) : held.filter (·.1 != t) = held := by
  refine List.filter_eq_self.mpr fun x hx => bne_iff_ne.mpr ?_
  rintro rfl
  exact free (List.mem_map_of_mem hx)

/-- The range that a thread holds, among those of the others. -/
theorem exists_held_eq (apart : (held.map Prod.fst).Nodup) (found : held.lookup t = some range) :
    ∃ before behind, held = before ++ (t, range) :: behind ∧
      held.filter (·.1 != t) = before ++ behind := by
  obtain ⟨before, behind, rfl, -⟩ := List.lookup_eq_some_iff.mp found
  refine ⟨before, behind, rfl, ?_⟩
  rw [List.map_append, List.map_cons, List.nodup_middle, List.nodup_cons,
    ← List.map_append] at apart
  have others := filter_of_not_mem apart.1
  rw [List.filter_append] at others ⊢
  rw [List.filter_cons_of_neg (by simp)]
  exact others

theorem Ledger.Balanced.record (h : (ledger past).Balanced) (all : AllDeeds Right past)
    (right : Right t past d) : ((ledger past).record (t, d)).Balanced := by
  classical
  have counts := fun v => h.all.count_eq v
  simp only [List.count_append] at counts
  cases d with
  | pushed values =>
    refine ⟨h.apart, List.perm_iff_count.mpr fun v => ?_⟩
    simp only [Ledger.record, List.count_append, List.count_reverse, counts v]
    omega
  | unlinked count =>
    have free : (ledger past).heldBy t = none :=
      heldBy_eq_none all fun _ off => absurd (right.eq_popped off) (by simp)
    refine ⟨List.nodup_cons.mpr ⟨not_mem_of_lookup_eq_none free, h.apart⟩, ?_⟩
    refine List.perm_iff_count.mpr fun v => ?_
    have split := congrArg (List.count v) (List.take_append_drop count (ledger past).contents)
    rw [List.count_append] at split
    simp only [Ledger.record, List.map_cons, List.flatten_cons, List.count_append, counts v]
    omega
  | cleared =>
    refine ⟨h.apart, List.perm_iff_count.mpr fun v => ?_⟩
    simp only [Ledger.record, List.count_append, List.count_nil, counts v]
    omega
  | answered outcome =>
    cases outcome with
    | popped values =>
      rcases right with ⟨-, -, found⟩ | ⟨count, called, rfl, -⟩
      · obtain ⟨before, behind, eq, others⟩ := exists_held_eq h.apart found
        have apart := h.apart
        rw [eq] at apart
        refine ⟨?_, List.perm_iff_count.mpr fun v => ?_⟩
        · simp only [Ledger.record, others]
          exact apart.sublist (((List.sublist_cons_self _ behind).append_left before).map _)
        · have whole := counts v
          rw [eq] at whole
          simp only [Ledger.record, others, List.map_append, List.map_cons, List.flatten_append,
            List.flatten_cons, List.count_append] at whole ⊢
          omega
      · have free : (ledger past).heldBy t = none :=
          heldBy_eq_none all fun _ off => absurd (called.symm.trans off) (by simp)
        simp only [Ledger.record, filter_of_not_mem (not_mem_of_lookup_eq_none free),
          List.append_nil]
        exact h
    | _ => exact h
  | _ => exact h

theorem balanced (h : AllDeeds Right past) : (ledger past).Balanced := by
  refine h.induction (P := fun past => (ledger past).Balanced) ⟨List.nodup_nil, .refl _⟩ ?_
  intro past t d all ih right
  rw [ledger_append]
  exact ih.record all right

/-! ## Ranges of one size -/

/-- A range of `n` values that was pushed, the other way round. -/
def Whole (past : List (Nat × Deed α)) (n : Nat) (range : List α) : Prop :=
  range.length = n ∧ ∃ u values, (u, .pushed values) ∈ past ∧ range = values.reverse

/-- All pushes and pops in a history are of `n` values. -/
structure Sized (past : List (Nat × Deed α)) (n : Nat) : Prop where
  pushes : ∀ t values, (t, .pushed values) ∈ past → values.length = n
  pops : ∀ t count, (t, .unlinked count) ∈ past → count = n

/-- The stack is made up of whole ranges, and a thread that has taken something off holds one of
them. -/
def Ranged (past : List (Nat × Deed α)) (n : Nat) : Prop :=
  (∃ ranges : List (List α), (ledger past).contents = ranges.flatten ∧
    ∀ range ∈ ranges, Whole past n range) ∧
  ∀ x ∈ (ledger past).held, Whole past n x.2

theorem Whole.append (h : Whole past n range) (new : List (Nat × Deed α)) :
    Whole (past ++ new) n range := by
  obtain ⟨length, u, values, here, eq⟩ := h
  exact ⟨length, u, values, List.mem_append_left _ here, eq⟩

theorem Sized.of_append {new : List (Nat × Deed α)} (h : Sized (past ++ new) n) : Sized past n :=
  ⟨fun t values here => h.pushes t values (List.mem_append_left _ here),
    fun t count here => h.pops t count (List.mem_append_left _ here)⟩

theorem Ranged.append (h : Ranged past n) (right : Right t past d)
    (sized : Sized (past ++ [(t, d)]) n) : Ranged (past ++ [(t, d)]) n := by
  obtain ⟨⟨ranges, contents, whole⟩, held⟩ := h
  have last : (t, d) ∈ past ++ [(t, d)] := List.mem_append_right _ List.mem_cons_self
  have whole' : ∀ range ∈ ranges, Whole (past ++ [(t, d)]) n range :=
    fun range hr => (whole range hr).append _
  have held' : ∀ x ∈ (ledger past).held, Whole (past ++ [(t, d)]) n x.2 :=
    fun x hx => (held x hx).append _
  rw [Ranged, ledger_append]
  cases d with
  | pushed values =>
    refine ⟨⟨values.reverse :: ranges, ?_, ?_⟩, held'⟩
    · rw [List.flatten_cons, ← contents]
      rfl
    · intro range hr
      rcases List.mem_cons.mp hr with rfl | hr
      · exact ⟨List.length_reverse.trans (sized.pushes t values last), t, values, last, rfl⟩
      · exact whole' range hr
  | unlinked count =>
    obtain rfl := sized.pops t count last
    obtain ⟨-, -, filled⟩ := right
    cases ranges with
    | nil => exact absurd contents filled
    | cons range ranges =>
      obtain ⟨first, rest⟩ := List.forall_mem_cons.mp whole'
      refine ⟨⟨ranges, ?_, rest⟩, ?_⟩
      · simp only [Ledger.record, contents, List.flatten_cons]
        exact List.drop_left' first.1
      · intro x hx
        rcases List.mem_cons.mp hx with rfl | hx
        · simp only [contents, List.flatten_cons]
          rw [List.take_left' first.1]
          exact first
        · exact held' x hx
  | cleared =>
    refine ⟨⟨[], rfl, ?_⟩, held'⟩
    rintro _ ⟨⟩
  | answered outcome =>
    cases outcome with
    | popped values =>
      exact ⟨⟨ranges, contents, whole'⟩, fun x hx => held' x (List.mem_of_mem_filter hx)⟩
    | _ => exact ⟨⟨ranges, contents, whole'⟩, held'⟩
  | called | failed => exact ⟨⟨ranges, contents, whole'⟩, held'⟩

theorem ranged (h : AllDeeds Right past) (sized : Sized past n) : Ranged past n := by
  refine h.induction (P := fun past => Sized past n → Ranged past n) ?_ ?_ sized
  · exact fun _ => ⟨⟨[], rfl, nofun⟩, nofun⟩
  · exact fun past t d _ ih right sized => (ih sized.of_append).append right sized

/-- If ranges go on and come off in one size, whoever gets anything gets a whole range. -/
theorem whole_of_answered (h : AllDeeds Right past) (sized : Sized past n) {values : List α}
    (here : (t, .answered (.popped values)) ∈ past) (found : values ≠ []) :
    Whole past n values := by
  obtain ⟨before, after, rfl⟩ := List.append_of_mem here
  have held := (ranged h.of_append sized.of_append).2
  rcases h before t _ after rfl with ⟨-, -, holds⟩ | ⟨-, -, none, -⟩
  · obtain ⟨l, l', eq, -⟩ := List.lookup_eq_some_iff.mp holds
    have mine : (t, values) ∈ (ledger before).held :=
      eq ▸ List.mem_append_right _ List.mem_cons_self
    exact (held _ mine).append _
  · exact absurd none found

end SharedCollections.Stack

import Mathlib.Algebra.Order.BigOperators.Group.List
import Mathlib.Algebra.Order.Group.Nat
import Mathlib.Algebra.Ring.Nat
import Mathlib.Data.List.Induction
import SharedCollections.Crew
/-!
# What the threads of a crew do

A turn is one of few things (`Crew.turn_of_busy` and the like). An observer says which of them count
as deeds, and the deeds of a run are its history, in the order of the turns. What holds of a crew
and its past at the start and is kept by every turn holds after any schedule
(`Crew.follow_invariant`).
-/

namespace SharedCollections

variable {σ ω π ρ μ δ : Type}

/-! ## Counting threads -/

section

variable {τ : Type} {xs : List τ} {t : Nat} {x : τ}

/-- What replacing one member changes in a sum. -/
theorem sum_map_set (here : xs[t]? = some x) (f : τ → Nat) (y : τ) :
    ((xs.set t y).map f).sum + f x = (xs.map f).sum + f y := by
  induction xs generalizing t with
  | nil => cases here
  | cons z xs ih =>
    cases t with
    | zero =>
      obtain rfl : z = x := Option.some.inj here
      simp only [List.set_cons_zero, List.map_cons, List.sum_cons]
      omega
    | succ t =>
      have rest := ih (t := t) here
      simp only [List.set_cons_succ, List.map_cons, List.sum_cons] at rest ⊢
      omega

/-- What replacing one member changes in a count. -/
theorem countP_set_add (here : xs[t]? = some x) (p : τ → Bool) (y : τ) :
    (xs.set t y).countP p + (p x).toNat = xs.countP p + (p y).toNat := by
  have sum (xs : List τ) : xs.countP p = (xs.map fun x => (p x).toNat).sum := by
    induction xs with
    | nil => rfl
    | cons x xs ih => cases h : p x <;> simp [h, ih, Nat.add_comm]
  rw [sum, sum]
  exact sum_map_set here _ y

end

/-! ## Steps -/

/-- The point at which an operation goes on, if it does. -/
def Progress.point? : Progress π ρ → Option π
  | .next point => some point
  | _ => none

/-- The result of an operation, if it is done. -/
def Progress.result? : Progress π ρ → Option ρ
  | .done r => some r
  | _ => none

/-- What holds of the point at which an operation goes on, or of its result. An operation that has
failed has neither. -/
def Progress.Holds (next : π → Prop) (done : ρ → Prop) : Progress π ρ → Prop
  | .next point => next point
  | .done r => done r
  | .fail _ => False

/-- How a thread stands after a step. -/
def Program.after (p : Program ω ρ μ) (memory : μ) : Progress π ρ → Thread π μ
  | .next point => ⟨some point, memory⟩
  | .done r => ⟨none, p.record (.ok r) memory⟩
  | .fail f => ⟨none, p.record (.error f) memory⟩

@[simp] theorem Program.point_after (p : Program ω ρ μ) (memory : μ) (progress : Progress π ρ) :
    (p.after memory progress).point = progress.point? := by
  cases progress <;> rfl

variable {π' ρ' : Type}

theorem Progress.Holds.lift {progress : Progress π ρ} {next : π → Prop} {done : ρ → Prop}
    {next' : π' → Prop} {done' : ρ' → Prop} {wrap : π → π'} {finish : ρ → Progress π' ρ'}
    (h : progress.Holds next done) (wrapped : ∀ point, next point → next' (wrap point))
    (finished : ∀ r, done r → (finish r).Holds next' done') :
    (progress.lift wrap finish).Holds next' done' := by
  cases progress with
  | next point => exact wrapped point h
  | done r => exact finished r h
  | fail => exact h.elim

theorem Progress.Holds.of_next {progress : Progress π ρ} {next : π → Prop} {done : ρ → Prop}
    (h : progress.Holds next done) {point : π} (goes : progress.point? = some point) :
    next point := by
  cases progress <;> obtain ⟨⟩ := goes
  exact h

theorem Progress.lift_eq_next {progress : Progress π ρ} {wrap : π → π'} {finish : ρ → ρ'}
    {point' : π'} (goes : (progress.lift wrap fun r => .done (finish r)).point? = some point') :
    ∃ point, progress.point? = some point ∧ wrap point = point' := by
  cases progress with
  | next point => exact ⟨point, rfl, Option.some.inj goes⟩
  | done | fail => cases goes

theorem Progress.lift_eq_done {progress : Progress π ρ} {wrap : π → π'} {finish : ρ → ρ'} {r' : ρ'}
    (done : (progress.lift wrap fun r => .done (finish r)) = .done r') :
    ∃ r, progress = .done r ∧ finish r = r' := by
  cases progress with
  | done r => exact ⟨r, rfl, Progress.done.inj done⟩
  | next | fail => cases done

theorem Progress.result?_lift {progress : Progress π ρ} {wrap : π → π'} {finish : ρ → ρ'} :
    (progress.lift wrap fun r => .done (finish r)).result? = progress.result?.map finish := by
  cases progress <;> rfl

theorem Progress.result?_eq_some {progress : Progress π ρ} {r : ρ} :
    progress.result? = some r ↔ progress = .done r := by
  cases progress <;> simp [Progress.result?]

theorem Program.memory_after {p : Program ω ρ μ} {memory : μ} {progress : Progress π ρ} {point : π}
    (goes : progress.point? = some point) : (p.after memory progress).memory = memory := by
  cases progress <;> obtain ⟨⟩ := goes
  rfl

/-- Which operations and steps are deeds, and what is done by them. -/
structure Observer (σ ω π δ : Type) where
  begun : ω → Option δ
  stepped : π → σ → Option δ

namespace Crew

variable {m : Machine σ ω π ρ} {p : Program ω ρ μ} {o : Observer σ ω π δ} {c : Crew σ π μ} {i : Nat}
  {memory : μ}

/-! ## Turns -/

theorem turn_of_absent (absent : c.threads[i]? = none) : c.turn m p i = c := by
  simp only [turn, absent]

theorem turn_of_ended (idle : c.threads[i]? = some ⟨none, memory⟩) (ended : p.next? memory = none) :
    c.turn m p i = c := by
  simp only [turn, idle, ended]

theorem turn_of_idle {op : ω} (idle : c.threads[i]? = some ⟨none, memory⟩)
    (next : p.next? memory = some op) :
    c.turn m p i = ⟨c.shared, c.threads.set i ⟨some (m.begin op), memory⟩⟩ := by
  simp only [turn, idle, next]

theorem turn_of_busy {point : π} (busy : c.threads[i]? = some ⟨some point, memory⟩) :
    c.turn m p i = ⟨(m.step point c.shared).2,
      c.threads.set i (p.after memory (m.step point c.shared).1)⟩ := by
  simp only [turn, busy]
  rcases m.step point c.shared with ⟨progress, s⟩
  cases progress <;> rfl

/-! ## Points -/

/-- The point of thread `t`, if it is busy. -/
def point? (t : Nat) (c : Crew σ π μ) : Option π := c.threads[t]?.bind (·.point)

/-- What the operation of thread `t` comes to at the next turn of that thread, if it ends there. -/
def outcome? (m : Machine σ ω π ρ) (t : Nat) (c : Crew σ π μ) : Option ρ :=
  (c.point? t).bind fun point => (m.step point c.shared).1.result?

theorem point?_eq_some {t : Nat} {point : π} (busy : c.point? t = some point) :
    ∃ memory, c.threads[t]? = some ⟨some point, memory⟩ := by
  obtain ⟨⟨_, memory⟩, here, rfl⟩ := Option.bind_eq_some_iff.mp busy
  exact ⟨memory, here⟩

theorem point?_of_busy {t : Nat} {point : π} (busy : c.threads[t]? = some ⟨some point, memory⟩) :
    c.point? t = some point := by
  rw [point?, busy, Option.bind_some]

theorem point?_set_self {t : Nat} {old new : Thread π μ} (here : c.threads[t]? = some old) (s : σ) :
    point? t ⟨s, c.threads.set t new⟩ = new.point := by
  obtain ⟨inside, -⟩ := List.getElem?_eq_some_iff.mp here
  rw [point?, List.getElem?_set_self inside, Option.bind_some]

theorem point?_set_of_ne {t u : Nat} {new : Thread π μ} (other : u ≠ t) (s : σ) :
    point? t ⟨s, c.threads.set u new⟩ = c.point? t := by
  rw [point?, List.getElem?_set_ne other, point?]

theorem getElem?_turn_of_ne {t : Nat} (other : i ≠ t) :
    (c.turn m p i).threads[t]? = c.threads[t]? := by
  cases here : c.threads[i]? with
  | none => rw [turn_of_absent here]
  | some thread =>
    obtain ⟨_ | point, memory⟩ := thread
    · cases next : p.next? memory with
      | none => rw [turn_of_ended here next]
      | some op => rw [turn_of_idle here next, List.getElem?_set_ne other]
    · rw [turn_of_busy here, List.getElem?_set_ne other]

/-- The other threads stay where they are. -/
theorem point?_turn_of_ne {t : Nat} (other : i ≠ t) : (c.turn m p i).point? t = c.point? t := by
  rw [point?, getElem?_turn_of_ne other, point?]

theorem point?_turn_self {t : Nat} {point : π} (busy : c.point? t = some point) :
    (c.turn m p t).point? t = (m.step point c.shared).1.point? := by
  obtain ⟨memory, here⟩ := point?_eq_some busy
  rw [turn_of_busy here, point?_set_self here, Program.point_after]

/-- A thread stays as it is for as long as it has no turn. -/
theorem getElem?_follow_of_not_mem {t : Nat} {schedule : List Nat} (absent : t ∉ schedule) :
    (c.follow m p schedule).threads[t]? = c.threads[t]? := by
  induction schedule generalizing c with
  | nil => rfl
  | cons i schedule ih =>
    obtain ⟨other, absent⟩ := not_or.mp (mt List.mem_cons.mpr absent)
    exact (ih absent).trans (getElem?_turn_of_ne (Ne.symm other))

theorem follow_append (before after : List Nat) :
    c.follow m p (before ++ after) = (c.follow m p before).follow m p after :=
  List.foldl_append

theorem follow_concat (schedule : List Nat) (i : Nat) :
    c.follow m p (schedule ++ [i]) = (c.follow m p schedule).turn m p i :=
  follow_append schedule [i]

/-! ## Histories -/

/-- What thread `i` does at its turn. -/
def deed (p : Program ω ρ μ) (o : Observer σ ω π δ) (c : Crew σ π μ) (i : Nat) : Option δ :=
  match c.threads[i]? with
  | none => none
  | some ⟨none, memory⟩ => (p.next? memory).bind o.begun
  | some ⟨some point, _⟩ => o.stepped point c.shared

/-- The deeds of a run, each with the thread that did it. -/
def history (m : Machine σ ω π ρ) (p : Program ω ρ μ) (o : Observer σ ω π δ) :
    (schedule : List Nat) → Crew σ π μ → List (Nat × δ)
  | [], _ => []
  | i :: schedule, c =>
    (c.deed p o i).toList.map (i, ·) ++ history m p o schedule (c.turn m p i)

theorem deed_of_absent (absent : c.threads[i]? = none) : c.deed p o i = none := by
  simp only [deed, absent]

theorem deed_of_ended (idle : c.threads[i]? = some ⟨none, memory⟩)
    (ended : p.next? memory = none) : c.deed p o i = none := by
  simp only [deed, idle, ended, Option.bind_none]

theorem deed_of_idle {op : ω} (idle : c.threads[i]? = some ⟨none, memory⟩)
    (next : p.next? memory = some op) : c.deed p o i = o.begun op := by
  simp only [deed, idle, next, Option.bind_some]

theorem deed_of_busy {point : π} (busy : c.threads[i]? = some ⟨some point, memory⟩) :
    c.deed p o i = o.stepped point c.shared := by
  simp only [deed, busy]

/-- What holds after a turn: a thread that has nothing to do leaves things as they are, and any
other one begins an operation or takes a step. -/
theorem turn_cases {P : Crew σ π μ → List (Nat × δ) → Prop} (past : List (Nat × δ)) (h : P c past)
    (begun : ∀ memory op, c.threads[i]? = some ⟨none, memory⟩ → p.next? memory = some op →
      P ⟨c.shared, c.threads.set i ⟨some (m.begin op), memory⟩⟩
        (past ++ (o.begun op).toList.map (i, ·)))
    (stepped : ∀ point memory, c.threads[i]? = some ⟨some point, memory⟩ →
      P ⟨(m.step point c.shared).2, c.threads.set i (p.after memory (m.step point c.shared).1)⟩
        (past ++ (o.stepped point c.shared).toList.map (i, ·))) :
    P (c.turn m p i) (past ++ (c.deed p o i).toList.map (i, ·)) := by
  cases here : c.threads[i]? with
  | none =>
    rw [turn_of_absent here, deed_of_absent here]
    exact (List.append_nil past).symm ▸ h
  | some thread =>
    obtain ⟨point, memory⟩ := thread
    cases point with
    | none =>
      cases next : p.next? memory with
      | none =>
        rw [turn_of_ended here next, deed_of_ended here next]
        exact (List.append_nil past).symm ▸ h
      | some op =>
        rw [turn_of_idle here next, deed_of_idle here next]
        exact begun memory op here next
    | some point =>
      rw [turn_of_busy here, deed_of_busy here]
      exact stepped point memory here

/-- What every turn keeps holds after any schedule. -/
theorem follow_invariant {P : Crew σ π μ → List (Nat × δ) → Prop}
    (turn : ∀ c past i, P c past →
      P (c.turn m p i) (past ++ (c.deed p o i).toList.map (i, ·)))
    (schedule : List Nat) {past : List (Nat × δ)} (h : P c past) :
    P (c.follow m p schedule) (past ++ c.history m p o schedule) := by
  induction schedule generalizing c past with
  | nil => rwa [history, List.append_nil]
  | cons i schedule ih =>
    rw [history, ← List.append_assoc]
    exact ih (turn c past i h)

end Crew

/-! ## Reading a history -/

section

variable {past new : List (Nat × δ)} {t : Nat}

/-- The last thing that thread `t` did. -/
def lastDeed (t : Nat) (past : List (Nat × δ)) : Option δ :=
  (past.filterMap fun (u, d) => if u = t then some d else none).getLast?

theorem lastDeed_append_self (d : δ) : lastDeed t (past ++ [(t, d)]) = some d := by
  simp [lastDeed]

theorem lastDeed_append_of_ne (others : ∀ x ∈ new, x.1 ≠ t) :
    lastDeed t (past ++ new) = lastDeed t past := by
  have none : new.filterMap (fun x : Nat × δ => if x.1 = t then some x.2 else none) = [] :=
    List.filterMap_eq_nil_iff.mpr fun x hx => if_neg (others x hx)
  rw [lastDeed, List.filterMap_append, none, List.append_nil]
  rfl

end

/-! ## Right histories -/

/-- Every deed of a history is right in view of the deeds before it. -/
def AllDeeds (Right : Nat → List (Nat × δ) → δ → Prop) (past : List (Nat × δ)) : Prop :=
  ∀ before t d after, past = before ++ (t, d) :: after → Right t before d

section

variable {Right : Nat → List (Nat × δ) → δ → Prop} {past : List (Nat × δ)} {t : Nat}

theorem allDeeds_nil : AllDeeds Right [] := by
  intro before t d after none
  simp at none

theorem AllDeeds.of_append {new : List (Nat × δ)} (h : AllDeeds Right (past ++ new)) :
    AllDeeds Right past :=
  fun before t d after eq => h before t d (after ++ new) (by rw [eq, List.append_assoc]; rfl)

theorem allDeeds_append_singleton {d : δ} :
    AllDeeds Right (past ++ [(t, d)]) ↔ AllDeeds Right past ∧ Right t past d := by
  constructor
  · exact fun h => ⟨h.of_append, h past t d [] rfl⟩
  · rintro ⟨h, right⟩ before u e after eq
    rcases after.eq_nil_or_concat with rfl | ⟨rest, y, rfl⟩
    · obtain ⟨rfl, last⟩ := List.append_inj' eq rfl
      cases last
      exact right
    · rw [List.concat_eq_append, ← List.cons_append, ← List.append_assoc] at eq
      exact h before u e rest (List.append_inj' eq rfl).1

theorem AllDeeds.append {d : Option δ} (h : AllDeeds Right past) (right : ∀ x ∈ d, Right t past x) :
    AllDeeds Right (past ++ d.toList.map (t, ·)) := by
  cases d with
  | none => exact (List.append_nil past).symm ▸ h
  | some d => exact allDeeds_append_singleton.mpr ⟨h, right d rfl⟩

/-- What holds of no deeds, and goes on to hold after every right one, holds of a right history. -/
theorem AllDeeds.induction {P : List (Nat × δ) → Prop} (nil : P [])
    (snoc : ∀ past t d, AllDeeds Right past → P past → Right t past d → P (past ++ [(t, d)]))
    (h : AllDeeds Right past) : P past := by
  induction past using List.reverseRecOn with
  | nil => exact nil
  | append_singleton past x ih =>
    obtain ⟨before, right⟩ := allDeeds_append_singleton.mp h
    exact snoc past x.1 x.2 before (ih before) right

end

end SharedCollections

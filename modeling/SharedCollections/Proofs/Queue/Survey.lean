import Mathlib.Data.List.Infix
import SharedCollections.Proofs.Queue.Alone
import SharedCollections.Proofs.Queue.Clients
import SharedCollections.Proofs.Queue.Tail
/-!
# Surveys at work

A survey reads both ends of a queue and their cursors one after the other, while others go on
putting values in and taking them. Each of the four only ever moves forward (`Onward`), so what the
first pass has read is behind what is there, and what the second pass finds unchanged has not moved
in between. A survey that ends has thus read what was there at one moment, when its first pass was
about to read the last of the four.
-/

namespace SharedCollections.Queue

variable {α : Type} {q q' q'' : Queue α} {l l' : Ledger α} {past : List (Nat × Deed α)}
  {t g i : Nat}

/-! ## Moving forward -/

/-- The ends of a queue and the cursors of its segments have not gone back. -/
structure Onward (q q' : Queue α) : Prop where
  size_le : q.segments.size ≤ q'.segments.size
  head_le : q.head ≤ q'.head
  tail_le : q.tail ≤ q'.tail
  claimed_le : ∀ g < q.segments.size, (q.segment g).claimed ≤ (q'.segment g).claimed

namespace Onward

theorem refl (q : Queue α) : Onward q q := ⟨le_rfl, le_rfl, le_rfl, fun _ _ => le_rfl⟩

theorem trans (h : Onward q q') (h' : Onward q' q'') : Onward q q'' where
  size_le := h.size_le.trans h'.size_le
  head_le := h.head_le.trans h'.head_le
  tail_le := h.tail_le.trans h'.tail_le
  claimed_le g hg := (h.claimed_le g hg).trans (h'.claimed_le g (hg.trans_le h.size_le))

theorem low_le (h : Onward q q') (hg : g < q.segments.size) :
    (q.segment g).low ≤ (q'.segment g).low := by
  have claimed_le := h.claimed_le g hg
  simp only [Segment.low]
  omega

end Onward

section

variable {μ : Type} {c : Crew (Queue α) (Point α) μ} {p : Program (Operation α) (Outcome α) μ}

/-- No turn takes an end or a cursor back. -/
theorem Paced.onward_turn (h : Paced c past) (i : Nat) :
    Onward c.shared (c.turn machine p i).shared := by
  refine Crew.turn_cases (o := observer) (P := fun c' _ => Onward c.shared c'.shared) past
    (.refl _) (fun _ _ _ _ => .refl _) fun point memory here => ?_
  have grows := (h.laid.stepped (h.stands i _ here)).change.grows h.laid
  have reaches := h.reaches i point (Crew.point?_of_busy here)
  exact ⟨grows.size_le, grows.head_le, reaches.tail_le, grows.claimed_le⟩

theorem Paced.onward_follow (h : Paced c past) (schedule : List Nat) :
    Onward c.shared (c.follow machine p schedule).shared :=
  (Crew.follow_invariant (o := observer)
    (P := fun c' past => Paced c' past ∧ Onward c.shared c'.shared)
    (fun _ _ i h => ⟨h.1.turn i, h.2.trans (h.1.onward_turn i)⟩) schedule ⟨h, .refl _⟩).2

end

/-! ## Passes -/

/-- What the first pass of a survey has read of a queue that was `q₀` before its last read, and is
`q` now. -/
structure Extent.Read (x : Extent) (q₀ q : Queue α) : Prop where
  head_le : x.head ≤ q₀.head
  tail_le : x.tail ≤ q₀.tail
  head_lt : x.head < q₀.segments.size
  low_le : x.low ≤ (q₀.segment x.head).low
  stop : x.stop = (q₀.segment x.tail).stop
  onward : Onward q₀ q

/-- How far what a survey has read of the queue `q` is right, if it has seen queues at its points as
`Seen` says. -/
def Surveying.Saw (Seen : Surveying → Queue α → Prop) (q : Queue α) : Surveying → Prop
  | loadingHead => True
  | loadingTail head => head ≤ q.head
  | readingLow head tail => head ≤ q.head ∧ tail ≤ q.tail
  | readingStop head tail low => head ≤ q.head ∧ tail ≤ q.tail ∧ low ≤ (q.segment head).low
  | checkingHead x => ∃ q₀, Seen (.readingStop x.head x.tail x.low) q₀ ∧ x.Read q₀ q
  | checkingTail x => ∃ q₀, Seen (.readingStop x.head x.tail x.low) q₀ ∧ x.Read q₀ q ∧
    x.head = q₀.head
  | checkingLow x => ∃ q₀, Seen (.readingStop x.head x.tail x.low) q₀ ∧ x.Read q₀ q ∧
    x.head = q₀.head ∧ x.tail = q₀.tail
  | checkingStop x => ∃ q₀, Seen (.readingStop x.head x.tail x.low) q₀ ∧ x = q₀.extent

section

variable {Seen Seen' : Surveying → Queue α → Prop} {s : Surveying}

theorem Extent.Read.mono {x : Extent} {q₀ : Queue α} (h : x.Read q₀ q) (onward : Onward q q') :
    x.Read q₀ q' :=
  { h with onward := h.onward.trans onward }

/-- What a survey has read does not become wrong while others go on. -/
theorem Surveying.Saw.mono (h : s.Saw Seen q) (onward : Onward q q')
    (head_lt : q.head < q.segments.size) (seen : ∀ s q, Seen s q → Seen' s q) :
    s.Saw Seen' q' := by
  cases s with
  | loadingHead => trivial
  | loadingTail head => exact Nat.le_trans h onward.head_le
  | readingLow head tail => exact ⟨h.1.trans onward.head_le, h.2.trans onward.tail_le⟩
  | readingStop head tail low =>
    exact ⟨h.1.trans onward.head_le, h.2.1.trans onward.tail_le,
      h.2.2.trans (onward.low_le (h.1.trans_lt head_lt))⟩
  | checkingHead x => exact h.imp fun q₀ h => ⟨seen _ _ h.1, h.2.mono onward⟩
  | checkingTail x | checkingLow x =>
    exact h.imp fun q₀ h => ⟨seen _ _ h.1, h.2.1.mono onward, h.2.2⟩
  | checkingStop x => exact h.imp fun q₀ h => ⟨seen _ _ h.1, h.2⟩

/-- The second pass closes a gap by each of its reads: what is behind what was there, and is what is
there now, is what was there. -/
theorem Surveying.saw_step (saw : s.Saw Seen q) (here : Seen s q)
    (head_lt : q.head < q.segments.size) :
    (s.step q).1.Holds (Surveying.Saw Seen q)
      fun x => ∃ q₀, Seen (.readingStop x.head x.tail x.low) q₀ ∧ x = q₀.extent := by
  cases s with
  | loadingHead => exact Nat.le_refl q.head
  | loadingTail head => exact ⟨saw, Nat.le_refl q.tail⟩
  | readingLow head tail => exact ⟨saw.1, saw.2, Nat.le_refl _⟩
  | readingStop head tail low =>
    exact ⟨q, here, saw.1, saw.2.1, saw.1.trans_lt head_lt, saw.2.2, rfl, .refl q⟩
  | checkingHead x =>
    obtain ⟨q₀, seen, read⟩ := saw
    rw [Surveying.step]
    split
    · next same => exact ⟨q₀, seen, read, read.head_le.antisymm (same ▸ read.onward.head_le)⟩
    · trivial
  | checkingTail x =>
    obtain ⟨q₀, seen, read, head⟩ := saw
    rw [Surveying.step]
    split
    · next same =>
      exact ⟨q₀, seen, read, head, read.tail_le.antisymm (same ▸ read.onward.tail_le)⟩
    · trivial
  | checkingLow x =>
    obtain ⟨q₀, seen, read, head, tail⟩ := saw
    rw [Surveying.step]
    split
    · next same =>
      have low : x.low = (q₀.segment x.head).low :=
        read.low_le.antisymm (same ▸ read.onward.low_le read.head_lt)
      refine ⟨q₀, seen, ?_⟩
      rw [extent, ← head, ← tail, ← low, ← read.stop]
    · trivial
  | checkingStop x =>
    rw [Surveying.step]
    split
    · exact saw
    · trivial

end

/-! ## Threads that survey -/

/-- Where a thread stands in a survey. -/
def Point.survey? : Point α → Option Surveying
  | surveying s | opening s => some s
  | _ => none

/-- The extent that an operation has found by a survey. -/
def Outcome.extent? : Outcome α → Option Extent
  | surveyed x => some x
  | opened ⟨some head, low, tail, stop⟩ => some ⟨head, tail, low, stop⟩
  | _ => none

/-- A thread in a survey goes on with it, and comes to what the survey finds. -/
theorem Point.survey?_step {point : Point α} {s : Surveying} (surveys : point.survey? = some s)
    (q : Queue α) :
    (∀ point', (point.step q).1.point? = some point' →
      ∃ s', point'.survey? = some s' ∧ (s.step q).1.point? = some s') ∧
    (point.step q).1.result?.bind Outcome.extent? = (s.step q).1.result? := by
  unfold survey? at surveys
  split at surveys <;> obtain ⟨⟩ := surveys
  all_goals
    refine ⟨fun point' goes => ?_, ?_⟩
    · obtain ⟨s', inner, rfl⟩ := Progress.lift_eq_next goes
      exact ⟨s', rfl, inner⟩
    · simp only [Point.step, Progress.result?_lift]
      cases (s.step q).1.result? <;> rfl

/-! ## Counting -/

/-- The slots that are reserved and not claimed. -/
def heldSlots (past : List (Nat × Deed α)) : List (Nat × Nat) :=
  (reservedSlots past).filter (· ∉ claimedSlots past)

theorem mem_slots {n : Nat} {x : Nat × Nat} :
    x ∈ slots n ↔ x.2 < Segment.size ∧ Segment.size * x.1 + x.2 < n := by
  simp only [slots, List.mem_map, List.mem_range, Segment.size, Prod.ext_iff]
  constructor
  · rintro ⟨k, lt, segment, slot⟩
    omega
  · rintro ⟨slot_lt, lt⟩
    exact ⟨32 * x.1 + x.2, lt, by omega, by omega⟩

/-- There are `n - m` slots from number `m` up to number `n`. -/
theorem length_filter_slots (n m : Nat) :
    ((slots n).filter (· ∉ slots m)).length = n - m := by
  induction n with
  | zero => rw [Nat.zero_sub]; rfl
  | succ n ih =>
    have slot_lt : n % Segment.size < Segment.size := Nat.mod_lt n (by decide)
    have number : Segment.size * (n / Segment.size) + n % Segment.size = n := Nat.div_add_mod _ _
    have mem : (n / Segment.size, n % Segment.size) ∈ slots m ↔ n < m := by
      rw [mem_slots, number, and_iff_right slot_lt]
    rw [slots_succ slot_lt number, List.filter_append, List.length_append, ih,
      List.filter_cons, List.filter_nil]
    by_cases lt : n < m
    · simp only [mem, lt, not_true, decide_false, Bool.false_eq_true, if_false, List.length_nil]
      omega
    · simp only [mem, lt, not_false_iff, decide_true, if_true, List.length_singleton]
      omega

theorem length_heldSlots (h : AllDeeds Right past) : (heldSlots past).length =
    (ledger past).puts.length - (ledger past).claims.length := by
  obtain ⟨reserved, claimed⟩ := slots_eq_of_right h
  rw [heldSlots, reserved, claimed, length_filter_slots]

/-- What an extent comes to that was taken from a queue whose slots lie between its ends. Nothing is
cut off by a subtraction. -/
theorem Laid.extent_size (h : Laid q l) (spanned : Spanned q l)
    (index : ∀ g < q.segments.size, (q'.segment g).index = g) :
    q.extent.size q' = l.puts.length - l.claims.length ∧
    (q.head = q.tail → q.extent.low ≤ q.extent.stop) ∧
    (q.head ≠ q.tail → q.extent.low ≤ Segment.size ∧
      (q'.segment q.head).index + 1 ≤ (q'.segment q.tail).index) := by
  have head := index q.head h.head_lt
  have tail := index q.tail h.tail_lt
  have stop := (h.fits q.tail h.tail_lt).stop
  have claimed := (h.fits q.head h.head_lt).claimed
  have low : (q.segment q.head).low = min (q.segment q.head).claimed Segment.size := rfl
  obtain ⟨head_le_tail, puts_le⟩ := spanned
  have size_le := h.size_le
  have head_le := h.head_le
  have le_head := h.le_head
  have claims_le := h.claims_le
  have tail_lt := h.tail_lt
  simp only [Extent.size, extent, head, tail, stop, low, claimed]
  simp only [Segment.size] at *
  refine ⟨?_, fun same => ?_, fun other => ?_⟩
  · split <;> omega
  · omega
  · omega

/-! ## Runs -/

section

variable {μ : Type} {c : Crew (Queue α) (Point α) μ} {p : Program (Operation α) (Outcome α) μ}
  {during : List Nat} {x : Extent}

/-- Thread `t` of a crew begins a survey, is at it while the crew follows the schedule `during`, and
ends it at its next turn with the extent `x`. -/
structure Surveys (p : Program (Operation α) (Outcome α) μ) (c : Crew (Queue α) (Point α) μ)
    (t : Nat) (during : List Nat) (x : Extent) : Prop where
  begins : (c.point? t).bind Point.survey? = some .loadingHead
  busy : ∀ a, a <+: during → ((c.follow machine p a).point? t).isSome
  ends : ((c.follow machine p during).outcome? machine t).bind Outcome.extent? = some x

/-- The thread stood at the point `s` of its survey when the queue was `q`, after a part of the
schedule. -/
def Seen (p : Program (Operation α) (Outcome α) μ) (c : Crew (Queue α) (Point α) μ) (t : Nat)
    (during : List Nat) (s : Surveying) (q : Queue α) : Prop :=
  ∃ a, a <+: during ∧ ((c.follow machine p a).point? t).bind Point.survey? = some s ∧
    (c.follow machine p a).shared = q

theorem Seen.mono {a b : List Nat} {s : Surveying} (h : Seen p c t a s q) (le : a <+: b) :
    Seen p c t b s q :=
  h.imp fun _ h => ⟨h.1.trans le, h.2⟩

/-- What a survey has read is right at any moment of it. The induction is on the schedule from its
end: a turn of another thread moves the queue on, and a turn of the thread itself reads. -/
theorem Surveys.saw (h : Surveys p c t during x) (paced : Paced c past) {a : List Nat}
    (le : a <+: during) :
    ∃ s, ((c.follow machine p a).point? t).bind Point.survey? = some s ∧
      s.Saw (Seen p c t a) (c.follow machine p a).shared := by
  induction a using List.reverseRecOn with
  | nil => exact ⟨.loadingHead, h.begins, trivial⟩
  | append_singleton a u ih =>
    obtain ⟨s, stands, saw⟩ := ih ((List.prefix_append a [u]).trans le)
    have before := paced.follow (p := p) a
    have onward := before.onward_turn (p := p) u
    have seen (s : Surveying) (q : Queue α) (earlier : Seen p c t a s q) :=
      earlier.mono (List.prefix_append a [u])
    obtain ⟨point, busy, surveys⟩ := Option.bind_eq_some_iff.mp stands
    have still := h.busy _ le
    rw [Crew.follow_concat] at still ⊢
    by_cases same : u = t
    · subst same
      obtain ⟨next, -⟩ := Point.survey?_step surveys (c.follow machine p a).shared
      obtain ⟨point', busy'⟩ := Option.isSome_iff_exists.mp still
      have goes := (Crew.point?_turn_self busy).symm.trans busy'
      obtain ⟨s', surveys', inner⟩ := next point' goes
      refine ⟨s', by rw [busy']; exact surveys', ?_⟩
      have held := Surveying.saw_step saw ⟨a, List.prefix_rfl, stands, rfl⟩ before.laid.head_lt
      exact (held.of_next inner).mono onward before.laid.head_lt seen
    · refine ⟨s, ?_, saw.mono onward before.laid.head_lt seen⟩
      rw [Crew.point?_turn_of_ne same]
      exact stands

/-- A survey ends with an extent that the queue had during the survey. -/
theorem Surveys.exists_extent (h : Surveys p c t during x) (paced : Paced c past) :
    ∃ a, a <+: during ∧
      ((c.follow machine p a).point? t).bind Point.survey? =
        some (.readingStop x.head x.tail x.low) ∧
      x = (c.follow machine p a).shared.extent := by
  obtain ⟨s, stands, saw⟩ := h.saw paced List.prefix_rfl
  obtain ⟨point, busy, surveys⟩ := Option.bind_eq_some_iff.mp stands
  have held := Surveying.saw_step saw ⟨during, List.prefix_rfl, stands, rfl⟩
    (paced.follow during).laid.head_lt
  have done : (s.step (c.follow machine p during).shared).1 = .done x := by
    have ends := h.ends
    rw [Crew.outcome?, busy, Option.bind_some] at ends
    refine Progress.result?_eq_some.mp (Eq.trans ?_ ends)
    exact (Point.survey?_step surveys _).2.symm
  rw [done] at held
  obtain ⟨_, ⟨a, le, there, rfl⟩, same⟩ := held
  exact ⟨a, le, there, same⟩

end

/-- Let any threads work on a queue, each by a program of its own, and interleave their steps by any
schedule. If a thread ends a survey, there was a moment during it, when it had read the head, the
tail and the first cursor and was about to read the second, at which all four were what it has
found. The size of that extent, worked out then or at any later time, is the number of slots that
were reserved and not claimed at that moment, and no subtraction in it is cut off. Others may have
made the survey start over before; if `before` leads up to its last pass, the moment is within that.
-/
theorem surveys_find_instants {μ : Type} (p : Program (Operation α) (Outcome α) μ)
    (memories : List μ) (before during : List Nat) (t : Nat) (x : Extent) :
    let start : Crew (Queue α) (Point α) μ := Crew.idle Queue.empty memories
    let c := start.follow machine p before
    Surveys p c t during x →
    ∃ a, a <+: during ∧
      ((c.follow machine p a).point? t).bind Point.survey? =
        some (.readingStop x.head x.tail x.low) ∧
      x = (c.follow machine p a).shared.extent ∧
      ∀ later,
        let q := (c.follow machine p (during ++ later)).shared
        x.size q = (heldSlots (start.history machine p observer (before ++ a))).length ∧
        (x.head = x.tail → x.low ≤ x.stop) ∧
        (x.head ≠ x.tail → x.low ≤ Segment.size ∧
          (q.segment x.head).index + 1 ≤ (q.segment x.tail).index) := by
  intro start c surveys
  have paced (schedule : List Nat) : Paced (start.follow machine p schedule)
      (start.history machine p observer schedule) :=
    (Paced.idle memories).follow schedule
  obtain ⟨a, le, stands, rfl⟩ := surveys.exists_extent (paced before)
  refine ⟨a, le, stands, rfl, fun later => ?_⟩
  obtain ⟨b, rfl⟩ := le
  have there : start.follow machine p (before ++ a) = c.follow machine p a :=
    Crew.follow_append before a
  have now : start.follow machine p (before ++ a ++ (b ++ later)) =
      c.follow machine p (a ++ b ++ later) := by
    rw [List.append_assoc, Crew.follow_append, List.append_assoc]
  have at_ := paced (before ++ a)
  have onward := at_.onward_follow (p := p) (b ++ later)
  rw [← Crew.follow_append, now, there] at onward
  rw [there] at at_
  have laid := (paced (before ++ a ++ (b ++ later))).laid
  rw [now] at laid
  rw [length_heldSlots at_.right]
  exact at_.laid.extent_size at_.spanned fun g hg =>
    (laid.fits g (hg.trans_le onward.size_le)).index

/-- A value that is put in during a survey counts if its slot is reserved before the fourth read. -/
theorem surveys_find_instants_enqueue :
    let scripts : List (List (Request Nat)) := [[.enqueue 5, .enqueue 6], [.survey]]
    let before := List.replicate 6 0 ++ [1]
    let during := [1, 1, 1] ++ List.replicate 6 0 ++ [1, 1, 1, 1]
    let start : Crew (Queue Nat) (Point Nat) (Client Nat) :=
      Crew.idle Queue.empty (scripts.map (⟨·, []⟩))
    let c := start.follow machine Client.program before
    Surveys Client.program c 1 during ⟨0, 0, 0, 2⟩ ∧
    ∃ a, a <+: during ∧ ⟨0, 0, 0, 2⟩ = (c.follow machine Client.program a).shared.extent ∧
      (heldSlots (start.history machine Client.program observer (before ++ a))).length = 2 := by
  intro scripts before during start c
  have busy : (during.inits.all fun a =>
      ((c.follow machine Client.program a).point? 1).isSome) = true := by
    decide +kernel
  have surveys : Surveys Client.program c 1 during ⟨0, 0, 0, 2⟩ := by
    refine ⟨by decide +kernel, fun a le => ?_, by decide +kernel⟩
    exact List.all_eq_true.mp busy a ((List.mem_inits a during).mpr le)
  obtain ⟨a, le, -, same, size⟩ :=
    surveys_find_instants Client.program (scripts.map (⟨·, []⟩)) before during 1 _ surveys
  exact ⟨surveys, a, le, same, (size []).1.symm⟩

end SharedCollections.Queue

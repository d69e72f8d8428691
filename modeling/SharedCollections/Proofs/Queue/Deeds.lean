import SharedCollections.Proofs.Crew
import SharedCollections.Proofs.Queue.Changes
import SharedCollections.Queue.Threads
/-!
# The deeds of threads on a queue

A slot is reserved by the step that counts a reservation up within the segment, and claimed by the
step whose comparison succeeds; these deeds and the begins and ends of the calls that put a value in
or take one are the history of a queue. `Right` says what each of them has to be in view of the
deeds before it, and `At` what a thread can be sure of at its point.
-/

namespace SharedCollections.Queue

/-- What a thread does on a queue. -/
inductive Deed (α : Type) where
  /-- A call that puts a value in or takes one begins. -/
  | called (op : Operation α)
  | reserved (v : α) (g i : Nat)
  /-- A call that puts a value in ends. -/
  | put
  | claimed (g i : Nat)
  /-- A call that takes a value ends. -/
  | answered (v : Option α)
  | failed (f : Fault)

variable {α : Type} {q q' : Queue α} {l l' : Ledger α} {past new : List (Nat × Deed α)}
  {t u g i : Nat} {v : α}

/-! ## Observing threads -/

def Operation.deed : Operation α → Option (Deed α)
  | enqueue v => some (.called (.enqueue v))
  | dequeue => some (.called .dequeue)
  | _ => none

/-- What is done by a step with the given outcome. -/
def Point.deedOf : Point α → Progress (Point α) (Outcome α) → Option (Deed α)
  | .enqueuing v (.reserving g), .next (.enqueuing _ (.writing _ i)) => some (.reserved v g i)
  | .enqueuing .., .done _ => some .put
  | .dequeuing (.removing g (.claiming low)), .next (.dequeuing (.removing _ (.awaiting _))) =>
    some (.claimed g low)
  | .dequeuing _, .done (.taken v) => some (.answered v)
  | .enqueuing .., .fail f | .dequeuing _, .fail f => some (.failed f)
  | _, _ => none

/-- What is done by a step. Only operations that put a value in or take one do anything here. -/
def Point.deed (point : Point α) (q : Queue α) : Option (Deed α) := point.deedOf (point.step q).1

def observer : Observer (Queue α) (Operation α) (Point α) (Deed α) :=
  ⟨Operation.deed, Point.deed⟩

/-! ## Signals -/

def Removing.signal (g : Nat) : Removing → Signal
  | taking i .marking => .mark g i
  | moving i => .move g i
  | _ => .none

def Looking.signal (g i : Nat) : Looking α → Signal
  | reading .arriving => .arrive g i
  | reading (.leaving _) => .leave g i
  | _ => .none

def Peeking.signal : Peeking α → Signal
  | raising => .raise
  | lowering _ => .lower
  | looking g i look => look.signal g i
  | _ => .none

def Iterating.signal : Iterating α → Signal
  | looking _ g i look => look.signal g i
  | _ => .none

/-- What the next step of a thread tells the others. -/
def Point.signal : Point α → Signal
  | dequeuing (.removing g point) => point.signal g
  | peeking point => point.signal
  | raising => .raise
  | iterating point => point.signal
  | closing => .lower
  | _ => .none

/-! ## Reading a history -/

/-- The reservations and claims in a history. -/
def ledger (past : List (Nat × Deed α)) : Ledger α where
  puts := past.filterMap fun
    | (t, .reserved v _ _) => some (t, v)
    | _ => none
  claims := past.filterMap fun
    | (t, .claimed _ _) => some t
    | _ => none

/-- A thread whose last deed this is has nothing to put in or take. -/
def Deed.Ends : Deed α → Prop
  | called _ | reserved .. | claimed .. => False
  | put | answered _ | failed _ => True

/-- At some moment since the last call of thread `t` began, all slots that were reserved had been
claimed. -/
def CaughtUp (t : Nat) (past : List (Nat × Deed α)) : Prop :=
  ∃ earlier later, past = earlier ++ later ∧ (t, .called .dequeue) ∈ earlier ∧
    (t, .called .dequeue) ∉ later ∧ (ledger earlier).claims.length = (ledger earlier).puts.length

/-- What a deed of thread `t` has to be. The slots are reserved in order, and so they are claimed. A
call that puts a value in reserves one slot for it, and then ends. A call that takes one claims one
slot, and the thread with the claim numbered `n` answers with the value of the reservation numbered
`n`; or it claims none, and answers that there is no value only if it has caught up. Nobody does
anything else in between. -/
def Right (t : Nat) (past : List (Nat × Deed α)) : Deed α → Prop
  | .called _ => ∀ d ∈ lastDeed t past, d.Ends
  | .reserved v g i => lastDeed t past = some (.called (.enqueue v)) ∧ i < Segment.size ∧
    Segment.size * g + i = (ledger past).puts.length
  | .put => ∃ v g i, lastDeed t past = some (.reserved v g i)
  | .claimed g i => lastDeed t past = some (.called .dequeue) ∧ i < Segment.size ∧
    Segment.size * g + i = (ledger past).claims.length ∧
    (ledger past).claims.length < (ledger past).puts.length
  | .answered (some v) => ∃ g i u, lastDeed t past = some (.claimed g i) ∧
    (ledger past).puts[Segment.size * g + i]? = some (u, v)
  | .answered none => lastDeed t past = some (.called .dequeue) ∧ CaughtUp t past
  | .failed _ => False

section

theorem ledger_append : ledger (past ++ new) =
    ⟨(ledger past).puts ++ (ledger new).puts, (ledger past).claims ++ (ledger new).claims⟩ := by
  simp only [ledger, List.filterMap_append]

theorem ledger_reserved : ledger (past ++ [(t, .reserved v g i)]) = (ledger past).reserve t v := by
  rw [ledger_append]
  simp [ledger, Ledger.reserve]

theorem ledger_claimed : ledger (past ++ [(t, .claimed g i)]) = (ledger past).claim t := by
  rw [ledger_append]
  simp [ledger, Ledger.claim]

theorem ledger_called (op : Operation α) : ledger (past ++ [(t, .called op)]) = ledger past := by
  rw [ledger_append]
  simp [ledger]

theorem ledger_put : ledger (past ++ [(t, .put)]) = ledger past := by
  rw [ledger_append]
  simp [ledger]

/-- Nothing is reserved or claimed by beginning an operation. -/
theorem ledger_begun (op : Operation α) :
    ledger (past ++ (observer.begun op).toList.map (t, ·)) = ledger past := by
  cases op with
  | enqueue | dequeue => exact ledger_called _
  | _ => exact congrArg ledger (List.append_nil past)

theorem ledger_answered (x : Option α) : ledger (past ++ [(t, .answered x)]) = ledger past := by
  rw [ledger_append]
  simp [ledger]

theorem mem_of_lastDeed {d : Deed α} (last : lastDeed t past = some d) : (t, d) ∈ past := by
  obtain ⟨⟨u, e⟩, here, same⟩ := List.mem_filterMap.mp (List.mem_of_getLast? last)
  dsimp only at same
  split at same
  · next mine => exact Option.some.inj same ▸ mine ▸ here
  · cases same

theorem CaughtUp.append (h : CaughtUp t past) (others : ∀ x ∈ new, x.1 ≠ t) :
    CaughtUp t (past ++ new) := by
  obtain ⟨earlier, later, rfl, called, since, caught⟩ := h
  refine ⟨earlier, later ++ new, List.append_assoc _ _ _, called, ?_, caught⟩
  intro here
  rcases List.mem_append.mp here with here | here
  · exact since here
  · exact others _ here rfl

end

/-! ## What a thread can be sure of -/

def Enqueuing.At (q : Queue α) (l : Ledger α) (t : Nat) (v : α) : Enqueuing → Prop
  | loadingTail | reporting _ => True
  | checking g | reserving g | swinging g => g < q.segments.size
  | writing g i => Reserved q l t v g i
  | publishing g i => Reserved q l t v g i ∧ (q.place (Segment.size * g + i)).value = some v
  | linking g => l.puts[Segment.size * g + (Segment.size - 1)]? = some (t, v) ∧
    q.segments.size = g + 1

def Removing.At (q : Queue α) (l : Ledger α) (t g : Nat) : Removing → Prop
  | readingLow => True
  | readingStop low => low ≤ (q.segment g).claimed
  | claiming low => low ≤ (q.segment g).claimed ∧ low < (q.segment g).stop
  | awaiting i => Claimed q l t g i
  | asking i | taking i _ | moving i => Claimed q l t g i ∧
    (q.place (Segment.size * g + i)).slot.isWritten = true

def Dequeuing.At (q : Queue α) (past : List (Nat × Deed α)) (t : Nat) : Dequeuing α → Prop
  | loadingHead => True
  | removing g point => g ≤ q.head ∧ point.At q (ledger past) t g
  | checkingNext g => g ≤ q.head ∧ (g + 1 < q.segments.size ∨ CaughtUp t past)
  | awaitingNext g v => Leaves q (ledger past) t g v
  | awaitingTail g next v => Leaves q (ledger past) t g v ∧ next = g + 1 ∧ next < q.segments.size
  | advancing next v => ∃ g, Leaves q (ledger past) t g v ∧ next = g + 1 ∧ next < q.segments.size

/-- What a thread that puts `v` in has done last. -/
def Enqueuing.Last (v : α) (d : Option (Deed α)) : Enqueuing → Prop
  | loadingTail | checking _ | reserving _ => d = some (.called (.enqueue v))
  | writing g i | publishing g i => d = some (.reserved v g i)
  | linking _ | swinging _ | reporting _ => ∃ g i, d = some (.reserved v g i)

/-- What a thread that takes a value has done last. -/
def Removing.last (g : Nat) : Removing → Deed α
  | readingLow | readingStop _ | claiming _ => .called .dequeue
  | awaiting i | asking i | taking i _ | moving i => .claimed g i

def Dequeuing.last : Dequeuing α → Deed α
  | loadingHead | checkingNext _ => .called .dequeue
  | removing g point => point.last g
  | awaitingNext g _ | awaitingTail g _ _ => .claimed g (Segment.size - 1)
  | advancing next _ => .claimed (next - 1) (Segment.size - 1)

/-- What a thread at a point has done last. -/
def Point.Last (d : Option (Deed α)) : Point α → Prop
  | enqueuing v point => point.Last v d
  | dequeuing point => d = some point.last
  | _ => ∀ x ∈ d, x.Ends

/-- What thread `t` can be sure of at a point, or while it is idle. -/
def At (q : Queue α) (past : List (Nat × Deed α)) (t : Nat) : Option (Point α) → Prop
  | none => ∀ d ∈ lastDeed t past, d.Ends
  | some point => point.Last (lastDeed t past) ∧ match point with
    | .enqueuing v point => point.At q (ledger past) t v
    | .dequeuing point => point.At q past t
    | _ => True

/-! ## What others do -/

section

variable (grows : Grows q l q' l') (rely : Rely t q l q' l')

include grows rely

theorem Reserved.kept (h : Reserved q l t v g i) : Reserved q' l' t v g i where
  slot_lt := h.slot_lt
  mine := grows.puts _ _ h.mine
  unwritten := (rely.reserved _ _ h.mine h.unwritten).1
  last last := by
    refine rely.last_reserved g v ?_ (h.last last)
    rw [show Segment.size - 1 = i by omega]
    exact h.mine

theorem Claimed.kept (h : Claimed q l t g i) : Claimed q' l' t g i where
  slot_lt := h.slot_lt
  mine := grows.claims _ _ h.mine
  last last := by
    refine rely.last_claimed g ?_ (h.last last)
    rw [show Segment.size - 1 = i by omega]
    exact h.mine
  intact := rely.claimed _ h.mine h.intact

theorem Leaves.kept (h : Leaves q l t g v) : Leaves q' l' t g v where
  mine := grows.claims _ _ h.mine
  head := rely.last_claimed g h.mine h.head
  value := h.value.imp fun _ => grows.puts _ _

theorem Enqueuing.At.kept {point : Enqueuing} (h : point.At q l t v) : point.At q' l' t v := by
  cases point with
  | loadingTail | reporting => trivial
  | checking | reserving | swinging => exact Nat.lt_of_lt_of_le h grows.size_le
  | writing => exact Reserved.kept grows rely h
  | publishing =>
    refine ⟨h.1.kept grows rely, ?_⟩
    rw [(rely.reserved _ _ h.1.mine h.1.unwritten).2]
    exact h.2
  | linking => exact ⟨grows.puts _ _ h.1, rely.last_reserved _ _ h.1 h.2⟩

theorem Removing.At.kept {point : Removing} (hg : g < q.segments.size) (h : point.At q l t g) :
    point.At q' l' t g := by
  cases point with
  | readingLow => trivial
  | readingStop => exact Nat.le_trans h (grows.claimed_le g hg)
  | claiming => exact ⟨h.1.trans (grows.claimed_le g hg), h.2.trans_le (grows.stop_le g hg)⟩
  | awaiting => exact Claimed.kept grows rely h
  | asking | taking | moving => exact ⟨h.1.kept grows rely, grows.written _ h.2⟩

end

section

variable (grows : Grows q (ledger past) q' (ledger (past ++ new)))
  (rely : Rely t q (ledger past) q' (ledger (past ++ new))) (others : ∀ x ∈ new, x.1 ≠ t)
  (head : q.head < q.segments.size)

include grows rely others head

theorem Dequeuing.At.kept {point : Dequeuing α} (h : point.At q past t) :
    point.At q' (past ++ new) t := by
  cases point with
  | loadingHead => trivial
  | removing =>
    exact ⟨h.1.trans grows.head_le, Removing.At.kept grows rely (h.1.trans_lt head) h.2⟩
  | checkingNext =>
    refine ⟨h.1.trans grows.head_le, ?_⟩
    rcases h.2 with behind | caught
    · exact .inl (behind.trans_le grows.size_le)
    · exact .inr (caught.append others)
  | awaitingNext => exact Leaves.kept grows rely h
  | awaitingTail => exact ⟨h.1.kept grows rely, h.2.1, h.2.2.trans_le grows.size_le⟩
  | advancing =>
    obtain ⟨g, leaves, next, behind⟩ := h
    exact ⟨g, leaves.kept grows rely, next, behind.trans_le grows.size_le⟩

/-- What a thread can be sure of does not depend on what the others do. -/
theorem At.kept {point : Option (Point α)} (h : At q past t point) :
    At q' (past ++ new) t point := by
  have last : lastDeed t (past ++ new) = lastDeed t past := lastDeed_append_of_ne others
  cases point with
  | none => simpa only [At, last] using h
  | some point =>
    refine ⟨last.symm ▸ h.1, ?_⟩
    cases point with
    | enqueuing v point => exact Enqueuing.At.kept grows rely h.2
    | dequeuing point => exact Dequeuing.At.kept grows rely others head h.2
    | _ => trivial

end

end SharedCollections.Queue

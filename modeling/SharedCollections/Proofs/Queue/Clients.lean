import SharedCollections.Proofs.Queue.Signals
/-!
# Clients of a queue

A client works through a list of requests. It may have any number of cursors open, and it moves on
and closes none but its own. Whatever a program makes of the results of its operations, it asks for
some list of operations in the end, so the threads of a queue are clients as long as no cursor
changes hands.
-/

namespace SharedCollections.Queue

variable {α : Type} {q q' : Queue α} {past : List (Nat × Deed α)} {t g i p : Nat}

/-! ## Requests -/

/-- What a client asks for. It names its cursors by number, the oldest one first. -/
inductive Request (α : Type) where
  | enqueue (v : α)
  | dequeue
  | peek
  | probe
  | survey
  | openCursor
  | next (cursor : Nat)
  | closeCursor (cursor : Nat)
deriving Repr

namespace Request

/-- The operation for a request of a client with the given cursors, if it names one of them. -/
def operation? (cursors : List Cursor) : Request α → Option (Operation α)
  | enqueue v => some (.enqueue v)
  | dequeue => some .dequeue
  | peek => some .peek
  | probe => some .probe
  | survey => some .survey
  | openCursor => some .openCursor
  | next j => cursors[j]?.map .next
  | closeCursor j => if j < cursors.length then some .closeCursor else none

/-- The cursors of a client after a request. -/
def update (cursors : List Cursor) : Request α → Outcome α → List Cursor
  | openCursor, .opened c => cursors ++ [c]
  | next j, .visited _ c => cursors.set j c
  | closeCursor j, .done => cursors.eraseIdx j
  | _, _ => cursors

theorem mem_update {cursors : List Cursor} {request : Request α} {outcome : Outcome α} {c : Cursor}
    (h : c ∈ request.update cursors outcome) : c ∈ cursors ∨ c ∈ outcome.cursor? := by
  unfold update at h
  split at h
  · rcases List.mem_append.mp h with old | new
    · exact .inl old
    · exact .inr (congrArg some (List.mem_singleton.mp new).symm)
  · rcases List.mem_or_eq_of_mem_set h with old | rfl
    · exact .inl old
    · exact .inr rfl
  · exact .inl (List.mem_of_mem_eraseIdx h)
  · exact .inl h

end Request

/-- A client with what it is going to ask for and the cursors that it has opened and not closed. -/
structure Client (α : Type) where
  requests : List (Request α)
  cursors : List Cursor
deriving Repr

namespace Client

/-- A client stops at a request for a cursor that it does not have. -/
def next? (client : Client α) : Option (Operation α) :=
  client.requests.head?.bind (·.operation? client.cursors)

def record (ended : Except Fault (Outcome α)) (client : Client α) : Client α where
  requests := client.requests.tail
  cursors := match client.requests.head?, ended with
    | some request, .ok outcome => request.update client.cursors outcome
    | _, _ => client.cursors

def program : Program (Operation α) (Outcome α) (Client α) := ⟨next?, record⟩

theorem mem_record {client : Client α} {outcome : Outcome α} {c : Cursor}
    (h : c ∈ (client.record (.ok outcome)).cursors) : c ∈ client.cursors ∨ c ∈ outcome.cursor? := by
  unfold record at h
  split at h
  · next request _ ok =>
    obtain ⟨⟩ := ok
    exact Request.mem_update h
  · exact .inl h

end Client

/-! ## Operations of clients -/

/-- A client is at a point because of the request that it makes. -/
def Point.Runs (client : Client α) : Point α → Prop
  | enqueuing .. => ∃ v, client.requests.head? = some (.enqueue v)
  | raising | opening _ => client.requests.head? = some .openCursor
  | iterating _ => client.cursors ≠ []
  | closing => ∃ j < client.cursors.length, client.requests.head? = some (.closeCursor j)
  | _ => True

theorem Point.Runs.begin {client : Client α} {op : Operation α} (next : client.next? = some op) :
    op.begin.Runs client := by
  obtain ⟨request, head, operation⟩ := Option.bind_eq_some_iff.mp next
  cases request with
  | enqueue v =>
    obtain ⟨⟩ := operation
    exact ⟨v, head⟩
  | openCursor =>
    obtain ⟨⟩ := operation
    exact head
  | next j =>
    obtain ⟨c, here, rfl⟩ := Option.map_eq_some_iff.mp operation
    exact List.ne_nil_of_mem (List.mem_of_getElem? here)
  | closeCursor j =>
    obtain ⟨inside, same⟩ := Option.ite_none_right_eq_some.mp operation
    obtain ⟨⟩ := same
    exact ⟨j, inside, head⟩
  | _ =>
    obtain ⟨⟩ := operation
    trivial

theorem Point.Runs.step {client : Client α} {point point' : Point α} (h : point.Runs client)
    (step : (point.step q).1.point? = some point') : point'.Runs client := by
  cases Point.next step with
  | enqueuing | raising | opening | iterating => exact h
  | _ => trivial

/-! ## Snapshots in progress -/

/-- How many snapshots there are at a point, apart from those with a cursor. -/
def Point.snapshots : Point α → Nat
  | peeking .raising => 0
  | peeking _ | opening _ => 1
  | _ => 0

theorem Removing.signal_count (point : Removing) (g : Nat) :
    (point.signal g).raised = 0 ∧ (point.signal g).lowered = 0 := by
  cases point with
  | taking i phase => cases phase <;> exact ⟨rfl, rfl⟩
  | _ => exact ⟨rfl, rfl⟩

theorem Looking.signal_count (look : Looking α) (g i : Nat) :
    (look.signal g i).raised = 0 ∧ (look.signal g i).lowered = 0 := by
  cases look with
  | awaiting => exact ⟨rfl, rfl⟩
  | reading look => cases look <;> exact ⟨rfl, rfl⟩

theorem Dequeuing.signal_count (point : Dequeuing α) :
    (Point.dequeuing point).signal.raised = 0 ∧ (Point.dequeuing point).signal.lowered = 0 := by
  cases point with
  | removing g point => exact point.signal_count g
  | _ => exact ⟨rfl, rfl⟩

theorem Iterating.signal_count (point : Iterating α) :
    point.signal.raised = 0 ∧ point.signal.lowered = 0 := by
  cases point with
  | looking c g i look => exact look.signal_count g i
  | _ => exact ⟨rfl, rfl⟩

theorem Peeking.snapshots_next {point point' : Peeking α}
    (step : (point.step q).1.point? = some point') :
    (Point.peeking point').snapshots + point.signal.lowered =
      (Point.peeking point).snapshots + point.signal.raised := by
  cases point with
  | raising =>
    obtain ⟨⟩ := step
    rfl
  | looking g i look =>
    obtain ⟨raised, lowered⟩ := look.signal_count g i
    rcases eq : look.step g i q with ⟨progress, q'⟩
    simp only [Peeking.step, eq] at step
    simp only [Peeking.signal, raised, lowered]
    cases progress with
    | next =>
      obtain ⟨⟩ := step
      rfl
    | done seen =>
      cases seen <;>
      · obtain ⟨⟩ := step
        rfl
    | fail => cases step
  | lowering => cases step
  | loadingHead | readingLow =>
    obtain ⟨⟩ := step
    rfl
  | readingStop | checkingNext =>
    simp only [Peeking.step] at step
    split at step <;>
    · obtain ⟨⟩ := step
      rfl

/-- A peek ends by its last step. -/
theorem Peeking.of_done {point : Peeking α} {seen : Option α}
    (step : (point.step q).1 = .done seen) : point = .lowering seen := by
  cases point with
  | looking g i look =>
    rcases eq : look.step g i q with ⟨progress, q'⟩
    simp only [Peeking.step, eq] at step
    rcases progress with _ | ⟨_ | _⟩ | _ <;> cases step
  | lowering =>
    obtain ⟨⟩ := step
    rfl
  | readingStop | checkingNext =>
    simp only [Peeking.step] at step
    split at step <;> cases step
  | _ => cases step

theorem Point.snapshots_next {point point' : Point α}
    (step : (point.step q).1.point? = some point') :
    point'.snapshots + point.signal.lowered = point.snapshots + point.signal.raised := by
  cases Point.next step with
  | @dequeuing point =>
    rw [point.signal_count.1, point.signal_count.2]
    rfl
  | peeking inner => exact Peeking.snapshots_next inner
  | @iterating point =>
    change 0 + point.signal.lowered = 0 + point.signal.raised
    rw [point.signal_count.1, point.signal_count.2]
  | _ => rfl

theorem Client.record_of_head {client : Client α} {request : Request α}
    (head : client.requests.head? = some request) (outcome : Outcome α) :
    (client.record (.ok outcome)).cursors = request.update client.cursors outcome := by
  simp only [record, head]

/-- A client has as many cursors as before, unless it has opened or closed one. -/
theorem Client.length_record {client : Client α} {outcome : Outcome α}
    (other : ∀ request : Request α,
      (request.update client.cursors outcome).length = client.cursors.length) :
    (client.record (.ok outcome)).cursors.length = client.cursors.length := by
  unfold record
  split
  · next ok =>
    obtain ⟨⟩ := ok
    exact other _
  · rfl

/-- The snapshot of a cursor stays in progress when its survey is done, and ends when the cursor is
closed. -/
theorem Point.snapshots_done {point : Point α} {client : Client α} {outcome : Outcome α}
    (runs : point.Runs client) (step : (point.step q).1 = .done outcome) :
    (client.record (.ok outcome)).cursors.length + point.signal.lowered =
      point.snapshots + client.cursors.length + point.signal.raised := by
  cases point with
  | enqueuing v point =>
    obtain ⟨v, head⟩ := runs
    obtain ⟨_, -, rfl⟩ := Progress.lift_eq_done step
    rw [client.record_of_head head]
    exact (Nat.zero_add _).symm
  | dequeuing point =>
    obtain ⟨_, -, rfl⟩ := Progress.lift_eq_done step
    rw [Client.length_record fun request => by cases request <;> rfl, point.signal_count.1,
      point.signal_count.2]
    exact (Nat.zero_add _).symm
  | peeking point =>
    obtain ⟨_, inner, rfl⟩ := Progress.lift_eq_done step
    obtain rfl := Peeking.of_done inner
    rw [Client.length_record fun request => by cases request <;> rfl]
    exact Nat.add_comm _ _
  | probing point | surveying point =>
    obtain ⟨_, -, rfl⟩ := Progress.lift_eq_done step
    rw [Client.length_record fun request => by cases request <;> rfl]
    exact (Nat.zero_add _).symm
  | raising => cases step
  | opening point =>
    obtain ⟨_, -, rfl⟩ := Progress.lift_eq_done step
    rw [client.record_of_head runs, Request.update, List.length_append]
    exact Nat.add_comm _ 1
  | iterating point =>
    obtain ⟨_, -, rfl⟩ := Progress.lift_eq_done step
    change _ + point.signal.lowered = 0 + _ + point.signal.raised
    rw [point.signal_count.1, point.signal_count.2, Nat.zero_add]
    refine Client.length_record fun request => ?_
    cases request with
    | next j => exact List.length_set
    | _ => rfl
  | closing =>
    obtain ⟨j, inside, head⟩ := runs
    obtain ⟨⟩ := step
    rw [client.record_of_head head, Request.update, List.length_eraseIdx_of_lt inside]
    change _ - 1 + 1 = 0 + client.cursors.length + 0
    omega

/-! ## Turns -/

/-- The thread of a client. -/
abbrev Worker (α : Type) := Thread (Point α) (Client α)

namespace Worker

def look? (w : Worker α) : Option (Nat × Nat × Looking α) := w.point.bind Point.look?

/-- How many snapshots the thread has in progress. -/
def snapshots (w : Worker α) : Nat := w.point.elim 0 Point.snapshots + w.memory.cursors.length

/-- What a thread can be sure of at its point and about its cursors. -/
structure Stands (q : Queue α) (w : Worker α) : Prop where
  point : ∀ point ∈ w.point, point.Stands q ∧ point.Runs w.memory
  cursors : ∀ c ∈ w.memory.cursors, c.Within q

/-- None of the snapshots that the thread has in progress will look at slot `p`. -/
structure Beyond (p : Nat) (w : Worker α) : Prop where
  point : ∀ point ∈ w.point, point.Beyond p
  cursors : ∀ c ∈ w.memory.cursors, c.Beyond p

/-- The thread is running a closure on the value of slot `p`. -/
def LooksAt (p : Nat) (w : Worker α) : Prop :=
  ∃ g i, w.look? = some (g, i, .reading .looking) ∧ Segment.size * g + i = p

/-- The thread is about to move the value of slot `p` out. -/
def Moves (p : Nat) (w : Worker α) : Prop :=
  ∃ g i, w.point = some (.dequeuing (.removing g (.moving i))) ∧ Segment.size * g + i = p

end Worker

/-- What a turn makes of a thread while the queue changes from `q`, where `n` slots have been
claimed, to `q'`. -/
structure Worked (q : Queue α) (n : Nat) (signal : Signal) (q' : Queue α) (w w' : Worker α) :
    Prop where
  stands : w'.Stands q'
  snapshots : w'.snapshots + signal.lowered = w.snapshots + signal.raised
  readers : ∀ p, readersAt p w'.look? + signal.left p = readersAt p w.look? + signal.arrived p
  inside : signal.Inside q
  moved : ∀ g i, signal = .move g i → w.Moves (Segment.size * g + i)
  /-- A closure is run on a value only where the value has not been taken. -/
  looks : ∀ p, w'.LooksAt p → (q.place p).slot.isTaken = false
  beyond : ∀ p < n, w.Beyond p → w'.Beyond p
  /-- A value is moved out only where there is no snapshot, or no reader left. -/
  moves : ∀ p, w'.Moves p →
    q'.takers = 0 ∨ (q'.place p).slot.isTaken = true ∧ (q'.place p).slot.readers = 0

theorem Client.mem_of_next {client : Client α} {c : Cursor} (next : client.next? = some (.next c)) :
    c ∈ client.cursors := by
  obtain ⟨request, -, operation⟩ := Option.bind_eq_some_iff.mp next
  cases request with
  | next j =>
    obtain ⟨c, here, same⟩ := Option.map_eq_some_iff.mp operation
    obtain ⟨⟩ := same
    exact List.mem_of_getElem? here
  | closeCursor j => cases (Option.ite_none_right_eq_some.mp operation).2
  | _ => cases operation

theorem Worked.begun {client : Client α} {op : Operation α} {n : Nat}
    (stands : Worker.Stands q ⟨none, client⟩) (next : client.next? = some op) :
    Worked q n .none q ⟨none, client⟩ ⟨some op.begin, client⟩ where
  stands := by
    refine ⟨?_, stands.cursors⟩
    rintro _ ⟨⟩
    refine ⟨?_, .begin next⟩
    cases op with
    | next c => exact stands.cursors c (Client.mem_of_next next)
    | _ => trivial
  snapshots := by cases op <;> rfl
  readers p := by cases op <;> rfl
  inside := trivial
  moved := nofun
  looks p := by
    rintro ⟨g, i, look, -⟩
    cases op <;> cases look
  beyond p _ beyond := by
    refine ⟨?_, beyond.cursors⟩
    rintro _ ⟨⟩
    cases op with
    | next c => exact beyond.cursors c (Client.mem_of_next next)
    | _ => trivial
  moves p := by
    rintro ⟨g, i, point, -⟩
    cases op <;> cases point

theorem Looking.signal_ne_move (look : Looking α) (g' i' : Nat) :
    look.signal g' i' ≠ .move g i := by
  cases look with
  | awaiting => exact nofun
  | reading look => cases look <;> exact nofun

theorem Point.of_move {point : Point α} (signal : point.signal = .move g i) :
    point = .dequeuing (.removing g (.moving i)) := by
  cases point with
  | dequeuing point =>
    cases point with
    | removing g point =>
      cases point with
      | moving =>
        obtain ⟨⟩ := signal
        rfl
      | taking i phase => cases phase <;> cases signal
      | _ => cases signal
    | _ => cases signal
  | peeking point | iterating point =>
    cases point with
    | looking => exact absurd signal (Looking.signal_ne_move _ _ _)
    | _ => cases signal
  | _ => cases signal

/-- A client gets a cursor only by the end of an operation. -/
theorem Client.mem_after {client : Client α} {progress : Progress (Point α) (Outcome α)}
    {c : Cursor} (h : c ∈ (program.after client progress).memory.cursors) :
    c ∈ client.cursors ∨ ∃ outcome, progress = .done outcome ∧ c ∈ outcome.cursor? := by
  cases progress with
  | next => exact .inl h
  | done outcome => exact (mem_record h).imp_right fun new => ⟨outcome, rfl, new⟩
  | fail f =>
    refine .inl ?_
    cases head : client.requests.head? <;> simpa only [Program.after, program, record, head] using h

theorem Worked.stepped (h : Laid q (ledger past)) {point : Point α} {client : Client α}
    (at_ : At q past t (some point)) (stands : Worker.Stands q ⟨some point, client⟩)
    (there : ∀ g i, point.look? = some (g, i, .reading .looking) → (q.cell g i).value ≠ none) :
    Worked q (ledger past).claims.length point.signal (point.step q).2 ⟨some point, client⟩
      (Client.program.after client (point.step q).1) := by
  obtain ⟨here, runs⟩ : point.Stands q ∧ point.Runs client := stands.point point rfl
  have change := (h.stepped at_).change
  have spec := h.stands_step at_ here there
  have after : (Client.program.after client (point.step q).1).point = (point.step q).1.point? :=
    Program.point_after _ _ _
  have look : Worker.look? (Client.program.after client (point.step q).1) =
      (point.step q).1.point?.bind Point.look? := by
    rw [Worker.look?, after]
  constructor
  case stands =>
    constructor
    · intro point' goes
      rw [after] at goes
      rw [Program.memory_after goes]
      exact ⟨(spec.of_next goes).1, runs.step goes⟩
    · intro c mem
      rcases Client.mem_after mem with old | ⟨outcome, done, new⟩
      · exact (stands.cursors c old).mono (change.grows h)
      · rw [done] at spec
        exact (spec c new).1
  case snapshots =>
    cases goes : (point.step q).1 with
    | next point' =>
      have count := point.snapshots_next (congrArg Progress.point? goes)
      change point'.snapshots + client.cursors.length + point.signal.lowered =
        point.snapshots + client.cursors.length + point.signal.raised
      omega
    | done outcome =>
      have count := point.snapshots_done runs goes
      change 0 + (client.record (.ok outcome)).cursors.length + point.signal.lowered =
        point.snapshots + client.cursors.length + point.signal.raised
      omega
    | fail =>
      rw [goes] at spec
      exact spec.elim
  case readers =>
    intro p
    rw [look]
    exact point.readersAt_step p
  case inside => exact here.inside
  case moved =>
    intro g i signal
    exact ⟨g, i, congrArg some (Point.of_move signal), rfl⟩
  case looks =>
    rintro p ⟨g, i, looks, rfl⟩
    obtain ⟨before, taken⟩ := Point.looks_step (look.symm.trans looks)
    rwa [← cell_eq_place (here.look before).2.1]
  case beyond =>
    intro p claimed beyond
    constructor
    · intro point' goes
      rw [after] at goes
      exact (spec.of_next goes).2 p claimed (beyond.point point rfl)
    · intro c mem
      rcases Client.mem_after mem with old | ⟨outcome, done, new⟩
      · exact beyond.cursors c old
      · rw [done] at spec
        exact (spec c new).2 p claimed (beyond.point point rfl)
  case moves =>
    rintro p ⟨g, i, moves, rfl⟩
    rw [after] at moves
    obtain ⟨y, rfl, inner⟩ := (Point.removing_step moves).resolve_left nofun
    rcases Removing.moving_step inner with ⟨rfl, none⟩ | ⟨phase, rfl, unread⟩
    · exact .inl ((change.takers (Nat.zero_le _)).trans none)
    · refine .inr ⟨h.taken_step at_ here, ?_⟩
      have mine : Claimed q (ledger past) t g i := at_.2.2.1
      rw [cell_eq_place mine.slot_lt, ← Bool.not_eq_true, Slot.isRead_iff] at unread
      have none := Nat.eq_zero_of_not_pos unread
      obtain ⟨arrived, left, -⟩ := Point.signal_of_none (p := Segment.size * g + i) (q := q)
        (rfl : (Point.dequeuing (.removing g (.taking i phase)) : Point α).look? = .none)
      have count := change.readers (p := Segment.size * g + i) h here.inside
      rw [arrived, left, none] at count
      exact count (by decide) (Nat.le_refl 0)

end SharedCollections.Queue

import SharedCollections.Proofs.Crew
import SharedCollections.Proofs.Slot
import SharedCollections.Slot.Threads
/-!
# The handshake on a slot

However writers, takers and readers take turns on one slot, its word says which flags have been
raised and how many readers are registered (`Agreed`). A reader runs its closure only if it arrived
before the slot was marked as taken, and a taker is done only once it has read that no readers are
registered. So nobody looks at a value that has been taken, and nobody ever will.
-/

namespace SharedCollections.Slot

variable {ρ : Type}

/-! ## The word -/

/-- The word is its two flags and its count. -/
theorem toNat_word (s : Slot) :
    s.word.toNat = 4 * s.readers + 2 * s.isTaken.toNat + s.isWritten.toNat := by
  rw [isTaken_eq, isWritten_eq, readers_eq, Nat.testBit_eq_decide_div_mod_eq,
    Nat.testBit_eq_decide_div_mod_eq, Nat.pow_zero, Nat.div_one, Nat.pow_one]
  rcases Nat.mod_two_eq_zero_or_one s.word.toNat with h | h <;>
    rcases Nat.mod_two_eq_zero_or_one (s.word.toNat / 2) with h' | h' <;>
    simp [h, h'] <;> omega

/-! ## Points -/

namespace Operation

def isRead : Operation ρ → Bool
  | read _ => true
  | _ => false

def isTake : Operation ρ → Bool
  | take => true
  | _ => false

end Operation

inductive Deed where
  | wrote
  | marked
deriving DecidableEq, Repr

namespace Point

/-- The operation that a point belongs to. -/
def operation : Point ρ → Operation ρ
  | writing => .write
  | awaiting => .await
  | reading look _ => .read look
  | taking _ => .take

/-- Whether the thread counts as a reader: it has arrived and not left. -/
def isRegistered : Point ρ → Bool
  | reading _ .looking | reading _ (.leaving _) => true
  | _ => false

/-- Whether the thread is running its closure. -/
def isLooking : Point ρ → Bool
  | reading _ .looking => true
  | _ => false

/-- Whether the thread has marked the slot as taken and waits for the readers to leave. -/
def isWaiting : Point ρ → Bool
  | taking .waiting => true
  | _ => false

/-- What the step from a point on does to the flags. -/
def deed : Point ρ → Option Deed
  | writing => some .wrote
  | taking .marking => some .marked
  | _ => none

end Point

def observer : Observer Slot (Operation ρ) (Point ρ) Deed :=
  ⟨fun _ => none, fun point _ => point.deed⟩

/-- What a thread can do with a slot in one step. -/
inductive Steps (s : Slot) : Point ρ → Progress (Point ρ) (Outcome ρ) → Slot → Prop
  | wrote : Steps s .writing (.done .done) s.markWritten
  | awaits : Steps s .awaiting (.next .awaiting) s
  | awaited (written : s.isWritten = true) : Steps s .awaiting (.done .done) s
  | arrived {look : Except Fault ρ} (there : s.isTaken = false) :
      Steps s (.reading look .arriving) (.next (.reading look .looking)) s.arrive
  | late {look : Except Fault ρ} (taken : s.isTaken = true) :
      Steps s (.reading look .arriving) (.next (.reading look (.leaving (.ok none)))) s.arrive
  | looked {look : Except Fault ρ} :
      Steps s (.reading look .looking) (.next (.reading look (.leaving (look.map some)))) s
  | left {look : Except Fault ρ} {seen : Option ρ} :
      Steps s (.reading look (.leaving (.ok seen))) (.done (.seen seen)) s.leave
  | failed {look : Except Fault ρ} {f : Fault} :
      Steps s (.reading look (.leaving (.error f))) (.fail f) s.leave
  | marked : Steps s (.taking .marking) (.next (.taking .waiting)) s.markTaken
  | took (free : s.readers = 0) : Steps s (.taking .marking) (.done .taken) s.markTaken
  | waits : Steps s (.taking .waiting) (.next (.taking .waiting)) s
  | waited (free : s.readers = 0) : Steps s (.taking .waiting) (.done .taken) s

theorem readers_eq_zero {s : Slot} (free : ¬ s.isRead = true) : s.readers = 0 :=
  Nat.eq_zero_of_not_pos fun read => free (s.isRead_iff.mpr read)

theorem Point.steps (point : Point ρ) (s : Slot) :
    Steps s point (point.step s).1 (point.step s).2 := by
  cases point with
  | writing => exact .wrote
  | awaiting =>
    by_cases written : s.isWritten = true
    · simpa [Point.step, awaitStep, written] using .awaited written
    · simpa [Point.step, awaitStep, written] using .awaits
  | reading look point =>
    cases point with
    | arriving =>
      cases taken : s.isTaken with
      | true => simpa [Point.step, Reading.step, taken] using .late taken
      | false => simpa [Point.step, Reading.step, taken] using .arrived taken
    | looking => exact .looked
    | leaving seen =>
      cases seen with
      | ok => exact .left
      | error => exact .failed
  | taking point =>
    cases point with
    | marking =>
      by_cases read : s.isRead = true
      · simpa [Point.step, Taking.step, read] using .marked
      · simpa [Point.step, Taking.step, read] using .took (readers_eq_zero read)
    | waiting =>
      by_cases read : s.isRead = true
      · simpa [Point.step, Taking.step, read] using .waits
      · simpa [Point.step, Taking.step, read] using .waited (readers_eq_zero read)

namespace Steps

variable {s s' : Slot} {point point' : Point ρ} {progress : Progress (Point ρ) (Outcome ρ)}

theorem operation_eq (h : Steps s point (.next point') s') :
    point'.operation = point.operation := by
  cases h <;> rfl

theorem isWritten_eq (h : Steps s point progress s') :
    s'.isWritten = (s.isWritten || point.deed = some .wrote) := by
  cases h <;> simp [Point.deed]

theorem isTaken_eq (h : Steps s point progress s') :
    s'.isTaken = (s.isTaken || point.deed = some .marked) := by
  cases h <;> simp [Point.deed]

/-- The count follows the thread, if there is room in it for one more. -/
theorem readers_eq (h : Steps s point progress s')
    (room : s.readers + (progress.point?.any Point.isRegistered).toNat <
      2 ^ 62 + point.isRegistered.toNat)
    (counted : point.isRegistered.toNat ≤
      s.readers + (progress.point?.any Point.isRegistered).toNat) :
    s'.readers + point.isRegistered.toNat =
      s.readers + (progress.point?.any Point.isRegistered).toNat := by
  cases h with
  | arrived | late =>
    have room : s.readers + 1 < 2 ^ 62 + 0 := room
    exact readers_arrive s (by rwa [Nat.add_zero] at room)
  | left | failed =>
    rw [readers_leave s counted]
    exact Nat.sub_add_cancel counted
  | _ => simp [Point.isRegistered, Progress.point?]

/-- Only a reader that finds the value still there begins to look. -/
theorem there (h : Steps s point (.next point') s') (looking : point'.isLooking = true) :
    s.isTaken = false := by
  cases h with
  | arrived there => exact there
  | _ => cases looking

/-- Who waits has marked the slot. -/
theorem isTaken_of_next (h : Steps s point (.next point') s') (waiting : point'.isWaiting = true)
    (before : point.isWaiting = true → s.isTaken = true) : s'.isTaken = true := by
  cases h with
  | marked => exact s.isTaken_markTaken
  | waits => exact before rfl
  | _ => cases waiting

/-- A take returns when nobody is registered. -/
theorem of_taken (h : Steps s point (.done .taken) s')
    (before : point.isWaiting = true → s.isTaken = true) :
    s'.isTaken = true ∧ s.readers = 0 := by
  cases h with
  | took free => exact ⟨s.isTaken_markTaken, free⟩
  | waited free => exact ⟨before rfl, free⟩

end Steps

/-! ## Threads -/

abbrev Worker (ρ : Type) := Thread (Point ρ) (Client ρ)

namespace Worker

def isRegistered (w : Worker ρ) : Bool := w.point.any Point.isRegistered

def isLooking (w : Worker ρ) : Bool := w.point.any Point.isLooking

def isWaiting (w : Worker ρ) : Bool := w.point.any Point.isWaiting

/-- Whether there is a read among the things that a thread does or is going to do. -/
def reads (w : Worker ρ) : Bool := w.memory.operations.any Operation.isRead

/-- Whether a take of the thread has returned. -/
def HasTaken (w : Worker ρ) : Prop := .ok .taken ∈ w.memory.outcomes

/-- How often a thread is still going to mark the slot as taken. -/
def marks (w : Worker ρ) : Nat :=
  if w.isWaiting then w.memory.operations.tail.countP Operation.isTake
  else w.memory.operations.countP Operation.isTake

/-- A thread that is busy works on the next of its operations. -/
def Works (w : Worker ρ) : Prop :=
  ∀ point ∈ w.point, w.memory.operations.head? = some point.operation

theorem exists_reading {w : Worker ρ} (registered : w.isRegistered = true) :
    ∃ look point, w.point = some (.reading look point) := by
  obtain ⟨_ | point, memory⟩ := w
  · cases registered
  · cases point with
    | reading look point => exact ⟨look, point, rfl⟩
    | writing | awaiting | taking => cases registered

theorem Works.reads {w : Worker ρ} (works : w.Works) (registered : w.isRegistered = true) :
    w.reads = true := by
  obtain ⟨look, point, here⟩ := exists_reading registered
  exact List.any_eq_true.mpr ⟨_, List.mem_of_head? (works _ here), rfl⟩

theorem isLooking_eq_false {w : Worker ρ} (gone : w.isRegistered = false) :
    w.isLooking = false := by
  obtain ⟨_ | point, memory⟩ := w
  · rfl
  · cases point with
    | reading look point =>
      cases point with
      | arriving => rfl
      | looking | leaving => cases gone
    | writing | awaiting | taking => rfl

end Worker

/-- What the turn of a thread does to the slot and to the thread. -/
structure Turns (s : Slot) (w : Worker ρ) (s' : Slot) (w' : Worker ρ) (d : Option Deed) : Prop where
  works : w'.Works
  reads : w'.reads = true → w.reads = true
  isWritten_eq : s'.isWritten = (s.isWritten || d = some .wrote)
  isTaken_eq : s'.isTaken = (s.isTaken || d = some .marked)
  readers_eq : s.readers + w'.isRegistered.toNat < 2 ^ 62 + w.isRegistered.toNat →
    w.isRegistered.toNat ≤ s.readers + w'.isRegistered.toNat →
    s'.readers + w.isRegistered.toNat = s.readers + w'.isRegistered.toNat
  there : w'.isLooking = true → s.isTaken = false
  waiting : w'.isWaiting = true → s'.isTaken = true
  taken : w'.HasTaken → w.HasTaken ∨ w'.point = none ∧ s'.isTaken = true ∧ s.readers = 0
  marks : w'.marks + d.toList.count .marked = w.marks

theorem Turns.begun (s : Slot) {client : Client ρ} {op : Operation ρ}
    (next : Client.program.next? client = some op) :
    Turns s ⟨none, client⟩ s ⟨some op.begin, client⟩ none := by
  have out : op.begin.isRegistered = false ∧ op.begin.isLooking = false ∧
      op.begin.isWaiting = false ∧ op.begin.operation = op := by
    cases op <;> exact ⟨rfl, rfl, rfl, rfl⟩
  obtain ⟨unregistered, idle, free, operation⟩ := out
  refine ⟨fun point here => ?_, id, by simp, by simp, fun _ _ => ?_, fun looking => ?_,
    fun waiting => ?_, .inl, ?_⟩
  · obtain rfl : op.begin = point := Option.some.inj here
    rw [operation]
    exact next
  · simp [Worker.isRegistered, unregistered]
  · simp [Worker.isLooking, idle] at looking
  · simp [Worker.isWaiting, free] at waiting
  · simp [Worker.marks, Worker.isWaiting, free]

/-- A thread marks the slot once in each of its takes. -/
theorem Steps.marks_after {s s' : Slot} {client : Client ρ} {point : Point ρ}
    {progress : Progress (Point ρ) (Outcome ρ)} (h : Steps s point progress s')
    (works : Worker.Works ⟨some point, client⟩) :
    Worker.marks (Client.program.after client progress) + point.deed.toList.count .marked =
      Worker.marks ⟨some point, client⟩ := by
  obtain ⟨operations, outcomes⟩ := client
  obtain ⟨rest, rfl⟩ := List.head?_eq_some_iff.mp (works point rfl)
  cases h <;>
    simp [Worker.marks, Worker.isWaiting, Point.isWaiting, Program.after, Client.program,
      Point.deed, Point.operation, Operation.isTake, List.countP_cons]

theorem Turns.stepped {s : Slot} {client : Client ρ} {point : Point ρ}
    (works : Worker.Works ⟨some point, client⟩)
    (before : Worker.isWaiting ⟨some point, client⟩ = true → s.isTaken = true) :
    Turns s ⟨some point, client⟩ (point.step s).2 (Client.program.after client (point.step s).1)
      point.deed := by
  have steps := point.steps s
  generalize (point.step s).1 = progress, (point.step s).2 = s' at steps
  have marks := steps.marks_after works
  have later : (client.operations.tail.any Operation.isRead) = true →
      client.operations.any Operation.isRead = true := fun reads => by
    obtain ⟨op, mem, read⟩ := List.any_eq_true.mp reads
    exact List.any_eq_true.mpr ⟨op, List.mem_of_mem_tail mem, read⟩
  cases progress with
  | next point' =>
    refine ⟨fun other here => ?_, id, steps.isWritten_eq, steps.isTaken_eq, steps.readers_eq,
      steps.there, fun waiting => steps.isTaken_of_next waiting before, .inl, marks⟩
    obtain rfl : point' = other := Option.some.inj here
    rw [steps.operation_eq]
    exact works point rfl
  | done outcome =>
    refine ⟨nofun, later, steps.isWritten_eq, steps.isTaken_eq, steps.readers_eq, nofun, nofun,
      fun taken => ?_, marks⟩
    rcases List.mem_append.mp taken with old | new
    · exact .inl old
    · obtain rfl : Outcome.taken = outcome := Except.ok.inj (List.mem_singleton.mp new)
      exact .inr ⟨rfl, steps.of_taken before⟩
  | fail fault =>
    refine ⟨nofun, later, steps.isWritten_eq, steps.isTaken_eq, steps.readers_eq, nofun, nofun,
      fun taken => ?_, marks⟩
    rcases List.mem_append.mp taken with old | new
    · exact .inl old
    · cases List.mem_singleton.mp new

/-! ## The crew -/

/-- The slot is marked as taken, and nobody runs a closure. -/
def Shut (c : Crew Slot (Point ρ) (Client ρ)) : Prop :=
  c.shared.isTaken = true ∧ ∀ u ∈ c.threads, Worker.isLooking u = false

/-- What holds of a slot and the threads on it at any time: the word is what has been done to it. -/
structure Agreed (start : Slot) (takes : Nat) (c : Crew Slot (Point ρ) (Client ρ))
    (past : List (Nat × Deed)) : Prop where
  works : ∀ w ∈ c.threads, Worker.Works w
  few : c.threads.countP Worker.reads < 2 ^ 62
  isWritten_eq : c.shared.isWritten = (start.isWritten || past.any (·.2 = .wrote))
  isTaken_eq : c.shared.isTaken = past.any (·.2 = .marked)
  readers_eq : c.shared.readers = c.threads.countP Worker.isRegistered
  waiting : ∀ w ∈ c.threads, Worker.isWaiting w = true → c.shared.isTaken = true
  shut : ∀ w ∈ c.threads, Worker.HasTaken w → Shut c
  marks : (c.threads.map Worker.marks).sum + (past.map (·.2)).count .marked = takes

variable {start : Slot} {takes : Nat} {c : Crew Slot (Point ρ) (Client ρ)}
  {past : List (Nat × Deed)} {i : Nat}
  {s' : Slot} {w w' : Worker ρ} {d : Option Deed}

/-- A slot that is shut stays shut. -/
theorem Shut.set (h : Shut c) (turns : Turns c.shared w s' w' d) :
    Shut ⟨s', c.threads.set i w'⟩ := by
  obtain ⟨marked, still⟩ := h
  refine ⟨by simp [turns.isTaken_eq, marked], fun u mem => ?_⟩
  rcases List.mem_or_eq_of_mem_set mem with other | rfl
  · exact still u other
  · refine Bool.eq_false_iff.mpr fun looking => ?_
    rw [turns.there looking] at marked
    cases marked

namespace Agreed

theorem set (h : Agreed start takes c past) (here : c.threads[i]? = some w)
    (turns : Turns c.shared w s' w' d) :
    Agreed start takes ⟨s', c.threads.set i w'⟩ (past ++ d.toList.map (i, ·)) := by
  have of_mem {u : Worker ρ} (mem : u ∈ c.threads.set i w') : u ∈ c.threads ∨ u = w' :=
    List.mem_or_eq_of_mem_set mem
  have mem := List.mem_of_getElem? here
  have works : ∀ u ∈ c.threads.set i w', Worker.Works u := fun u mem =>
    (of_mem mem).elim (h.works u) fun new => new ▸ turns.works
  have registered := countP_set_add here Worker.isRegistered w'
  have few : (c.threads.set i w').countP Worker.reads < 2 ^ 62 := by
    have reads := countP_set_add here Worker.reads w'
    have less : (Worker.reads w').toNat ≤ (Worker.reads w).toNat :=
      Bool.toNat_le_toNat turns.reads
    have := h.few
    omega
  have enough : (c.threads.set i w').countP Worker.isRegistered < 2 ^ 62 :=
    Nat.lt_of_le_of_lt (List.countP_mono_left fun u mem => (works u mem).reads) few
  have readers := h.readers_eq
  refine ⟨works, few, ?_, ?_, ?_, fun u mem waiting => ?_, fun u mem taken => ?_, ?_⟩
  · rw [turns.isWritten_eq, h.isWritten_eq]
    cases d <;> simp [Bool.or_assoc]
  · rw [turns.isTaken_eq, h.isTaken_eq]
    cases d <;> simp
  · have := turns.readers_eq (by omega) (by omega)
    show s'.readers = (c.threads.set i w').countP Worker.isRegistered
    omega
  · rcases of_mem mem with old | rfl
    · have := h.waiting u old waiting
      simp [turns.isTaken_eq, this]
    · exact turns.waiting waiting
  · rcases of_mem mem with other | rfl
    · exact (h.shut u other taken).set turns
    · rcases turns.taken taken with before | ⟨ended, marked, free⟩
      · exact (h.shut w (List.mem_of_getElem? here) before).set turns
      · refine ⟨marked, fun x mem => ?_⟩
        rcases of_mem mem with other | rfl
        · have none := List.countP_eq_zero.mp (readers.symm.trans free) x other
          exact Worker.isLooking_eq_false (Bool.eq_false_iff.mpr none)
        · simp [Worker.isLooking, ended]
  · have sum := sum_map_set here Worker.marks w'
    have one := turns.marks
    have before := h.marks
    have kept : (d.toList.map (i, ·)).map (·.2) = d.toList := by cases d <;> rfl
    rw [List.map_append, kept, List.count_append]
    show ((c.threads.set i w').map Worker.marks).sum + _ = _
    omega

/-- What holds after a turn of a thread on the slot. -/
theorem turn_cases {P : Crew Slot (Point ρ) (Client ρ) → List (Nat × Deed) → Prop}
    (h : Agreed start takes c past) (before : P c past)
    (after : ∀ w s' w' d, c.threads[i]? = some w → Turns c.shared w s' w' d →
      P ⟨s', c.threads.set i w'⟩ (past ++ d.toList.map (i, ·))) :
    P (c.turn machine Client.program i)
      (past ++ (c.deed Client.program observer i).toList.map (i, ·)) := by
  refine Crew.turn_cases past before
    (fun client op here next => after _ _ _ _ here (.begun c.shared next))
    fun point client here => ?_
  have mem := List.mem_of_getElem? here
  exact after _ _ _ _ here (.stepped (h.works _ mem) (h.waiting _ mem))

theorem turn (h : Agreed start takes c past) (i : Nat) :
    Agreed start takes (c.turn machine Client.program i)
      (past ++ (c.deed Client.program observer i).toList.map (i, ·)) :=
  h.turn_cases h fun _ _ _ _ => h.set

theorem follow (h : Agreed start takes c past) (schedule : List Nat) :
    Agreed start takes (c.follow machine Client.program schedule)
      (past ++ c.history machine Client.program observer schedule) :=
  Crew.follow_invariant (P := Agreed start takes) (fun _ _ i h => h.turn i) schedule h

theorem follow_shut (h : Agreed start takes c past) (shut : Shut c) (schedule : List Nat) :
    Shut (c.follow machine Client.program schedule) :=
  (Crew.follow_invariant (P := fun c past => Agreed start takes c past ∧ Shut c)
    (fun _ _ i h => ⟨h.1.turn i, h.1.turn_cases (P := fun c _ => Shut c) h.2
      fun _ _ _ _ _ => h.2.set⟩) schedule ⟨h, shut⟩).2

theorem idle {start : Slot} (fresh : start.isTaken = false ∧ start.readers = 0)
    (scripts : List (List (Operation ρ))) (few : scripts.countP (·.any Operation.isRead) < 2 ^ 62) :
    Agreed start (scripts.map (·.countP Operation.isTake)).sum
      (Crew.idle start (scripts.map (⟨·, []⟩))) [] := by
  have resting {w : Worker ρ} (mem : w ∈ (Crew.idle start (scripts.map (⟨·, []⟩))).threads) :
      ∃ script, w = ⟨none, ⟨script, []⟩⟩ := by
    obtain ⟨client, from_script, rfl⟩ := List.mem_map.mp mem
    obtain ⟨script, -, rfl⟩ := List.mem_map.mp from_script
    exact ⟨script, rfl⟩
  refine ⟨fun w mem => ?_, ?_, ?_, fresh.1, ?_, fun w mem waiting => ?_, fun w mem taken => ?_, ?_⟩
  · obtain ⟨script, rfl⟩ := resting mem
    exact nofun
  · simpa [Crew.idle, List.countP_map, Function.comp_def, Worker.reads] using few
  · exact (Bool.or_false _).symm
  · refine fresh.2.trans (List.countP_eq_zero.mpr fun w mem => ?_).symm
    obtain ⟨script, rfl⟩ := resting mem
    exact nofun
  · obtain ⟨script, rfl⟩ := resting mem
    cases waiting
  · obtain ⟨script, rfl⟩ := resting mem
    cases taken
  · simp [Crew.idle, Function.comp_def, Worker.marks, Worker.isWaiting]

end Agreed

/-- Let any threads write, await, read and take one slot, of which fewer read than the count has
room for, and interleave their steps by any schedule. The word decodes to the flags that have been
raised and to the number of readers that have arrived and not left, which is nobody once no thread
is reading, however the closures ended. Once a take has returned, no closure runs, now or ever. A
reader that arrives after the slot was marked as taken leaves with nothing and does not run its
closure. A thread that marks the slot finds it unmarked, unless there are several takes. -/
theorem handshake_excludes_readers {start : Slot} (fresh : start = .empty ∨ start = .written)
    (scripts : List (List (Operation ρ))) (few : scripts.countP (·.any Operation.isRead) < 2 ^ 62)
    (schedule : List Nat) :
    let crew : Crew Slot (Point ρ) (Client ρ) := Crew.idle start (scripts.map (⟨·, []⟩))
    let c := crew.follow machine Client.program schedule
    let past := crew.history machine Client.program observer schedule
    let written := start.isWritten || past.any (·.2 = .wrote)
    let taken := past.any (·.2 = .marked)
    let registered := c.threads.countP Worker.isRegistered
    c.shared.word.toNat = 4 * registered + 2 * taken.toNat + written.toNat ∧
      c.shared.isWritten = written ∧ c.shared.isTaken = taken ∧ c.shared.readers = registered ∧
      ((∀ w ∈ c.threads, ∀ look point, w.point ≠ some (.reading look point)) →
        c.shared.readers = 0) ∧
      (∀ w ∈ c.threads, Worker.HasTaken w → ∀ later,
        ∀ u ∈ (c.follow machine Client.program later).threads, Worker.isLooking u = false) ∧
      (∀ t look client, taken = true →
        c.threads[t]? = some ⟨some (.reading look .arriving), client⟩ → ∀ later, t ∉ later →
        let c' := (c.turn machine Client.program t).follow machine Client.program later
        c'.threads[t]? = some ⟨some (.reading look (.leaving (.ok none))), client⟩ ∧
          (c'.turn machine Client.program t).threads[t]? =
            some ⟨none, ⟨client.operations.tail, client.outcomes ++ [.ok (.seen none)]⟩⟩) ∧
      ((scripts.map (·.countP Operation.isTake)).sum ≤ 1 →
        ∀ w ∈ c.threads, w.point = some (.taking .marking) → c.shared.isTaken = false) := by
  intro crew c past written taken registered
  have unread : start.isTaken = false ∧ start.readers = 0 := by
    rcases fresh with rfl | rfl <;> exact ⟨by decide, by decide⟩
  have agreed : Agreed start _ c past := (Agreed.idle unread scripts few).follow schedule
  refine ⟨?_, agreed.isWritten_eq, agreed.isTaken_eq, agreed.readers_eq, fun gone => ?_,
    fun w mem hasTaken later => ?_, fun t look client marked here later absent => ?_,
    fun once w mem marking => ?_⟩
  · rw [toNat_word, agreed.readers_eq, agreed.isTaken_eq, agreed.isWritten_eq]
  · refine agreed.readers_eq.trans (List.countP_eq_zero.mpr fun w mem counted => ?_)
    obtain ⟨look, point, here⟩ := Worker.exists_reading counted
    exact gone w mem look point here
  · exact (agreed.follow_shut (agreed.shut w mem hasTaken) later).2
  · have steps : (c.turn machine Client.program t).threads[t]? =
        some ⟨some (.reading look (.leaving (.ok none))), client⟩ := by
      obtain ⟨inside, -⟩ := List.getElem?_eq_some_iff.mp here
      have marked : c.shared.isTaken = true := agreed.isTaken_eq.trans marked
      rw [Crew.turn_of_busy here, List.getElem?_set_self inside]
      simp [machine, Point.step, Reading.step, marked, Program.after]
    intro c'
    have here' : c'.threads[t]? = some ⟨some (.reading look (.leaving (.ok none))), client⟩ :=
      (Crew.getElem?_follow_of_not_mem absent).trans steps
    obtain ⟨inside, -⟩ := List.getElem?_eq_some_iff.mp here'
    refine ⟨here', ?_⟩
    rw [Crew.turn_of_busy here', List.getElem?_set_self inside]
    rfl
  · obtain ⟨rest, operations⟩ := List.head?_eq_some_iff.mp (agreed.works w mem _ marking)
    have one : 0 < Worker.marks w := by
      simp [Worker.marks, Worker.isWaiting, marking, Point.isWaiting, operations, Point.operation,
        Operation.isTake, List.countP_cons]
    have sum : Worker.marks w ≤ (c.threads.map Worker.marks).sum :=
      List.le_sum_of_mem (List.mem_map_of_mem mem)
    have all := agreed.marks
    have none : (past.map (·.2)).count .marked = 0 := by omega
    have unmarked : Deed.marked ∉ past.map (·.2) := List.count_eq_zero.mp none
    rw [agreed.isTaken_eq, List.any_eq_false]
    exact fun x mem same => unmarked (List.mem_map.mpr ⟨x, mem, by simpa using same⟩)

/-- A taker waits for a reader whose closure fails and for one that came too late. -/
theorem handshake_excludes_readers_late :
    let scripts : List (List (Operation Nat)) :=
      [[.read (.error (.raised "no copy"))], [.take], [.read (.ok 7)]]
    let crew : Crew Slot (Point Nat) (Client Nat) := Crew.idle .written (scripts.map (⟨·, []⟩))
    let waiting := crew.follow machine Client.program [0, 0, 1, 1, 2, 2]
    let ended := waiting.follow machine Client.program [0, 0, 1, 2, 1]
    scripts.countP (·.any Operation.isRead) < 2 ^ 62 ∧ waiting.shared.word.toNat = 4 * 2 + 2 + 1 ∧
      ended.shared.word.toNat = 2 + 1 ∧
      ∀ later, ∀ u ∈ (ended.follow machine Client.program later).threads,
        Worker.isLooking u = false := by
  intro scripts crew waiting ended
  have few : scripts.countP (·.any Operation.isRead) < 2 ^ 62 := by decide
  obtain ⟨word, -⟩ := handshake_excludes_readers (.inr rfl) scripts few [0, 0, 1, 1, 2, 2]
  obtain ⟨word', -, -, -, -, excluded, -⟩ :=
    handshake_excludes_readers (.inr rfl) scripts few ([0, 0, 1, 1, 2, 2] ++ [0, 0, 1, 2, 1])
  rw [Crew.follow_append] at word' excluded
  have taken : ended.threads[1]? = some ⟨none, ⟨[], [.ok .taken]⟩⟩ := by rfl
  exact ⟨few, word.trans (by decide +kernel), word'.trans (by decide +kernel),
    excluded _ (List.mem_of_getElem? taken) (.head _)⟩

end SharedCollections.Slot

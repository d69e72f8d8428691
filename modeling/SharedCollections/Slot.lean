import SharedCollections.Step
/-!
# Slots

A slot is the word through which the one thread that moves a value out of shared memory and the
readers that copy it in place agree. It packs two flags and a count: the value has been written, the
value has been taken, and how many readers are looking at it. A reader arrives first and only then
looks whether the value is still there; the taker sets its flag first and only then waits for the
readers to leave.
-/

namespace SharedCollections

structure Slot where
  word : UInt64
deriving DecidableEq, Repr

namespace Slot

def writtenFlag : UInt64 := 1
def takenFlag : UInt64 := 2
def reader : UInt64 := 4

/-- A slot that has been reserved but holds no value yet. -/
def empty : Slot := ⟨0⟩

/-- A slot whose value is there before anybody else can see the slot. -/
def written : Slot := ⟨writtenFlag⟩

def isWritten (s : Slot) : Bool := s.word &&& writtenFlag != 0

def isTaken (s : Slot) : Bool := s.word &&& takenFlag != 0

/-- How many readers have arrived and not left. -/
def readers (s : Slot) : Nat := s.word.toNat / reader.toNat

def isRead (s : Slot) : Bool := reader ≤ s.word

def markWritten (s : Slot) : Slot := ⟨s.word ||| writtenFlag⟩

def markTaken (s : Slot) : Slot := ⟨s.word ||| takenFlag⟩

def arrive (s : Slot) : Slot := ⟨s.word + reader⟩

def leave (s : Slot) : Slot := ⟨s.word - reader⟩

/-! ## The reader -/

/-- Where a reader stands. -/
inductive Reading (ρ : Type) where
  | arriving
  | looking
  | leaving (seen : Except Fault (Option ρ))
deriving Repr

/-- One step of a reader whose look at the value gives `look`. A reader that arrives after the value
was taken leaves without a look, and one whose look fails leaves all the same. -/
def Reading.step {ρ : Type} (look : Except Fault ρ) :
    Reading ρ → Slot → Progress (Reading ρ) (Option ρ) × Slot
  | arriving, s => (.next (if s.isTaken then leaving (.ok none) else looking), s.arrive)
  | looking, s => (.next (leaving (look.map some)), s)
  | leaving (.ok seen), s => (.done seen, s.leave)
  | leaving (.error f), s => (.fail f, s.leave)

/-! ## The taker -/

/-- Where the taker stands. -/
inductive Taking where
  | marking
  | waiting
deriving DecidableEq, Repr

/-- One step of the taker, which has the value to itself once it is done. -/
def Taking.step : Taking → Slot → Progress Taking Unit × Slot
  | marking, s => (if s.isRead then .next waiting else .done (), s.markTaken)
  | waiting, s => (if s.isRead then .next waiting else .done (), s)

/-! ## One thread alone -/

/-- Marks the value as taken. Alone, a taker meets no readers. -/
def take : Action Slot Unit := alone Taking.step 2 .marking

/-- One look of a thread that waits for the value to be written. -/
def awaitStep (_ : Unit) (s : Slot) : Progress Unit Unit × Slot :=
  (if s.isWritten then .done () else .next (), s)

/-- Waits for the value to be written. Alone, a thread never waits for a value that it has written
itself. -/
def awaitWritten : Action Slot Unit := alone awaitStep 1 ()

/-- Runs `look` while registered as a reader, unless the value has been taken. The registration ends
when `look` fails, too. -/
def readWith {ρ : Type} (look : Action Slot ρ) : Action Slot (Option ρ) := .mk fun s =>
  if s.isTaken then .ok none s.arrive.leave
  else match look.run s.arrive with
    | .ok seen t => .ok (some seen) t.leave
    | .error f t => .error f t.leave

/-- Reads within reads, `depth` of them after the first. -/
def readNested {ρ : Type} (look : Action Slot ρ) : (depth : Nat) → Action Slot (Option ρ)
  | 0 => readWith look
  | depth + 1 => do return (← readWith (readNested look depth)).join

theorem arrive_leave (s : Slot) : s.arrive.leave = s := by
  simp [arrive, leave]

end Slot

end SharedCollections

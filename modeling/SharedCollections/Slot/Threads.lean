import SharedCollections.Crew
import SharedCollections.Slot
/-!
# Threads on a slot

What several threads may do with one slot at a time: write its value, wait until it is written, look
at it and take it.
-/

namespace SharedCollections.Slot

variable {ρ : Type}

inductive Operation (ρ : Type) where
  | write
  | await
  /-- Runs a closure on the value, which gives `look`. -/
  | read (look : Except Fault ρ)
  | take
deriving Repr

inductive Outcome (ρ : Type) where
  | done
  | seen (v : Option ρ)
  | taken
deriving Repr

/-- Where a thread stands in an operation. -/
inductive Point (ρ : Type) where
  | writing
  | awaiting
  | reading (look : Except Fault ρ) (point : Reading ρ)
  | taking (point : Taking)
deriving Repr

def Operation.begin : Operation ρ → Point ρ
  | write => .writing
  | await => .awaiting
  | read look => .reading look .arriving
  | take => .taking .marking

def Point.step : Point ρ → Slot → Progress (Point ρ) (Outcome ρ) × Slot
  | writing, s => (.done .done, s.markWritten)
  | awaiting, s =>
    let (progress, s) := awaitStep () s
    (progress.lift (fun () => awaiting) fun () => .done .done, s)
  | reading look point, s =>
    let (progress, s) := point.step look s
    (progress.lift (reading look) fun v => .done (.seen v), s)
  | taking point, s =>
    let (progress, s) := point.step s
    (progress.lift taking fun () => .done .taken, s)

def machine : Machine Slot (Operation ρ) (Point ρ) (Outcome ρ) := ⟨Operation.begin, Point.step⟩

/-- A client with what it is going to do and what has come of what it did. -/
structure Client (ρ : Type) where
  operations : List (Operation ρ)
  outcomes : List (Except Fault (Outcome ρ))
deriving Repr

def Client.program : Program (Operation ρ) (Outcome ρ) (Client ρ) where
  next? client := client.operations.head?
  record ended client := ⟨client.operations.tail, client.outcomes ++ [ended]⟩

end SharedCollections.Slot

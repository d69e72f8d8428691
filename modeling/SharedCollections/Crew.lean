import SharedCollections.Step
/-!
# Crews

A crew is any number of threads at work on one shared state. A thread is idle or at a point of an
operation; a schedule says whose turn it is, again and again. At its turn an idle thread starts the
operation that its program asks for, and any other thread takes one step.
-/

namespace SharedCollections

/-- The operations on a shared state, in steps. -/
structure Machine (σ ω π ρ : Type) where
  begin : ω → π
  step : π → σ → Progress π ρ × σ

/-- What a thread is up to. It decides by what it remembers, and remembers how its operations
ended. -/
structure Program (ω ρ μ : Type) where
  next? : μ → Option ω
  record : Except Fault ρ → μ → μ

structure Thread (π μ : Type) where
  point : Option π
  memory : μ

structure Crew (σ π μ : Type) where
  shared : σ
  threads : List (Thread π μ)

namespace Crew

variable {σ ω π ρ μ : Type}

/-- A crew of idle threads with the given memories. -/
def idle (shared : σ) (memories : List μ) : Crew σ π μ := ⟨shared, memories.map (⟨none, ·⟩)⟩

/-- Thread `i` takes its turn; an idle thread without anything to do lets it pass. -/
def turn (m : Machine σ ω π ρ) (p : Program ω ρ μ) (c : Crew σ π μ) (i : Nat) : Crew σ π μ :=
  match c with
  | ⟨s, threads⟩ =>
    match threads[i]? with
    | none => ⟨s, threads⟩
    | some ⟨none, memory⟩ =>
      match p.next? memory with
      | none => ⟨s, threads⟩
      | some op => ⟨s, threads.set i ⟨some (m.begin op), memory⟩⟩
    | some ⟨some point, memory⟩ =>
      match m.step point s with
      | (.next q, s) => ⟨s, threads.set i ⟨some q, memory⟩⟩
      | (.done r, s) => ⟨s, threads.set i ⟨none, p.record (.ok r) memory⟩⟩
      | (.fail f, s) => ⟨s, threads.set i ⟨none, p.record (.error f) memory⟩⟩

/-- Lets the threads take their turns as a schedule says. -/
def follow (m : Machine σ ω π ρ) (p : Program ω ρ μ) (schedule : List Nat) (c : Crew σ π μ) :
    Crew σ π μ :=
  schedule.foldl (turn m p) c

/-- Whether no thread has anything to do any more. -/
def isFinished (p : Program ω ρ μ) (c : Crew σ π μ) : Bool :=
  c.threads.all fun t => t.point.isNone && (p.next? t.memory).isNone

/-- Lets all threads take turns in a circle, for at most `bound` rounds. -/
def finish (m : Machine σ ω π ρ) (p : Program ω ρ μ) : (bound : Nat) → Crew σ π μ → Crew σ π μ
  | 0, c => c
  | bound + 1, c =>
    if c.isFinished p then c
    else finish m p bound (c.follow m p (List.range c.threads.length))

def memories (c : Crew σ π μ) : List μ := c.threads.map (·.memory)

@[simp] theorem length_turn (m : Machine σ ω π ρ) (p : Program ω ρ μ) (c : Crew σ π μ) (i : Nat) :
    (c.turn m p i).threads.length = c.threads.length := by
  unfold turn; grind

end Crew

end SharedCollections

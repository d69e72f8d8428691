import SharedCollections.Outline.Basic
import SharedCollections.Word
/-!
# Backoff

How long to wait after a lost race. A `Backoff` counts spins and gives up the processor after ten of
them, or at once on a machine with a single hardware thread. A `Contention` makes several rounds of
spins per wait and doubles them until the spins would give up the processor; from then on the rounds
are drawn at random.
-/

namespace SharedCollections

structure Backoff where
  spins : Nat
  singleCore : Bool
deriving DecidableEq, Repr

namespace Backoff

/-- Spins after which the processor is given up. -/
def yieldThreshold : Nat := 10

/-- Spins are counted in half a word. -/
def spinLimit : Nat := 0xFFFFFFFF

def ofParallelism (parallelism : Nat) : Backoff := ⟨0, parallelism ≤ 1⟩

/-- Whether the next spin gives up the processor. -/
def yielding (b : Backoff) : Bool := b.singleCore || yieldThreshold ≤ b.spins

def spin (b : Backoff) : Backoff := { b with spins := min (b.spins + 1) spinLimit }

/-- Spins `n` times. -/
def spinMany (n : Nat) (b : Backoff) : Backoff := { b with spins := min (b.spins + n) spinLimit }

def reset (b : Backoff) : Backoff := { b with spins := 0 }

def outline (b : Backoff) : Outline :=
  .record "Backoff" [.field "step" (.nat b.spins), .field "single_core" (.bool b.singleCore)]

@[simp] theorem spinMany_zero (b : Backoff) (h : b.spins ≤ spinLimit) : b.spinMany 0 = b := by
  simp [spinMany, Nat.min_eq_left h]

theorem spinMany_succ (n : Nat) (b : Backoff) : b.spinMany (n + 1) = (b.spinMany n).spin := by
  simp only [spinMany, spin]; congr 1; omega

end Backoff

/-- How many rounds of spins the next wait makes. -/
inductive Rounds where
  | exactly (n : Nat)
  /-- Drawn at random from `1` to `Contention.randomRounds - 1`. -/
  | drawn
deriving DecidableEq, Repr

structure Contention where
  backoff : Backoff
  rounds : Rounds
deriving DecidableEq, Repr

namespace Contention

/-- Random rounds stay below this. -/
def randomRounds : Nat := 8

def ofBackoff (b : Backoff) : Contention := ⟨b, .exactly 1⟩

def yielding (c : Contention) : Bool := c.backoff.yielding

/-- The backoff after one wait. Once it gives up the processor it always does, so drawn rounds leave
nothing else to know than that one more was made. -/
def wait (c : Contention) : Contention :=
  match c.rounds with
  | .exactly n =>
    let backoff := c.backoff.spinMany n
    ⟨backoff, if backoff.yielding then .drawn else .exactly (min (n * 2) Backoff.spinLimit)⟩
  | .drawn => ⟨c.backoff.spin, .drawn⟩

/-- The backoff after each of `n` waits, the first of them being `c` itself. -/
def waits : Nat → Contention → List Contention
  | 0, c => [c]
  | n + 1, c => c :: waits n c.wait

end Contention

end SharedCollections

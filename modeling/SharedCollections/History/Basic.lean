/-!
# Histories

A history holds the calls that each thread made on a shared object, with what came back, and the
time at which each call was made and returned. Times are readings of one clock, which never reads
the same twice.
-/

namespace SharedCollections.History

structure Clock where
  now : Nat
deriving DecidableEq, Repr

namespace Clock

def start : Clock := ⟨0⟩

def tick (c : Clock) : Nat × Clock := (c.now, ⟨c.now + 1⟩)

/-- The next `n` readings. -/
def ticks : (n : Nat) → Clock → List Nat × Clock
  | 0, c => ([], c)
  | n + 1, c =>
    let (t, c) := c.tick
    let (ts, c) := ticks n c
    (t :: ts, c)

theorem ticks_fst (n : Nat) (c : Clock) : (ticks n c).1 = List.range' c.now n := by
  induction n generalizing c with
  | zero => rfl
  | succ n ih => simp [ticks, tick, ih, List.range'_succ]

end Clock

/-- A call that came back. -/
structure Stamped (ω ρ : Type) where
  thread : Nat
  call : ω
  reply : ρ
  invoked : Nat
  returned : Nat
deriving DecidableEq, Repr

/-- Whether `a` came back before `b` was made. -/
def Stamped.precedes {ω ρ : Type} (a b : Stamped ω ρ) : Bool := a.returned < b.invoked

/-- The calls of one thread in the order in which it made them. -/
abbrev Log (ω ρ : Type) := List (Stamped ω ρ)

/-- The object used by one thread alone: the state after a call, and what comes back. -/
abbrev Model (μ ω ρ : Type) := μ → ω → μ × ρ

end SharedCollections.History

import SharedCollections.Map.Policy
import SharedCollections.Misuse
/-!
# Map configurations

How a map starts out: the size of its first table, the number of its locks, and how it grows.
-/

namespace SharedCollections.Map

/-- The bucket count of a map without an explicit capacity, and of one that was just cleared. -/
def defaultCapacity : Nat := 31

/-- The number of locks that suits a machine with `parallelism` hardware threads. -/
def defaultLocks (parallelism : Nat) : Nat := Word.satMul 4 (max parallelism 1)

structure Config where
  capacity : Nat
  /-- The number of locks of the first table. -/
  locks : Nat
  growLocks : Bool
  policy : Policy
  hasSink : Bool
deriving DecidableEq, Repr

namespace Config

/-- The configuration of a map on a machine with `parallelism` hardware threads. -/
def ofParallelism (parallelism : Nat) : Config :=
  ⟨defaultCapacity, defaultLocks parallelism, true, .default, false⟩

variable (c : Config)

def check : Except Misuse Unit :=
  if c.locks = 0 then .error .invalidConcurrencyLevel else .ok ()

/-- The bucket count of the first table: no lock goes without a bucket. -/
def initialBuckets : Nat := max c.capacity c.locks

def initialBudget : Nat := max (c.initialBuckets / c.locks) 1

def outline : Outline :=
  .record "MapConfig"
    [.field "capacity" (.nat c.capacity), .field "concurrency_level" (.nat c.locks),
      .field "grow_lock_array" (.bool c.growLocks), .field "resize" c.policy.outline,
      .field "telemetry" (.bool c.hasSink)]

theorem check_eq_ok : c.check = .ok () ↔ 1 ≤ c.locks := by
  unfold check; split <;> simp <;> omega

end Config

end SharedCollections.Map

import SharedCollections.Map.Basic
/-!
# Locking

A mutation locks the stripe of its key. The table may be replaced while a thread waits for the lock;
the key may then belong to a lock that the thread does not hold, so it looks again. Whole-map
operations take all locks in ascending order, the first one before they look which table is current,
because tables are only replaced under that lock.
-/

namespace SharedCollections.Map

variable {κ ν : Type}

/-- Where a key belongs in the table of a generation. -/
structure Target where
  generation : Nat
  hash : UInt64
  bucket : Nat
  stripe : Nat
deriving DecidableEq, Repr

def target (k : κ) (m : Map κ ν) : Target :=
  let hash := m.hashOf k
  let bucket := m.table.bucketOf hash
  ⟨m.generation, hash, bucket, m.table.stripeOf bucket⟩

/-- Where a thread that locks the stripe of a key stands. -/
inductive Locking where
  | aiming
  | acquiring (t : Target)
deriving DecidableEq, Repr

def Locking.step (k : κ) : Locking → Map κ ν → Progress Locking Target × Map κ ν
  | aiming, m => (.next (acquiring (m.target k)), m)
  | acquiring t, m =>
    let m := m.emit (.locked t.stripe)
    if t.generation = m.generation then (.done t, m)
    else (.next aiming, (m.emit (.unlocked t.stripe)).emit (.retried .mapStaleTable))

/-- Locks the stripe of `k` in the current table. -/
def lockKey (k : κ) : Action (Map κ ν) Target := alone (Locking.step k) 2 .aiming

def record (e : Event) : Action (Map κ ν) Unit := modify (·.emit e)

def unlock (stripe : Nat) : Action (Map κ ν) Unit := record (.unlocked stripe)

/-- Emits an event for each of the stripes from `first` to `last - 1`. -/
def recordEach (event : Nat → Event) (first last : Nat) : Action (Map κ ν) Unit :=
  modify fun m =>
    { m with trace := (List.range' first (last - first)).foldl (·.push <| event ·) m.trace }

def lockCount (m : Map κ ν) : Nat := m.table.locks.size

/-- Runs `a`, which does not fail, with every stripe locked. -/
def exclusively {α : Type} (a : Action (Map κ ν) α) : Action (Map κ ν) α := do
  record (.locked 0)
  let n := (← get).lockCount
  recordEach .locked 1 n
  let x ← a
  recordEach .unlocked 0 n
  return x

end SharedCollections.Map

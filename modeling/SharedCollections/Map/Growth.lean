import SharedCollections.Map.Stripe
/-!
# Growth

An insert that finds its stripe over budget, or its chain too long, asks for growth once it has
given its own lock back; by then another thread may have seen to it. A call for growth that is too
late does nothing. One that finds the table sparse doubles the budget instead. A long chain asks
for new hashes as well, with a salt; whoever regenerates them counts it, and a request that was
made before is out of date.
-/

namespace SharedCollections.Map

variable {κ ν : Type}

/-- What an insert saw when it asked for growth: the table, and the count of rehashes if its chain
was too long. -/
structure Request where
  generation : Nat
  rehash : Option Nat
deriving DecidableEq, Repr

/-- What a request comes to once the first lock is held. -/
inductive Verdict where
  /-- The table the request was made for is gone. -/
  | late
  /-- The table has few entries for its size. -/
  | sparse
  | grow (regenerate : Bool)
deriving DecidableEq, Repr

def judge (r : Request) (m : Map κ ν) : Verdict :=
  if r.rehash = some m.rehashes then .grow true
  else if m.generation ≠ r.generation then .late
  else if m.policy.isSparse m.table.total m.table.buckets.size then .sparse
  else .grow false

/-- The size of the next table, and whether it is capped. A table never gets smaller by growing. -/
def grownLen (m : Map κ ν) : Nat × Bool :=
  let (n, capped) := m.policy.nextBuckets m.table.buckets.size
  (if capped then max n m.table.buckets.size else n, capped)

/-- The salt of the table that follows. -/
def grownSalt (regenerate : Bool) (m : Map κ ν) : Option UInt64 :=
  if regenerate then some (m.salts m.rehashes) else m.table.salt

/-- The hash of an entry in the table that follows. -/
def grownHash (regenerate : Bool) (m : Map κ ν) (e : Entry κ ν) : UInt64 :=
  if regenerate then m.hasher.hash (m.grownSalt regenerate) e.key else e.hash

/-- The locks of the table that follows, and the number of the next new lock. -/
def grownLocks (m : Map κ ν) : Array Nat × Nat :=
  extendLocks m.table.locks (m.policy.nextLocks m.lockCount m.growLocks) m.nextLock

/-- The table that follows, still empty. -/
def freshTable (regenerate : Bool) (m : Map κ ν) : Table κ ν :=
  .empty m.grownLen.1 m.grownLocks.1 (m.grownSalt regenerate)

/-- The budget after growing. A capped table never asks for growth again. -/
def grownBudget (m : Map κ ν) : Nat :=
  if m.grownLen.2 then Word.top else max (m.grownLen.1 / m.grownLocks.1.size) 1

/-- The map after growing, with new hashes if `regenerate` is set. A stripe with more entries than a
word can count is a fault. -/
def grown (regenerate : Bool) (m : Map κ ν) : Except Fault (Map κ ν) := do
  let (table, nextEntry) ←
    m.table.copyTo (m.freshTable regenerate) (m.grownHash regenerate) m.nextEntry
  return { m.install table m.grownBudget with
    nextEntry
    nextLock := m.grownLocks.2
    rehashes := if regenerate then m.rehashes + 1 else m.rehashes }

/-- Doubles the budget. -/
def doubled (m : Map κ ν) : Map κ ν :=
  { m with budget := Word.satMul m.budget 2 }

/-- Replaces the table by a grown one. If that fails, the locks are given back and the table stays.
-/
def replaceTable (regenerate : Bool) : Action (Map κ ν) Unit := .mk fun m =>
  match m.grown regenerate with
  | .ok m => .ok () m
  | .error f => (do recordEach .unlocked 1 m.lockCount; unlock 0; throw f).run m

/-- Sees to a request for growth. -/
def grow (r : Request) : Action (Map κ ν) Unit := do
  record (.locked 0)
  match (← get).judge r with
  | .late => unlock 0
  | .sparse =>
    modify doubled
    record (.logged (.budgetDoubled (← get).budget (← get).table.total))
    unlock 0
  | .grow regenerate =>
    let n := (← get).lockCount
    recordEach .locked 1 n
    replaceTable regenerate
    let buckets := (← get).table.buckets.size
    let locks := (← get).lockCount
    record (.resized buckets locks)
    record (.logged (.tableResized buckets locks regenerate))
    recordEach .unlocked 1 n
    unlock 0

end SharedCollections.Map

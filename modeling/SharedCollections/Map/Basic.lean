import SharedCollections.Map.Config
import SharedCollections.Map.Hasher
import SharedCollections.Map.Table
import SharedCollections.Trace
/-!
# Maps

A map is a current table and what it has been through. Earlier tables are kept, because a cursor
that was opened on one goes on walking it; the number of earlier tables names the current one, which
is how a thread tells that the table was replaced. For the same reason an entry that is unlinked
leaves behind the link it had.
-/

namespace SharedCollections

open Map (Entry Table Hasher Policy Config)

/-- An entry that is no longer in its chain, and the one that followed it when it left. -/
structure Map.Unlinked (κ ν : Type) where
  id : Nat
  next : Option (Entry κ ν)

structure Map (κ ν : Type) where
  hasher : Hasher κ
  policy : Policy
  growLocks : Bool
  table : Table κ ν
  /-- The earlier tables, oldest first. -/
  retired : Array (Table κ ν)
  /-- A stripe may hold this many entries before the table is asked to grow. -/
  budget : Nat
  /-- How often the hashes were regenerated because of collisions. -/
  rehashes : Nat
  /-- The salts to be drawn, by the number of rehashes before. -/
  salts : Nat → UInt64
  nextEntry : Nat
  nextLock : Nat
  unlinked : List (Map.Unlinked κ ν)
  trace : Trace

namespace Map

variable {κ ν : Type}

/-- An empty map. The configuration has been checked. -/
def ofConfig (c : Config) (hasher : Hasher κ) (salts : Nat → UInt64) : Map κ ν :=
  let (locks, nextLock) := extendLocks #[] c.locks 0
  { hasher, salts
    policy := c.policy
    growLocks := c.growLocks
    table := .empty c.initialBuckets locks none
    retired := #[]
    budget := c.initialBudget
    rehashes := 0
    nextEntry := 0
    nextLock
    unlinked := []
    trace := #[] }

def ofConfig? (c : Config) (hasher : Hasher κ) (salts : Nat → UInt64) :
    Except Misuse (Map κ ν) := do
  c.check
  return ofConfig c hasher salts

variable (m : Map κ ν)

/-- The number of the current table. -/
def generation : Nat := m.retired.size

/-- The table with the given number. -/
def tableAt (g : Nat) : Table κ ν := m.retired.getD g m.table

def emit (e : Event) : Map κ ν := { m with trace := m.trace.push e }

def forgetTrace : Map κ ν := { m with trace := #[] }

/-- The hash of a key in the current table. -/
def hashOf (k : κ) : UInt64 := m.hasher.hash m.table.salt k

/-- The entries of the current table, in the order of its buckets and chains. -/
def entries : List (Entry κ ν) := m.table.entries

def pairs : List (κ × ν) := m.entries.map Entry.pair

/-- The entry of a key. A search reads the chain of the key's bucket and takes no lock. -/
def find? [DecidableEq κ] (k : κ) : Option (Entry κ ν) :=
  let hash := m.hashOf k
  (m.table.chain (m.table.bucketOf hash)).find? (Entry.isFor hash k)

/-- Replaces the current table. -/
def install (t : Table κ ν) (budget : Nat) : Map κ ν :=
  { m with table := t, retired := m.retired.push m.table, budget }

end Map

end SharedCollections

import SharedCollections.Exchange
import SharedCollections.Map.Cursor
import SharedCollections.Map.Update
/-!
# Whole-map operations

Counting, copying and clearing a map, with all of its stripes locked; and the map as an exchange,
which gives its entries back in the order of iteration.
-/

namespace SharedCollections.Map

variable {κ ν : Type}

def size : Action (Map κ ν) Nat := exclusively do return (← get).table.total

/-- Whether every stripe counts nothing. -/
def isEmpty : Action (Map κ ν) Bool := exclusively do
  return (← get).table.counts.all (· == 0)

def toList : Action (Map κ ν) (List (κ × ν)) := exclusively do return (← get).pairs

def keys : Action (Map κ ν) (List κ) := exclusively do return (← get).entries.map (·.key)

def values : Action (Map κ ν) (List ν) := exclusively do return (← get).entries.map (·.value)

/-- The map with an empty table of the default capacity. Locks and salt stay. -/
def cleared (m : Map κ ν) : Map κ ν :=
  m.install (.empty defaultCapacity m.table.locks m.table.salt)
    (max (defaultCapacity / m.lockCount) 1)

def clear : Action (Map κ ν) Unit := exclusively do
  modify cleared
  record (.logged (.mapCleared (← get).budget))

variable [DecidableEq κ]

/-- Inserts entries one after the other, a later one overwriting an earlier one of the same key. -/
def insertAll : List (κ × ν) → Action (Map κ ν) Unit
  | [] => pure ()
  | (k, v) :: entries => do insert k v; insertAll entries

/-- Tries to remove the entry that a new cursor gives first until it has removed one; gives up after
`bound` attempts. -/
def takeFirst : (bound : Nat) → Action (Map κ ν) (Option (κ × ν))
  | 0 => throw .stalled
  | bound + 1 => do
    let m ← get
    match (m.openCursor.next? m).1 with
    | none => return none
    | some (k, _) =>
      match ← erase? k with
      | some v => return some (k, v)
      | none => takeFirst bound

instance : Exchange (Map κ ν) (κ × ν) where
  offer := fun (k, v) => do
    return if ← insertIfNew k v then none else some (k, v)
  take? := takeFirst 1
  items := toList
  count := size

end SharedCollections.Map

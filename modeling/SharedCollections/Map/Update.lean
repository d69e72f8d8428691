import SharedCollections.Map.Growth
/-!
# Adding, replacing and removing entries

Each change of a single key is made with the stripe of the key locked. An entry is never changed
where it is: an update puts a new entry in its place in the chain, and a removal unlinks it. An
insert puts its entry at the head of the chain, and asks for growth after its lock is given back.
-/

namespace SharedCollections.Map

variable {κ ν : Type} [DecidableEq κ]

/-- Replaces the first entry that `p` accepts. -/
def replaceFirst (p : Entry κ ν → Bool) (new : Entry κ ν) :
    List (Entry κ ν) → List (Entry κ ν)
  | [] => []
  | e :: chain => if p e then new :: chain else e :: replaceFirst p new chain

/-- Puts a new entry at the head of the chain where it belongs. It is not counted yet. -/
def link (t : Target) (k : κ) (v : ν) (m : Map κ ν) : Map κ ν :=
  { m with
    table := m.table.modifyChain t.bucket (⟨m.nextEntry, k, v, t.hash⟩ :: ·)
    nextEntry := m.nextEntry + 1 }

/-- Takes `e` out of its chain, putting `new` in its place if there is one. -/
def unlink (t : Target) (e : Entry κ ν) (new : Option (Entry κ ν)) (m : Map κ ν) : Map κ ν :=
  let next := (follower? e.id (m.table.chain t.bucket)).join
  { m with
    table := m.table.modifyChain t.bucket fun chain =>
      match new with
      | some new => replaceFirst (·.id == e.id) new chain
      | none => chain.eraseP (·.id == e.id)
    unlinked := ⟨e.id, next⟩ :: m.unlinked }

/-- Puts an entry with a new value in the place of `e`. -/
def substitute (t : Target) (e : Entry κ ν) (k : κ) (v : ν) (m : Map κ ν) : Map κ ν :=
  { m.unlink t e (some ⟨m.nextEntry, k, v, t.hash⟩) with nextEntry := m.nextEntry + 1 }

/-- The chain of a target. -/
def chainOf (t : Target) : Action (Map κ ν) (List (Entry κ ν)) := do
  return (← get).table.chain t.bucket

/-- Counts a new entry in. If that fails, the lock is given back and the entry stays linked. -/
def countIn (stripe : Nat) : Action (Map κ ν) Nat := .mk fun m =>
  match m.table.increment? stripe with
  | .ok (n, table) => .ok n { m with table }
  | .error f => .error f (m.emit (.unlocked stripe))

/-- What an insert asks for after it made the count of its stripe `count` behind `passed` other
entries. -/
def requestFor (t : Target) (count passed : Nat) (m : Map κ ν) : Option Request :=
  let rehash :=
    if m.policy.collisionLimit < passed ∧ m.table.salt.isNone then some m.rehashes else none
  if m.budget < count ∨ rehash.isSome then some ⟨t.generation, rehash⟩ else none

/-- What an insert came to: whether it added an entry, and the value of the key afterwards. -/
structure Inserted (ν : Type) where
  added : Bool
  value : ν
deriving DecidableEq, Repr

/-- The part of an insert that holds the lock. A key that is present keeps its value unless
`replace` is set. -/
def insertLocked (k : κ) (v : ν) (replace : Bool) :
    Action (Map κ ν) (Inserted ν × Option Request) := do
  let t ← lockKey k
  let chain ← chainOf t
  match chain.find? (Entry.isFor t.hash k) with
  | some e =>
    if replace then modify (substitute t e k v)
    unlock t.stripe
    return (⟨false, if replace then v else e.value⟩, none)
  | none =>
    modify (link t k v)
    let count ← countIn t.stripe
    let request := (← get).requestFor t count chain.length
    unlock t.stripe
    return (⟨true, v⟩, request)

def insertOr (k : κ) (v : ν) (replace : Bool) : Action (Map κ ν) (Inserted ν) := do
  let (inserted, request) ← insertLocked k v replace
  if let some r := request then grow r
  return inserted

/-- Removes the entry of `k` if `accept` likes its value; gives the value removed. -/
def removeIf (k : κ) (accept : ν → Bool) : Action (Map κ ν) (Option ν) := do
  let t ← lockKey k
  let chain ← chainOf t
  match chain.find? (Entry.isFor t.hash k) with
  | none => unlock t.stripe; return none
  | some e =>
    if accept e.value then
      modify fun m =>
        let m := m.unlink t e none
        { m with table := m.table.decrement t.stripe }
      unlock t.stripe
      return some e.value
    else unlock t.stripe; return none

/-- Gives `k` the value `v` if `accept` likes the entry that is there; tells whether it did. -/
def replaceIf (k : κ) (v : ν) (accept : Entry κ ν → Bool) : Action (Map κ ν) Bool := do
  let t ← lockKey k
  let chain ← chainOf t
  match chain.find? (Entry.isFor t.hash k) with
  | none => unlock t.stripe; return false
  | some e =>
    if accept e then modify (substitute t e k v)
    unlock t.stripe
    return accept e

/-! ## Operations on one key -/

/-- Adds an entry unless the key is present; tells whether it did. -/
def insertIfNew (k : κ) (v : ν) : Action (Map κ ν) Bool := do
  return (← insertOr k v false).added

/-- Adds an entry for a key that must not be present. -/
def insertNew (k : κ) (v : ν) : Action (Map κ ν) (Except Misuse Unit) := do
  return if ← insertIfNew k v then .ok () else .error .duplicateKey

/-- Adds an entry, or replaces the value of a key that is present. -/
def insert (k : κ) (v : ν) : Action (Map κ ν) Unit := do
  let _ ← insertOr k v true

def get? (k : κ) (m : Map κ ν) : Option ν := (m.find? k).map (·.value)

/-- The value of a key that must be present. -/
def require (k : κ) (m : Map κ ν) : Except Misuse ν :=
  match m.get? k with
  | some v => .ok v
  | none => .error .keyNotFound

def contains (k : κ) (m : Map κ ν) : Bool := (m.find? k).isSome

def erase? (k : κ) : Action (Map κ ν) (Option ν) := removeIf k fun _ => true

def eraseIfEq [DecidableEq ν] (k : κ) (v : ν) : Action (Map κ ν) Bool := do
  return (← removeIf k (· == v)).isSome

/-- Sets the value of `k` to `v` if it is `expected`. -/
def replaceIfEq [DecidableEq ν] (k : κ) (v expected : ν) : Action (Map κ ν) Bool :=
  replaceIf k v (·.value == expected)

/-- The value of `k`, which is added first if the key is missing. -/
def getOrInsert (k : κ) (v : ν) : Action (Map κ ν) ν := do
  match (← get).find? k with
  | some e => return e.value
  | none => return (← insertOr k v false).value

end SharedCollections.Map

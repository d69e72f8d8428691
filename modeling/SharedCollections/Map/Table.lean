import SharedCollections.Step
import SharedCollections.Word
/-!
# Tables

A table is one generation of a map's storage: buckets, each with a chain of entries, newest first;
locks, each of which guards a stripe of the buckets; and a count of entries for every stripe. The
stripes of a table are its buckets modulo the number of locks.
-/

namespace SharedCollections.Map

/-- An entry of a chain. An update puts a new entry in the place of the old one, so entries are told
apart by `id`. -/
structure Entry (κ ν : Type) where
  id : Nat
  key : κ
  value : ν
  hash : UInt64
deriving DecidableEq, Repr

namespace Entry

variable {κ ν : Type}

def pair (e : Entry κ ν) : κ × ν := (e.key, e.value)

/-- Whether a search for `key` with the hash `hash` stops at `e`. -/
def isFor [DecidableEq κ] (hash : UInt64) (key : κ) (e : Entry κ ν) : Bool :=
  e.hash == hash && e.key == key

end Entry

/-- The entry that follows the one numbered `id` in a chain, and `none` if that one is not there. -/
def follower? {κ ν : Type} (id : Nat) (chain : List (Entry κ ν)) : Option (Option (Entry κ ν)) :=
  match chain.dropWhile (·.id ≠ id) with
  | [] => none
  | _ :: rest => some rest.head?

structure Table (κ ν : Type) where
  buckets : Array (List (Entry κ ν))
  /-- The locks, by the number under which they were made. -/
  locks : Array Nat
  counts : Array Nat
  salt : Option UInt64

namespace Table

variable {κ ν : Type}

def empty (buckets : Nat) (locks : Array Nat) (salt : Option UInt64) : Table κ ν :=
  ⟨Array.replicate buckets [], locks, Array.replicate locks.size 0, salt⟩

variable (t : Table κ ν)

def bucketOf (hash : UInt64) : Nat := hash.toNat % t.buckets.size

def stripeOf (bucket : Nat) : Nat := bucket % t.locks.size

def chain (bucket : Nat) : List (Entry κ ν) := t.buckets.getD bucket []

/-- All entries, by bucket and along the chains. -/
def entries : List (Entry κ ν) := t.buckets.toList.flatten

def count (stripe : Nat) : Nat := t.counts.getD stripe 0

/-- The number of entries modulo the word limit. -/
def total : Nat := Word.wrapSum t.counts.toList

def setCount (stripe n : Nat) : Table κ ν := { t with counts := t.counts.setIfInBounds stripe n }

/-- Counts an entry in; a count that stands at the largest word is a fault. -/
def increment? (stripe : Nat) : Except Fault (Nat × Table κ ν) :=
  match Word.add? (t.count stripe) 1 with
  | some n => .ok (n, t.setCount stripe n)
  | none => .error (.stripeOverflow stripe)

/-- Counts an entry out. -/
def decrement (stripe : Nat) : Table κ ν := t.setCount stripe (Word.wrapPred (t.count stripe))

def modifyChain (bucket : Nat) (f : List (Entry κ ν) → List (Entry κ ν)) : Table κ ν :=
  { t with buckets := t.buckets.modify bucket f }

/-- Puts an entry at the head of its chain and counts it in. -/
def add? (e : Entry κ ν) : Except Fault (Table κ ν) :=
  let bucket := t.bucketOf e.hash
  ((t.modifyChain bucket (e :: ·)).increment? (t.stripeOf bucket)).map (·.2)

/-- The table `into` with a copy of every entry of `t`, numbered from `first` on, under the hashes
that `hashOf` gives. Gives the next number, too. -/
def copyTo (into : Table κ ν) (hashOf : Entry κ ν → UInt64) (first : Nat) :
    Except Fault (Table κ ν × Nat) :=
  t.entries.foldlM (fun (into, id) e => do
    return (← into.add? { e with id := id, hash := hashOf e }, id + 1))
    (into, first)

end Table

/-- Adds new locks to `locks` until there are `len`, numbering them from `first` on. Gives the next
number, too. -/
def extendLocks (locks : Array Nat) (len first : Nat) : Array Nat × Nat :=
  (locks ++ (Array.range (len - locks.size)).map (first + ·), first + (len - locks.size))

theorem size_extendLocks (locks : Array Nat) (len first : Nat) :
    (extendLocks locks len first).1.size = max locks.size len := by
  simp [extendLocks]; omega

end SharedCollections.Map

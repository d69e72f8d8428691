import SharedCollections.Map.Basic
/-!
# Cursors

A cursor walks the table that was current when it was opened, without a lock. It enters a bucket
once it is done with the chain before, and sees the chain as it is at that moment. The entry it
stands on is given even if it has left its chain in the meantime, and the cursor then goes on with
the entry that followed it when it left.
-/

namespace SharedCollections.Map

variable {κ ν : Type}

structure Cursor (κ ν : Type) where
  /-- The table that is walked. -/
  generation : Nat
  /-- The first bucket that was not entered. -/
  bucket : Nat
  /-- The entry that comes next, if the chain that was entered last has one. -/
  held : Option (Entry κ ν)

def openCursor (m : Map κ ν) : Cursor κ ν := ⟨m.generation, 0, none⟩

/-- The entry to which the link of `e` leads, where `e` is or was in bucket `bucket` of table `g`.
-/
def follower (g bucket : Nat) (e : Entry κ ν) (m : Map κ ν) : Option (Entry κ ν) :=
  match follower? e.id ((m.tableAt g).chain bucket) with
  | some next => next
  | none => (m.unlinked.find? (·.id = e.id)).bind (·.next)

/-- The head of the first chain that is not empty, among the `room` buckets from `bucket` on, and
the bucket behind it. -/
def Table.seek (t : Table κ ν) : (room bucket : Nat) → Option (Entry κ ν) × Nat
  | 0, bucket => (none, bucket)
  | room + 1, bucket =>
    match t.chain bucket with
    | [] => seek t room (bucket + 1)
    | e :: _ => (some e, bucket + 1)

namespace Cursor

/-- The entry the cursor gives next, with the cursor standing on it. -/
def settle (m : Map κ ν) (c : Cursor κ ν) : Cursor κ ν :=
  match c.held with
  | some _ => c
  | none =>
    let t := m.tableAt c.generation
    let (held, bucket) := t.seek (t.buckets.size - c.bucket) c.bucket
    { c with held, bucket }

def next? (m : Map κ ν) (c : Cursor κ ν) : Option (κ × ν) × Cursor κ ν :=
  let c := c.settle m
  match c.held with
  | none => (none, c)
  | some e => (some e.pair, { c with held := m.follower c.generation (c.bucket - 1) e })

/-- The next `n` entries, or as many as there are. -/
def take (m : Map κ ν) : (n : Nat) → Cursor κ ν → List (κ × ν) × Cursor κ ν
  | 0, c => ([], c)
  | n + 1, c =>
    match c.next? m with
    | (none, c) => ([], c)
    | (some x, c) =>
      let (xs, c) := take m n c
      (x :: xs, c)

/-- How many entries a cursor can give at most on a map that stays as it is. -/
def bound (m : Map κ ν) (c : Cursor κ ν) : Nat :=
  (m.tableAt c.generation).entries.length + m.unlinked.length + 1

/-- All entries that are left on a map that stays as it is. -/
def rest (m : Map κ ν) (c : Cursor κ ν) : List (κ × ν) × Cursor κ ν := c.take m (c.bound m)

end Cursor

/-- A copy of the entries that takes no lock. -/
def iterate (m : Map κ ν) : List (κ × ν) := (m.openCursor.rest m).1

end SharedCollections.Map

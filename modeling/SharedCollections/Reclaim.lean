import SharedCollections.Outline.Basic
import SharedCollections.Word
/-!
# Reclamation

Records that have been unlinked from a collection are freed once nobody can be looking at them. A
guard that is pinned when a record is retired keeps it until the guard is unpinned; whatever is
still pending when the reclaimer itself goes away is freed then.

How many records have been freed is counted in a word, which wraps. The main statement is that
flushing loses no record: what has been freed once all is gone stays the same (`closed_flush`).
-/

namespace SharedCollections

/-- Records retired together, in numbers, and the guards that keep them. -/
structure Retired where
  count : Nat
  guards : List String
deriving DecidableEq, Repr

structure Reclaimer where
  /-- The names of the pinned guards. -/
  pinned : List String
  pending : List Retired
  /-- How many records have been freed, modulo `Word.limit`. -/
  freed : Nat
deriving DecidableEq, Repr

namespace Reclaimer

def empty : Reclaimer := ⟨[], [], 0⟩

def isPinned (name : String) (r : Reclaimer) : Bool := r.pinned.contains name

def pin (name : String) (r : Reclaimer) : Reclaimer :=
  { r with pinned := name :: r.pinned.filter (· ≠ name) }

def unpin (name : String) (r : Reclaimer) : Reclaimer :=
  { r with
    pinned := r.pinned.filter (· ≠ name)
    pending := r.pending.map fun x => { x with guards := x.guards.filter (· ≠ name) } }

/-- Retires `n` records. -/
def retire (n : Nat) (r : Reclaimer) : Reclaimer :=
  { r with pending := ⟨n, r.pinned⟩ :: r.pending }

/-- How many records there are in all, modulo `Word.limit`. -/
def total : List Retired → Nat
  | [] => 0
  | x :: xs => Word.wrapAdd x.count (total xs)

/-- Frees what no guard keeps. -/
def flush (r : Reclaimer) : Reclaimer :=
  { r with
    pending := r.pending.filter (!·.guards.isEmpty)
    freed := Word.wrapAdd r.freed (total (r.pending.filter (·.guards.isEmpty))) }

/-- How many records have been freed once the guards and the reclaimer are gone. -/
def closed (r : Reclaimer) : Nat := Word.wrapAdd r.freed (total r.pending)

/-- A reclaimer shows nothing of itself. -/
def outline : Outline := .atom "EpochManager \x7b .. \x7d"

@[simp] theorem closed_empty : empty.closed = 0 := rfl

theorem closed_retire (n : Nat) (r : Reclaimer) :
    (r.retire n).closed = Word.wrapAdd r.closed n := by
  simp only [closed, retire, total, Word.wrapAdd, Word.limit]; omega

theorem total_filter (p : Retired → Bool) (xs : List Retired) :
    Word.wrapAdd (total (xs.filter p)) (total (xs.filter (!p ·))) = total xs := by
  induction xs with
  | nil => rfl
  | cons x xs ih =>
    by_cases hx : p x <;> simp [total, hx, Word.wrapAdd, Word.limit] at ih ⊢ <;> omega

theorem closed_flush (r : Reclaimer) : r.flush.closed = r.closed := by
  have := total_filter (·.guards.isEmpty) r.pending
  simp only [closed, flush, Word.wrapAdd, Word.limit] at this ⊢; omega

end Reclaimer

end SharedCollections

import SharedCollections.Outline.Basic
import SharedCollections.Word
/-!
# Resize policies

When a map's table grows, and to what size. A table grows to the next odd number of buckets past
twice its size that no avoided divisor divides, until that would pass the policy's bound; from then
on it is capped.
-/

namespace SharedCollections.Map

structure Policy where
  /-- A table with fewer entries than its buckets divided by this is too empty to grow. -/
  sparseDivisor : Nat
  /-- Bucket counts that one of these divides are avoided; zero and one divide nothing here. -/
  avoided : List Nat
  maxBuckets : Nat
  /-- From this many locks on, the number of locks stays. -/
  maxLocks : Nat
  /-- A key that is added behind more than this many others asks for new hashes. -/
  collisionLimit : Nat
deriving DecidableEq, Repr

namespace Policy

def default : Policy := ⟨4, [3, 5, 7], 0x7FEFFFFF, 1024, 100⟩

variable (p : Policy)

def isSparse (entries buckets : Nat) : Bool := entries < buckets / p.sparseDivisor

/-- Whether a divisor that counts divides `n`. -/
def avoids (n : Nat) : Bool := p.avoided.any fun d => 1 < d && n % d = 0

/-- The first of `n`, `n + 2`, `n + 4`, … that is not avoided, looking at `room + 1` numbers. -/
def search : (room n : Nat) → Option Nat
  | 0, n => if p.avoids n then none else some n
  | room + 1, n => if p.avoids n then search room (n + 2) else some n

/-- The bucket count that follows `buckets` if words had no bound but their own. -/
def grownLen? (buckets : Nat) : Option Nat := do
  let n ← Word.add? (← Word.mul? buckets 2) 1
  p.search ((Word.top - n) / 2) n

/-- The bucket count that follows `buckets`, and whether it had to be capped. -/
def nextBuckets (buckets : Nat) : Nat × Bool :=
  match p.grownLen? buckets with
  | some n => if n ≤ p.maxBuckets then (n, false) else (p.maxBuckets, true)
  | none => (p.maxBuckets, true)

/-- The number of locks of a table that follows one with `locks` locks. -/
def nextLocks (locks : Nat) (growing : Bool) : Nat :=
  if growing ∧ locks < p.maxLocks then Word.satMul locks 2 else locks

def outline : Outline :=
  .record "ResizePolicy"
    [.field "sparse_divisor" (.nat p.sparseDivisor),
      .field "avoided_divisors" (.list (p.avoided.map .nat)),
      .field "max_buckets" (.nat p.maxBuckets), .field "max_locks" (.nat p.maxLocks),
      .field "collision_threshold" (.nat p.collisionLimit)]

theorem search_ge {room n m : Nat} (h : p.search room n = some m) : n ≤ m := by
  induction room generalizing n with
  | zero => grind [search]
  | succ room ih =>
    rw [search] at h
    split at h
    · have := ih h; omega
    · simp_all

/-- A table that is not capped at least doubles. -/
theorem lt_of_nextBuckets {buckets n : Nat} (h : p.nextBuckets buckets = (n, false)) :
    2 * buckets < n := by
  unfold nextBuckets at h
  split at h
  · next n' hn =>
    split at h
    · obtain rfl : n' = n := by simpa using h
      simp only [grownLen?, Option.bind_eq_bind, Option.bind_eq_some_iff] at hn
      obtain ⟨twice, ht, odd, ho, hs⟩ := hn
      have := (Word.mul?_eq_some.mp ht).2
      have := (Word.add?_eq_some.mp ho).2
      have := p.search_ge hs
      omega
    · simp at h
  · simp at h

theorem not_avoids_of_search {room n m : Nat} (h : p.search room n = some m) :
    p.avoids m = false := by
  induction room generalizing n with
  | zero => grind [search]
  | succ room ih =>
    rw [search] at h
    split at h
    · exact ih h
    · simp_all

end Policy

end SharedCollections.Map

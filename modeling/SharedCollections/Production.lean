/-!
# Production

Values that tell which producer made them and in which order, so that what came of a workload can be
checked whatever the schedule was.
-/

namespace SharedCollections.Production

/-- How many values a producer may make. -/
def capacity : Nat := 1000000

/-- The value numbered `seq` of a producer. -/
def value (producer seq : Nat) : Nat := producer * capacity + seq

def producerOf (v : Nat) : Nat := v / capacity

theorem producerOf_value {producer seq : Nat} (h : seq < capacity) :
    producerOf (value producer seq) = producer := by
  have : 0 < capacity := by decide
  rw [producerOf, value, Nat.mul_comm, Nat.mul_add_div this, Nat.div_eq_of_lt h, Nat.add_zero]

/-- The values of a producer from `first` on. -/
def run (producer first len : Nat) : List Nat :=
  (List.range' first len).map (value producer)

def isAscending (values : List Nat) : Bool := (values.zip values.tail).all fun (a, b) => a < b

/-- Whether the values of each of the first `producers` producers stand in the order in which they
were made. -/
def inOrder (producers : Nat) (values : List Nat) : Bool :=
  (List.range producers).all fun p => isAscending (values.filter (producerOf · = p))

/-- Divides `total` evenly among `n`, the first ones getting one more if it does not come out even.
-/
def shares (total n : Nat) : List Nat :=
  (List.range n).map fun i => total / n + if i < total % n then 1 else 0

end SharedCollections.Production

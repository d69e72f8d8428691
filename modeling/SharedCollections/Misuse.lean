import SharedCollections.Outline.Basic
/-!
# Misuse

The ways a caller can misuse a collection. A misuse is part of the result; losing a race never is.
-/

namespace SharedCollections

/-- What a caller did wrong. -/
inductive Misuse where
  | keyNotFound
  | duplicateKey
  | invalidConcurrencyLevel
  | indexOutOfRange (index len : Nat)
  | invalidRange (start count len : Nat)
  | insufficientSpace (required available : Nat)
deriving DecidableEq, Repr

namespace Misuse

def message : Misuse → String
  | keyNotFound => "the given key was not present in the map"
  | duplicateKey => "an item with the same key has already been added"
  | invalidConcurrencyLevel => "concurrency level must be at least 1"
  | indexOutOfRange index len => s!"index {index} is out of range for a buffer of length {len}"
  | invalidRange start count len =>
    s!"range starting at {start} with {count} elements does not fit in a buffer of length {len}"
  | insufficientSpace required available =>
    s!"destination has room for {available} elements but {required} are needed"

def outline : Misuse → Outline
  | keyNotFound => .atom "KeyNotFound"
  | duplicateKey => .atom "DuplicateKey"
  | invalidConcurrencyLevel => .atom "InvalidConcurrencyLevel"
  | indexOutOfRange index len =>
    .record "IndexOutOfRange" [.field "index" (.nat index), .field "len" (.nat len)]
  | invalidRange start count len =>
    .record "InvalidRange"
      [.field "start" (.nat start), .field "count" (.nat count), .field "len" (.nat len)]
  | insufficientSpace required available =>
    .record "InsufficientSpace"
      [.field "required" (.nat required), .field "available" (.nat available)]

end Misuse

end SharedCollections

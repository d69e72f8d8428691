import SharedCollections.History.Basic
import Std.Data.HashSet.Basic
/-!
# The search for a linearization

A history is linearizable if its calls can be put into one order that respects real time, and in
which the object used by one thread alone gives every call the reply that was recorded. The search
builds the order from the front. Only the first call left of each thread can come next, and only if
no other call left has returned before it was made. `search` remembers from which positions and
states it found no way on; `explore` does not.
-/

namespace SharedCollections.History

variable {μ ω ρ : Type}

/-- The first call left of each thread that has one, with its thread. The calls of a thread before
its position have been put in order. -/
def pending (logs : List (Log ω ρ)) (positions : List Nat) : List (Nat × Stamped ω ρ) :=
  (logs.zip positions).zipIdx.filterMap fun ((log, position), thread) =>
    log[position]?.map (thread, ·)

/-- Whether a call of another thread has to come before call `e` of `thread`. -/
def isBlocked (calls : List (Nat × Stamped ω ρ)) (thread : Nat) (e : Stamped ω ρ) : Bool :=
  calls.any fun (other, f) => other != thread && f.precedes e

/-- How many calls there are in all. -/
def callCount (logs : List (Log ω ρ)) : Nat := logs.flatten.length

variable [DecidableEq ρ] (apply : Model μ ω ρ) (logs : List (Log ω ρ))

/-- Whether the calls left can be put in order from the state `model` on, if there are at most
`bound` of them. -/
def explore : (bound : Nat) → μ → (positions : List Nat) → Bool
  | 0, _, positions => (pending logs positions).isEmpty
  | bound + 1, model, positions =>
    let calls := pending logs positions
    calls.isEmpty || calls.any fun (thread, e) =>
      !isBlocked calls thread e &&
        let (next, reply) := apply model e.call
        reply = e.reply && explore bound next (positions.modify thread (· + 1))

variable [DecidableEq μ] [Hashable μ]

/-- Where a search stands, and where it has failed. -/
structure Searching (μ : Type) [DecidableEq μ] [Hashable μ] where
  positions : List Nat
  failed : Std.HashSet (List Nat × μ)

/-- Tries each of some candidates as the next call until `go` succeeds after one of them. -/
def tryEach (calls : List (Nat × Stamped ω ρ)) (model : μ)
    (go : μ → Searching μ → Bool × Searching μ) :
    (candidates : List (Nat × Stamped ω ρ)) → Searching μ → Bool × Searching μ
  | [], s => (false, { s with failed := s.failed.insert (s.positions, model) })
  | (thread, e) :: candidates, s =>
    let (next, reply) := apply model e.call
    if isBlocked calls thread e ∨ reply ≠ e.reply then tryEach calls model go candidates s
    else
      match go next { s with positions := s.positions.modify thread (· + 1) } with
      | (true, s) => (true, s)
      | (false, s) =>
        tryEach calls model go candidates
          { s with positions := s.positions.modify thread (· - 1) }

/-- Whether the calls left can be put in order from the state `model` on, if there are at most
`bound` of them and the search has really failed where it says so. -/
def search : (bound : Nat) → μ → Searching μ → Bool × Searching μ
  | 0, _, s => ((pending logs s.positions).isEmpty, s)
  | bound + 1, model, s =>
    let calls := pending logs s.positions
    if calls.isEmpty then (true, s)
    else if (s.positions, model) ∈ s.failed then (false, s)
    else tryEach apply calls model (fun model s => search bound model s) calls s

/-- Whether the history is linearizable for an object that starts in the state `initial`. -/
def check (initial : μ) : Bool :=
  (search apply logs (callCount logs) initial ⟨logs.map fun _ => 0, ∅⟩).1

end SharedCollections.History

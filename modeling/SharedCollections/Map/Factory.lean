import SharedCollections.Map.Update
/-!
# Values from factories

The value that an operation writes can come from a factory, a computation of the caller that may
itself work on the map. A factory runs with no lock held, after its key was looked up, so the map
may be another one when it is done. A value made for a missing key then gives way to the value that
is there by now; an update that lost the entry it had read starts over.
-/

namespace SharedCollections.Map

variable {κ ν α β : Type} [DecidableEq κ]

/-- Runs a factory. -/
def call (factory : Action (Map κ ν) α) : Action (Map κ ν) α := do
  record .called
  factory

/-- The value of `k`, which is added first if the key is missing, and what the factory reported if
it was called. -/
def getOrInsertWith (k : κ) (factory : Action (Map κ ν) (ν × β)) :
    Action (Map κ ν) (ν × Option β) := do
  match (← get).find? k with
  | some e => return (e.value, none)
  | none =>
    let (v, report) ← call factory
    return ((← insertOr k v false).value, some report)

/-- The same with a factory that is handed the key and a further argument. -/
def getOrInsertWithArg {γ : Type} (k : κ) (factory : κ → γ → Action (Map κ ν) (ν × β)) (arg : γ) :
    Action (Map κ ν) (ν × Option β) :=
  getOrInsertWith k (factory k arg)

/-- The value that an upsert wrote, and what the calls of its two factories reported. -/
structure Upserted (ν β : Type) where
  value : ν
  adds : List β
  updates : List β
deriving DecidableEq, Repr

/-- Goes on with an upsert after the given reports, for at most `bound` passes. -/
def upsertFrom (k : κ) (add : Nat → Action (Map κ ν) (ν × β))
    (update : Nat → ν → Action (Map κ ν) (ν × β)) :
    (bound : Nat) → (adds updates : List β) → Action (Map κ ν) (Upserted ν β)
  | 0, _, _ => throw .stalled
  | bound + 1, adds, updates => do
    match (← get).find? k with
    | some e =>
      let (v, report) ← call (update updates.length e.value)
      if ← replaceIf k v (·.id == e.id) then
        return ⟨v, adds, updates ++ [report]⟩
      else
        record (.retried .mapUpdate)
        upsertFrom k add update bound adds (updates ++ [report])
    | none =>
      let (v, report) ← call (add adds.length)
      if ← insertIfNew k v then
        return ⟨v, adds ++ [report], updates⟩
      else
        record (.retried .mapUpdate)
        upsertFrom k add update bound (adds ++ [report]) updates

/-- Gives a missing key the value of `add`, and replaces the value of a present one by that of
`update` for it. Both factories are told how often they were called before. -/
def upsertWith (k : κ) (add : Nat → Action (Map κ ν) (ν × β))
    (update : Nat → ν → Action (Map κ ν) (ν × β)) (bound : Nat) :
    Action (Map κ ν) (Upserted ν β) :=
  upsertFrom k add update bound [] []

/-- Gives a missing key the value `v`, and replaces the value of a present one by that of `f` for
it. Gives the value written. -/
def upsert (k : κ) (v : ν) (f : ν → ν) : Action (Map κ ν) ν := do
  let written ← upsertWith k (fun _ => pure (v, ())) (fun _ current => pure (f current, ())) 1
  return written.value

end SharedCollections.Map

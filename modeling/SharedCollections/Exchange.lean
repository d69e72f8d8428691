import SharedCollections.Step
import SharedCollections.Window
/-!
# Exchanges

What producers and consumers need of a collection when they do not care about the order in which
items come back: items can be offered, taken, copied and counted.
-/

namespace SharedCollections

class Exchange (σ : Type) (ι : outParam Type) where
  /-- Adds an item, or gives it back if it is refused. -/
  offer : ι → Action σ (Option ι)
  /-- Takes some item. -/
  take? : Action σ (Option ι)
  /-- A copy of the items, in the order in which `take?` gives them if nothing else runs. -/
  items : Action σ (List ι)
  count : Action σ Nat

namespace Exchange

variable {σ ι : Type} [Exchange σ ι]

def isEmpty : Action σ Bool := do return (← count) = 0

/-- Copies a snapshot of the items into `dest` from `index` on. Nothing is written unless all of it
fits. -/
def copyTo (dest : List ι) (index : Nat) : Action σ (Except Misuse Unit × List ι) :=
  if index > dest.length then pure (.error (.indexOutOfRange index dest.length), dest)
  else do
    let xs ← items
    let available := dest.length - index
    return if xs.length > available then (.error (.insufficientSpace xs.length available), dest)
      else (.ok (), overwrite dest index xs)

/-- Takes up to `n` items, stopping when there is none. -/
def takeMany : (n : Nat) → Action σ (List ι)
  | 0 => pure []
  | n + 1 => do
    match ← take? with
    | none => return []
    | some x => return x :: (← takeMany n)

end Exchange

end SharedCollections

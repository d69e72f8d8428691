import SharedCollections.Payload
import SharedCollections.Step
/-!
# Formulas

A formula says what a factory computes from the key and from the value that the key has, if it has
one.
-/

namespace SharedCollections.Map

/-- What a factory computes for a key and its value. -/
abbrev Formula (κ ν : Type) := κ → Option ν → Except Fault ν

namespace Formula

variable {σ κ ν : Type}

def eval (f : Formula κ ν) (k : κ) (current : Option ν) : Action σ ν :=
  match f k current with
  | .ok v => pure v
  | .error e => throw e

def const (v : ν) : Formula κ ν := fun _ _ => .ok v

/-- The factory that always fails. -/
def failing : Formula κ ν := fun _ _ => .error (.raised "factory failed")

def key : Formula Key Payload := fun k _ => .ok k.toPayload

/-- The list of the key and `v`. -/
def keyWith (v : Payload) : Formula Key Payload := fun k _ => .ok (.list [k.toPayload, v])

/-- Adds `n` to an integer and leaves any other value alone; a missing value counts as zero. -/
def plus (n : Int) : Formula Key Payload := fun _ current =>
  .ok ((current.getD (.int 0)).plus n)

/-- Puts `v` at the end of a list; any other value is first made the only item of one, and a missing
value counts as the empty list. -/
def append (v : Payload) : Formula Key Payload := fun _ current =>
  .ok <| .list <| match current with
    | none => [v]
    | some (.list items) => items ++ [v]
    | some c => [c, v]

end Formula

end SharedCollections.Map

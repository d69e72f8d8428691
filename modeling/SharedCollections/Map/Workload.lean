import SharedCollections.Map.Session
/-!
# Workloads

A workload has threads that each run a script on one map. What is told of it does not say which
thread did what: how often each kind of command had an effect, and the entries afterwards.
-/

namespace SharedCollections.Map

variable {κ ν : Type}

/-- Whether an answer says that there was nothing, or nothing to do. -/
def Reply.isNothing : Reply κ ν → Bool
  | value none | viewed none | held none | entry none | flag false => true
  | _ => false

/-- Whether a command works on many keys, so that its answer is their number. -/
def Command.isCounting : Command κ ν → Bool
  | .plain (.insertNewAll _) | .plain (.countMatching _) | .plain (.eraseAll _) => true
  | _ => false

/-- For how many commands on a single key a command counts. -/
def Command.weigh (c : Command κ ν) (r : Reply κ ν) : Nat :=
  if c.isCounting then
    match r with
    | .count n => n
    | _ => 1
  else if r.isNothing then 0 else 1

/-- Adds `n` to what was counted for `kind`. -/
def countFor (kind : String) (n : Nat) : List (String × Nat) → List (String × Nat)
  | [] => [(kind, n)]
  | (other, m) :: counts =>
    if other = kind then (other, m + n) :: counts else (other, m) :: countFor kind n counts

variable [DecidableEq κ] [DecidableEq ν]

/-- What is told of a phase of a workload. -/
structure PhaseReport (κ ν : Type) where
  counts : List (String × Nat)
  entries : List (κ × ν)
  size : Nat

/-- Runs commands one after the other. A fault is the answer of its command, and the others go on.
-/
def runEach : List (Command κ ν) → Action (Map κ ν) (List (Reply κ ν))
  | [] => pure []
  | c :: cs => do
    let r := Reply.ofAttempt (← c.run.attempt)
    return r :: (← runEach cs)

/-- Runs the scripts of all threads, one thread after the other. Commands are labelled with their
kind. -/
def runPhase (a : Arrangement κ ν) (threads : List (List (String × Command κ ν))) :
    Action (Map κ ν) (PhaseReport κ ν) := do
  let commands := threads.flatten
  let replies ← runEach (commands.map (·.2))
  let counts := (commands.zip replies).foldl
    (fun counts ((kind, c), r) => countFor kind (c.weigh r) counts) []
  return ⟨counts, a.entries (← get).iterate, ← Map.size⟩

end SharedCollections.Map

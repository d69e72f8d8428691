import SharedCollections.Dictionary
import SharedCollections.History.Datum
import SharedCollections.History.Search
import SharedCollections.Step
/-!
# Trials

A trial runs a script for each thread on a real object, records the history and checks it against
the object used by one thread alone. Every thread makes as many calls as the first script has. The
threads take turns script by script.
-/

namespace SharedCollections.History

variable {σ μ ω : Type}

/-- What a trial needs to know of an object: how a call works on the object, what it does to the
model of the object, and how it is written. -/
structure Subject (σ μ ω : Type) where
  run : ω → Action σ Datum
  apply : Model μ ω Datum
  text : ω → String

/-- Replies that take the place of the real ones, by the position of the call. -/
abbrev Lies := Dictionary Nat Datum

variable (x : Subject σ μ ω)

/-- Makes the calls of a script, from the one at `position` on, and records them. -/
def perform (thread : Nat) (lies : Lies) :
    (position : Nat) → List ω → Clock → Action σ (Log ω Datum × Clock)
  | _, [], clock => pure ([], clock)
  | position, call :: calls, clock => do
    let (invoked, clock) := clock.tick
    let reply ← x.run call
    let (returned, clock) := clock.tick
    let (log, clock) ← perform thread lies (position + 1) calls clock
    return (⟨thread, call, (lies.get? position).getD reply, invoked, returned⟩ :: log, clock)

/-- Runs the scripts of the threads from `thread` on. -/
def performAll (lies : Lies) :
    (thread : Nat) → List (List ω) → Clock → Action σ (List (Log ω Datum))
  | _, [], _ => pure []
  | thread, script :: scripts, clock => do
    let (log, clock) ← perform x thread lies 0 script clock
    return log :: (← performAll lies (thread + 1) scripts clock)

/-- The calls that so many threads make, each from a script of its own. -/
def assigned (threads : Nat) (scripts : List (List ω)) : List (List ω) :=
  (scripts.take threads).map (·.take (scripts.headD []).length)

inductive Verdict (ω : Type) where
  | linearizable
  | failed (logs : List (Log ω Datum))

namespace Verdict

def isSuccess : Verdict ω → Bool
  | linearizable => true
  | failed _ => false

def line (text : ω → String) (e : Stamped ω Datum) : String :=
  s!"  thread {e.thread} [{e.invoked}, {e.returned}] {text e.call} -> {e.reply.text}\n"

def outline (text : ω → String) : Verdict ω → String
  | linearizable => "Success"
  | failed logs =>
    "Failure, no linearization of:\n" ++ String.join (logs.flatten.map (line text))

end Verdict

/-- Runs a trial on an object, and checks what it recorded against a model that starts in the state
`initial`. -/
def trial [DecidableEq μ] [Hashable μ] (threads : Nat) (scripts : List (List ω)) (lies : Lies)
    (initial : μ) : Action σ (Verdict ω) := do
  let logs ← performAll x lies 0 (assigned threads scripts) .start
  return if check x.apply logs initial then .linearizable else .failed logs

end SharedCollections.History

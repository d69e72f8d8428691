import SharedCollections.History.Trial
import SharedCollections.Stack.Range
/-!
# Histories of stacks

The calls that a history of a stack records. The model of a stack is the list of its values, the top
first.
-/

namespace SharedCollections.Stack

open History (Datum Subject callText)

inductive Call where
  | push (v : Payload)
  | pushRange (vs : List Payload)
  | pop
  | popRange (count : Nat)
deriving DecidableEq, Repr

namespace Call

def apply (s : List Payload) : Call → List Payload × Datum
  | push v => (v :: s, .null)
  | pushRange vs => (vs.reverse ++ s, .null)
  | pop => (s.tail, .ofOption s.head?)
  | popRange count => (s.drop count, .ofPayload (.list (s.take count)))

def run : Call → Action (Stack Payload) Datum
  | push v => do Stack.push v; return .null
  | pushRange vs => do Stack.pushRange vs; return .null
  | pop => do return .ofOption (← Stack.pop?)
  | popRange count => do return .ofPayload (.list (← Stack.popRange count))

def text : Call → String
  | push v => callText "push" [v]
  | pushRange vs => callText "push_range" [.list vs]
  | pop => callText "pop" []
  | popRange count => callText "pop_range" [.int count]

def subject : Subject (Stack Payload) (List Payload) Call := ⟨run, apply, text⟩

end Call

end SharedCollections.Stack

import SharedCollections.History.Trial
import SharedCollections.Queue.Dequeue
import SharedCollections.Queue.Enqueue
import SharedCollections.Queue.Snapshot
/-!
# Histories of queues

The calls that a history of a queue records. The model of a queue is the list of its values, the
head first.
-/

namespace SharedCollections.Queue

open History (Datum Subject callText)

inductive Call where
  | enqueue (v : Payload)
  | dequeue
  | peek
deriving DecidableEq, Repr

namespace Call

def apply (q : List Payload) : Call → List Payload × Datum
  | enqueue v => (q ++ [v], .null)
  | dequeue => (q.tail, .ofOption q.head?)
  | peek => (q, .ofOption q.head?)

def run : Call → Action (Queue Payload) Datum
  | enqueue v => do Queue.enqueue v; return .null
  | dequeue => do return .ofOption (← Queue.dequeue?)
  | peek => do return .ofOption (← Queue.peek?)

def text : Call → String
  | enqueue v => callText "enqueue" [v]
  | dequeue => callText "dequeue" []
  | peek => callText "peek" []

def subject : Subject (Queue Payload) (List Payload) Call := ⟨run, apply, text⟩

end Call

end SharedCollections.Queue

import SharedCollections.Payload
import SharedCollections.Queue.Dequeue
import SharedCollections.Queue.Enqueue
import SharedCollections.Queue.Snapshot
import SharedCollections.Sequence
/-!
# Sessions on a queue

A queue is a sequence whose values come from the head. A cursor of a queue is a snapshot in
progress, so closing it matters.
-/

namespace SharedCollections.Queue

variable {α : Type}

instance : Sequence (Queue α) α Cursor where
  empty := empty
  put := enqueue
  take? := dequeue?
  peek? := peek?
  isEmpty := isEmpty
  size := size
  toList := toList
  display := toList
  extend := enqueueAll
  openCursor := openCursor
  next? c := c.next?
  rest c := c.rest
  closeCursor _ := closeCursor
  trace q := q.trace
  forgetTrace q := { q with trace := #[] }

end SharedCollections.Queue

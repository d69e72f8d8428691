import SharedCollections.Outline.Basic
/-!
# Traces

A collection records what it does: locks taken and given back, calls into functions of the caller,
lost races, growth, and log records. A sink hears of the locks, races and growth; log records belong
to the collection and are written whether or not it has a sink. Releases and calls are heard by
nobody; they are there to say in which order things happened.
-/

namespace SharedCollections

/-- The retry loop that lost a race. -/
inductive RetrySite where
  | stackPush
  | stackPop
  | queueEnqueue
  | queueDequeue
  | queueSnapshot
  | mapStaleTable
  /-- An update lost the entry it had read to another writer. -/
  | mapUpdate
deriving DecidableEq, Repr

namespace RetrySite

def all : List RetrySite :=
  [stackPush, stackPop, queueEnqueue, queueDequeue, queueSnapshot, mapStaleTable, mapUpdate]

theorem mem_all (site : RetrySite) : site ∈ all := by cases site <;> decide

end RetrySite

/-- A record that a collection writes to the log. -/
inductive LogRecord where
  | tableResized (buckets locks : Nat) (rehashed : Bool)
  | budgetDoubled (budget entries : Nat)
  | mapCleared (budget : Nat)
  | segmentAppended (index : Nat)
deriving DecidableEq, Repr

namespace LogRecord

def level : LogRecord → String
  | segmentAppended _ => "TRACE"
  | _ => "DEBUG"

def message : LogRecord → String
  | tableResized .. => "map table resized"
  | budgetDoubled .. => "map is sparse, doubled the resize budget"
  | mapCleared _ => "map cleared"
  | segmentAppended _ => "queue segment appended"

end LogRecord

/-- Something a collection did. -/
inductive Event where
  | locked (stripe : Nat)
  | unlocked (stripe : Nat)
  | called
  | retried (site : RetrySite)
  | resized (buckets locks : Nat)
  | grown (index : Nat)
  | logged (record : LogRecord)
deriving DecidableEq, Repr

namespace Event

/-- Whether a sink is told of the event. -/
def reported : Event → Bool
  | locked _ | retried _ | resized .. | grown _ => true
  | _ => false

def isLogged : Event → Bool
  | logged _ => true
  | _ => false

end Event

abbrev Trace := Array Event

namespace Trace

/-- What an observer of both the sink, if there is one, and the log gets to see. -/
def observed (hasSink : Bool) (t : Trace) : List Event :=
  t.toList.filter fun e => e.isLogged || (hasSink && e.reported)

end Trace

/-- Who hears of a collection's events. -/
inductive Sink where
  /-- Nobody. -/
  | absent
  /-- A sink that ignores everything. -/
  | silent
  /-- A sink that keeps everything. -/
  | keeping
deriving DecidableEq, Repr

namespace Sink

/-- The events a sink keeps of those reported to it. -/
def kept (s : Sink) (events : List Event) : List Event :=
  match s with
  | keeping => events.filter Event.reported
  | _ => []

def outline : Sink → Outline
  | absent => .tagged "TelemetryHandle" (.atom "None")
  | _ => .tagged "TelemetryHandle" (.tagged "Some" (.atom ".."))

end Sink

/-- How often a sink was told of each kind of event. -/
structure Tally where
  locks : Nat
  retries : RetrySite → Nat
  resizes : Nat
  segments : Nat

namespace Tally

def zero : Tally := ⟨0, fun _ => 0, 0, 0⟩

def add (a b : Tally) : Tally :=
  ⟨a.locks + b.locks, fun site => a.retries site + b.retries site, a.resizes + b.resizes,
    a.segments + b.segments⟩

/-- The tally of an event that happened `times` times. -/
def ofEvent (times : Nat) : Event → Tally
  | .locked _ => { zero with locks := times }
  | .retried site => { zero with retries := fun other => if other = site then times else 0 }
  | .resized .. => { zero with resizes := times }
  | .grown _ => { zero with segments := times }
  | _ => zero

def ofEvents (events : List Event) : Tally :=
  { locks := events.countP fun e => e matches .locked _
    retries := fun site => events.count (.retried site)
    resizes := events.countP fun e => e matches .resized ..
    segments := events.countP fun e => e matches .grown _ }

def totalRetries (t : Tally) : Nat := RetrySite.all.foldl (fun n site => n + t.retries site) 0

def scale (threads : Nat) (t : Tally) : Tally :=
  ⟨threads * t.locks, fun site => threads * t.retries site, threads * t.resizes,
    threads * t.segments⟩

def outline (t : Tally) : Outline :=
  .record "CountingTelemetry"
    [.field "lock_acquisitions" (.nat t.locks), .field "total_retries" (.nat t.totalRetries),
      .field "resizes" (.nat t.resizes), .field "segments_grown" (.nat t.segments)]

end Tally

end SharedCollections

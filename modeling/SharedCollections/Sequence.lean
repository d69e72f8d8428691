import SharedCollections.Exchange
import SharedCollections.Outline.Basic
import SharedCollections.Trace
/-!
# Sequences and their sessions

A sequence is a collection with one end to take from and with cursors that stay valid while others
change it. A session runs steps on a sequence one after the other; its cursors live across steps.
-/

namespace SharedCollections

class Sequence (σ : Type) (α κ : outParam Type) where
  empty : σ
  put : α → Action σ Unit
  take? : Action σ (Option α)
  peek? : Action σ (Option α)
  isEmpty : Action σ Bool
  size : Action σ Nat
  toList : Action σ (List α)
  /-- The values that are shown to a programmer. -/
  display : Action σ (List α)
  /-- Puts all values in order. -/
  extend : List α → Action σ Unit
  openCursor : Action σ κ
  next? : κ → Action σ (Option α × κ)
  rest : κ → Action σ (List α × κ)
  closeCursor : κ → Action σ Unit
  trace : σ → Trace
  forgetTrace : σ → σ

instance {σ α κ : Type} [Sequence σ α κ] : Exchange σ α where
  offer v := do Sequence.put v; return none
  take? := Sequence.take?
  items := Sequence.toList
  count := Sequence.size

/-- What a step of a session answers. -/
inductive Reply (α : Type) where
  | done
  | flag (b : Bool)
  | count (n : Nat)
  | value (v : Option α)
  | values (vs : List α)
  | text (s : String)
  | refused (v : α)
  | misuse (m : Misuse)
  /-- A destination after a copy, and what was wrong if nothing was copied. -/
  | copied (dest : List α) (problem : Option Misuse)
  /-- How many values were written to a buffer, and the buffer afterwards. -/
  | filled (popped : Except Misuse Nat) (buffer : List α)
  | fault (f : Fault)

namespace Reply

variable {α : Type}

def ofUnit : Except Misuse Unit → Reply α
  | .ok () => done
  | .error m => misuse m

def ofCopy : Except Misuse Unit × List α → Reply α
  | (.ok (), dest) => copied dest none
  | (.error m, dest) => copied dest (some m)

def ofOffer : Option α → Reply α
  | none => done
  | some v => refused v

end Reply

namespace Sequence

/-- A step of a session. `χ` holds the steps that only one kind of sequence has; cursors are named.
-/
inductive Step (χ α : Type) where
  | put (v : α)
  | take
  | takeMany (n : Nat)
  | peek
  | isEmpty
  | size
  | toList
  | debug (expanded : Bool)
  | extend (items : List α)
  /-- Goes on with an empty collection without a sink. -/
  | renew
  /-- Goes on with a collection of `items` without a sink. -/
  | collect (items : List α)
  /-- Takes `n` values of the collection, drops the others, and goes on with an empty one. -/
  | drain (n : Nat)
  | openCursor (name : String)
  | next (name : String)
  | rest (name : String)
  | closeCursor (name : String)
  | offer (v : α)
  | exchangeTake
  | exchangeItems
  | exchangeCount
  | exchangeIsEmpty
  | copyTo (dest : List α) (index : Nat)
  | special (x : χ)

structure Session (σ κ : Type) where
  collection : σ
  hasSink : Bool
  cursors : List (String × κ)

namespace Session

variable {σ κ χ α β : Type}

/-- Runs a computation on the collection of the session. -/
def act (a : Action σ β) : Action (Session σ κ) β := .mk fun ⟨c, hasSink, cursors⟩ =>
  match a.run c with
  | .ok x c => .ok x ⟨c, hasSink, cursors⟩
  | .error f c => .error f ⟨c, hasSink, cursors⟩

/-- Goes on with another collection, which has no sink and no cursors. -/
def replace (c : σ) : Action (Session σ κ) Unit := set (⟨c, false, []⟩ : Session σ κ)

def setCursor (name : String) (c : κ) (s : Session σ κ) : Session σ κ :=
  { s with cursors := (name, c) :: s.cursors.filter (·.1 ≠ name) }

variable [Sequence σ α κ]

/-- Closes a cursor; tells whether there was one. -/
def close (name : String) : Action (Session σ κ) Bool := do
  match (← get).cursors.lookup name with
  | none => return false
  | some c =>
    modify fun s => { s with cursors := s.cursors.filter (·.1 ≠ name) }
    act (closeCursor c)
    return true

/-- Moves a cursor on; a step without a cursor of that name finds nothing. -/
def walk (name : String) (move : κ → Action σ (β × κ)) (missing : β) :
    Action (Session σ κ) β := do
  match (← get).cursors.lookup name with
  | none => return missing
  | some c =>
    let (x, c) ← act (move c)
    modify (setCursor name c)
    return x

variable [Outlined α]

def run (special : χ → Action σ (Reply α)) : Step χ α → Action (Session σ κ) (Reply α)
  | .put v => do act (put v); return .done
  | .take => do return .value (← act take?)
  | .takeMany n => do return .values (← act (Exchange.takeMany n))
  | .peek => do return .value (← act peek?)
  | .isEmpty => do return .flag (← act isEmpty)
  | .size => do return .count (← act size)
  | .toList => do return .values (← act toList)
  | .debug expanded => do
    let o := Outline.list ((← act display).map Outlined.outline)
    return .text (if expanded then o.expanded 0 else o.inline)
  | .extend items => do act (extend items); return .done
  | .renew => do replace empty; return .done
  | .collect items => do replace empty; act (extend items); return .done
  | .drain n => do
    let vs ← act (Exchange.takeMany n)
    replace empty
    return .values vs
  | .openCursor name => do
    let c ← act openCursor
    let _ ← close name
    modify (setCursor name c)
    return .done
  | .next name => do return .value (← walk name next? none)
  | .rest name => do return .values (← walk name rest [])
  | .closeCursor name => do return .flag (← close name)
  | .offer v => do return .ofOffer (← act (Exchange.offer v))
  | .exchangeTake => do return .value (← act Exchange.take?)
  | .exchangeItems => do return .values (← act Exchange.items)
  | .exchangeCount => do return .count (← act Exchange.count)
  | .exchangeIsEmpty => do return .flag (← act Exchange.isEmpty)
  | .copyTo dest index => do return .ofCopy (← act (Exchange.copyTo dest index))
  | .special x => act (special x)

/-- What an observer of a session gets to see of one step. -/
structure Answer (α : Type) where
  reply : Reply α
  events : List Event
  /-- The values after the step, if they were asked for. -/
  contents : List α

/-- Runs one step, and looks at the contents if `dump` is set. A fault is the step's answer, and the
session goes on. -/
def answer (special : χ → Action σ (Reply α)) (dump : Bool) (step : Step χ α) (s : Session σ κ) :
    Answer α × Session σ κ :=
  let (reply, s) := match (run special step).run s with
    | .ok r s => (r, s)
    | .error f s => (.fault f, s)
  let events := (trace s.collection).observed s.hasSink
  let s := { s with collection := forgetTrace s.collection }
  match (act (if dump then toList else pure [])).run s with
  | .ok vs s => (⟨reply, events, vs⟩, s)
  | .error _ s => (⟨reply, events, []⟩, s)

/-- Runs steps one after the other. -/
def answers (special : χ → Action σ (Reply α)) (dump : Bool) :
    List (Step χ α) → Session σ κ → List (Answer α) × Session σ κ
  | [], s => ([], s)
  | step :: steps, s =>
    let (a, s) := answer special dump step s
    let (as, s) := answers special dump steps s
    (a :: as, s)

end Session

end Sequence

end SharedCollections

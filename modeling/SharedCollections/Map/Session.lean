import SharedCollections.Map.Command
import SharedCollections.Payload
/-!
# Sessions on a map

A session runs steps on one map after the other. Its cursors, and the entries it has looked up and
kept, live across steps and are named. Answers can be sorted: where the hashes are not determined,
the order of iteration is not either.
-/

namespace SharedCollections.Map

variable {κ ν : Type}

/-- The outline of an entry that was looked up. -/
def entryOutline [Outlined κ] [Outlined ν] (e : κ × ν) : Outline :=
  .record "DataGuard"
    [.field "key" (Outlined.outline e.1), .field "value" (Outlined.outline e.2)]

/-- The outline of the entries of a map. -/
def entriesOutline [Outlined κ] [Outlined ν] (es : List (κ × ν)) : Outline :=
  .map (es.map fun (k, v) => .entry (Outlined.outline k) (Outlined.outline v))

/-- How the lists in an answer are arranged. -/
structure Arrangement (κ ν : Type) where
  entries : List (κ × ν) → List (κ × ν)
  keys : List κ → List κ
  values : List ν → List ν

namespace Arrangement

/-- Lists stay as they are. -/
def asFound : Arrangement κ ν := ⟨id, id, id⟩

def sorted : Arrangement Key Payload :=
  ⟨sortBy Payload.cmpEntry, sortBy Key.cmp, sortBy Payload.cmp⟩

end Arrangement

namespace Reply

mutual

/-- Arranges all lists of an answer. -/
def arrange (a : Arrangement κ ν) : Reply κ ν → Reply κ ν
  | entries es => entries (a.entries es)
  | keys ks => keys (a.keys ks)
  | values vs => values (a.values vs)
  | made v call => made v (arrangeCall a call)
  | updated v updates => updated v (arrangeCalls a updates)
  | upserted v adds updates => upserted v (arrangeCalls a adds) (arrangeCalls a updates)
  | r => r

def arrangeCall (a : Arrangement κ ν) : Option (List (Reply κ ν)) → Option (List (Reply κ ν))
  | none => none
  | some rs => some (arrangeAll a rs)

def arrangeCalls (a : Arrangement κ ν) : List (List (Reply κ ν)) → List (List (Reply κ ν))
  | [] => []
  | rs :: calls => arrangeAll a rs :: arrangeCalls a calls

def arrangeAll (a : Arrangement κ ν) : List (Reply κ ν) → List (Reply κ ν)
  | [] => []
  | r :: rs => arrange a r :: arrangeAll a rs

end

end Reply

/-- A step of a session. Cursors and kept entries are named. -/
inductive Step (κ ν : Type) where
  | command (c : Command κ ν)
  | openCursor (name : String)
  | next (name : String)
  | rest (name : String)
  | closeCursor (name : String)
  /-- Looks a key up and keeps the entry; tells whether there was one. -/
  | keep (name : String) (k : κ)
  | lookAt (name : String)
  /-- Gives the value of a kept entry, which is let go. -/
  | moveOut (name : String)
  | letGo (name : String)

structure Session (κ ν : Type) where
  map : Map κ ν
  hasSink : Bool
  cursors : List (String × Cursor κ ν)
  kept : List (String × κ × ν)

namespace Session

variable {α β : Type}

/-- Runs a computation on the map of the session. -/
def act (a : Action (Map κ ν) α) : Action (Session κ ν) α := .mk fun ⟨m, hasSink, cursors, kept⟩ =>
  match a.run m with
  | .ok x m => .ok x ⟨m, hasSink, cursors, kept⟩
  | .error f m => .error f ⟨m, hasSink, cursors, kept⟩

/-- Gives `x` the name `name`, which may have belonged to something else. -/
def assign (name : String) (x : β) (named : List (String × β)) : List (String × β) :=
  (name, x) :: named.filter (·.1 ≠ name)

/-- Moves a cursor on; a step without a cursor of that name finds nothing. -/
def walk (name : String) (move : Cursor κ ν → α × Cursor κ ν) (missing : α) :
    Action (Session κ ν) α := do
  match (← get).cursors.lookup name with
  | none => return missing
  | some c =>
    let (x, c) := move c
    modify fun s => { s with cursors := assign name c s.cursors }
    return x

/-- Lets a kept entry go, and gives it if there was one. -/
def release (name : String) : Action (Session κ ν) (Option (κ × ν)) := do
  let e := (← get).kept.lookup name
  modify fun s => { s with kept := s.kept.filter (·.1 ≠ name) }
  return e

variable [DecidableEq κ] [DecidableEq ν]

def run : Step κ ν → Action (Session κ ν) (Reply κ ν)
  | .command c => act c.run
  | .openCursor name => do
    modify fun s => { s with cursors := assign name s.map.openCursor s.cursors }
    return .done
  | .next name => do
    let m := (← get).map
    return .entry (← walk name (·.next? m) none)
  | .rest name => do
    let m := (← get).map
    return .entries (← walk name (·.rest m) [])
  | .closeCursor name => do
    let found := ((← get).cursors.lookup name).isSome
    modify fun s => { s with cursors := s.cursors.filter (·.1 ≠ name) }
    return .flag found
  | .keep name k => do
    match (← get).map.find? k with
    | none => return .flag false
    | some e =>
      modify fun s => { s with kept := assign name e.pair s.kept }
      return .flag true
  | .lookAt name => do return .held ((← get).kept.lookup name)
  | .moveOut name => do return .value ((← release name).map (·.2))
  | .letGo name => do return .flag (← release name).isSome

/-- What an observer of a session gets to see of one step. -/
structure Answer (κ ν : Type) where
  reply : Reply κ ν
  events : List Event
  /-- The entries after the step, if they were asked for. -/
  contents : List (κ × ν)

/-- Runs one step, and looks at the contents if `dump` is set. A fault is the step's answer, and the
session goes on. -/
def answer (a : Arrangement κ ν) (dump : Bool) (step : Step κ ν) (s : Session κ ν) :
    Answer κ ν × Session κ ν :=
  let (reply, s) := match (run step).run s with
    | .ok r s => (r, s)
    | .error f s => (.fault f, s)
  let events := s.map.trace.observed s.hasSink
  let s := { s with map := s.map.forgetTrace }
  (⟨reply.arrange a, events, if dump then a.entries s.map.iterate else []⟩, s)

/-- Runs steps one after the other. -/
def answers (a : Arrangement κ ν) (dump : Bool) :
    List (Step κ ν) → Session κ ν → List (Answer κ ν) × Session κ ν
  | [], s => ([], s)
  | step :: steps, s =>
    let (x, s) := answer a dump step s
    let (xs, s) := answers a dump steps s
    (x :: xs, s)

end Session

end SharedCollections.Map

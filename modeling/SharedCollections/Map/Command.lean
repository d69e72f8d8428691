import SharedCollections.Map.Factory
import SharedCollections.Map.Formula
import SharedCollections.Map.Whole
/-!
# Commands

A command is an operation on a map as a value. The factories of a command are given by what they
compute and by the scripts they run first, which consist of commands themselves, so a command says
all that happens to the map while it runs.
-/

namespace SharedCollections.Map

/-- A command without factories. -/
inductive Plain (κ ν : Type) where
  | insertIfNew (k : κ) (v : ν)
  | insertNew (k : κ) (v : ν)
  | insert (k : κ) (v : ν)
  | insertAll (entries : List (κ × ν))
  /-- Counts the entries that `insertIfNew` added. -/
  | insertNewAll (entries : List (κ × ν))
  | get? (k : κ)
  | require (k : κ)
  /-- Looks at the whole entry of a key. -/
  | view (k : κ)
  | contains (k : κ)
  /-- Counts the keys that have the given values. -/
  | countMatching (entries : List (κ × ν))
  | getOrInsert (k : κ) (v : ν)
  | erase? (k : κ)
  /-- Counts the keys that were removed. -/
  | eraseAll (keys : List κ)
  | eraseIfEq (k : κ) (v : ν)
  | replaceIfEq (k : κ) (v expected : ν)
  | size
  | isEmpty
  | clear
  | toList
  | keys
  | values
  | iterate
  /-- Shows the entries to a programmer. -/
  | display (expanded : Bool)
  | hasherName
  | offer (k : κ) (v : ν)
  | exchangeTake
  | exchangeItems
  | exchangeCount
  | exchangeIsEmpty
  | copyTo (dest : List (κ × ν)) (index : Nat)

/-- An operation on a map. The factories of an upsert have a script for every call; past the last
one they run nothing. -/
inductive Command (κ ν : Type) where
  | plain (c : Plain κ ν)
  | getOrInsertWith (k : κ) (script : List (Command κ ν)) (formula : Formula κ ν)
  | upsert (k : κ) (v : ν) (scripts : List (List (Command κ ν))) (formula : Formula κ ν)
  | upsertWith (k : κ) (adds : List (List (Command κ ν))) (add : Formula κ ν)
    (updates : List (List (Command κ ν))) (update : Formula κ ν)

/-- What a command answers. -/
inductive Reply (κ ν : Type) where
  | done
  | flag (b : Bool)
  | count (n : Nat)
  | value (v : Option ν)
  /-- The value of a key that had to be there. -/
  | required (v : ν)
  /-- The entry that was looked at. -/
  | viewed (e : Option (κ × ν))
  /-- An entry that was looked up before. -/
  | held (e : Option (κ × ν))
  | entry (e : Option (κ × ν))
  | refused (e : κ × ν)
  | entries (es : List (κ × ν))
  | keys (ks : List κ)
  | values (vs : List ν)
  | display (expanded : Bool) (es : List (κ × ν))
  | text (s : String)
  | misuse (m : Misuse)
  | copied (dest : List (κ × ν)) (problem : Option Misuse)
  /-- A value, and what the script of its factory answered if it was called. -/
  | made (v : ν) (call : Option (List (Reply κ ν)))
  /-- The value an upsert wrote, and what the scripts of its calls answered. -/
  | updated (v : ν) (updates : List (List (Reply κ ν)))
  | upserted (v : ν) (adds updates : List (List (Reply κ ν)))
  | fault (f : Fault)

namespace Reply

variable {κ ν : Type}

def ofExcept {α : Type} (f : α → Reply κ ν) : Except Misuse α → Reply κ ν
  | .ok x => f x
  | .error m => misuse m

def ofAttempt : Except Fault (Reply κ ν) → Reply κ ν
  | .ok r => r
  | .error f => fault f

def ofCopy : Except Misuse Unit × List (κ × ν) → Reply κ ν
  | (.ok (), dest) => copied dest none
  | (.error m, dest) => copied dest (some m)

end Reply

variable {κ ν : Type} [DecidableEq κ] [DecidableEq ν]

def Plain.run : Plain κ ν → Action (Map κ ν) (Reply κ ν)
  | insertIfNew k v => do return .flag (← Map.insertIfNew k v)
  | insertNew k v => do return .ofExcept (fun _ => .done) (← Map.insertNew k v)
  | insert k v => do Map.insert k v; return .done
  | insertAll es => do Map.insertAll es; return .done
  | insertNewAll es => do
    return .count (← Action.countPassing (fun (k, v) => Map.insertIfNew k v) es)
  | get? k => do return .value ((← get).get? k)
  | require k => do return .ofExcept .required ((← get).require k)
  | view k => do return .viewed (((← get).find? k).map Entry.pair)
  | contains k => do return .flag ((← get).contains k)
  | countMatching es => do
    return .count (← Action.countPassing (fun (k, v) => do return (← get).get? k == some v) es)
  | getOrInsert k v => do return .value (some (← Map.getOrInsert k v))
  | erase? k => do return .value (← Map.erase? k)
  | eraseAll ks => do
    return .count (← Action.countPassing (fun k => do return (← Map.erase? k).isSome) ks)
  | eraseIfEq k v => do return .flag (← Map.eraseIfEq k v)
  | replaceIfEq k v expected => do return .flag (← Map.replaceIfEq k v expected)
  | size => do return .count (← Map.size)
  | isEmpty => do return .flag (← Map.isEmpty)
  | clear => do Map.clear; return .done
  | toList => do return .entries (← Map.toList)
  | keys => do return .keys (← Map.keys)
  | values => do return .values (← Map.values)
  | iterate => do return .entries (← get).iterate
  | display expanded => do return .display expanded (← get).iterate
  | hasherName => do return .text (← get).hasher.name
  | offer k v => do
    return match ← Exchange.offer (k, v) with
      | none => .done
      | some e => .refused e
  | exchangeTake => do return .entry (← Exchange.take?)
  | exchangeItems => do return .entries (← Exchange.items)
  | exchangeCount => do return .count (← Exchange.count)
  | exchangeIsEmpty => do return .flag (← Exchange.isEmpty)
  | copyTo dest index => do return .ofCopy (← Exchange.copyTo dest index)

mutual

def Command.run : Command κ ν → Action (Map κ ν) (Reply κ ν)
  | .plain c => c.run
  | .getOrInsertWith k script formula => do
    let (v, call) ← Map.getOrInsertWith k do
      let replies ← runScript script
      return (← formula.eval k none, replies)
    return .made v call
  | .upsert k v scripts formula => do
    let u ← Map.upsertWith k (fun _ => pure (v, []))
      (fun n current => do
        let replies ← runNth scripts n
        return (← formula.eval k (some current), replies))
      (scripts.length + 1)
    return .updated u.value u.updates
  | .upsertWith k adds add updates update => do
    let u ← Map.upsertWith k
      (fun n => do
        let replies ← runNth adds n
        return (← add.eval k none, replies))
      (fun n current => do
        let replies ← runNth updates n
        return (← update.eval k (some current), replies))
      (adds.length + updates.length + 1)
    return .upserted u.value u.adds u.updates

/-- Runs commands one after the other. A fault in one of them ends the script, and with it the
command whose factory ran the script. -/
def runScript : List (Command κ ν) → Action (Map κ ν) (List (Reply κ ν))
  | [] => pure []
  | c :: cs => do
    let r ← Command.run c
    return r :: (← runScript cs)

/-- Runs the script numbered `n`, if there is one. -/
def runNth : List (List (Command κ ν)) → Nat → Action (Map κ ν) (List (Reply κ ν))
  | [], _ => pure []
  | script :: _, 0 => runScript script
  | _ :: scripts, n + 1 => runNth scripts n

end

end SharedCollections.Map

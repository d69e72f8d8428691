import SharedCollections.Dictionary
import SharedCollections.History.Trial
import SharedCollections.Map.Factory
/-!
# Histories of maps

The calls that a history of a map records. The model of a map is a dictionary.
-/

namespace SharedCollections.Map

open History (Datum Subject callText)

inductive Call where
  | insertIfNew (k : Key) (v : Payload)
  | erase (k : Key)
  | get (k : Key)
  | insert (k : Key) (v : Payload)
  /-- Adds one to the value of a key; a missing key gets the value one. -/
  | increment (k : Key)
  | replaceIfEq (k : Key) (v expected : Payload)
deriving DecidableEq, Repr

namespace Call

def apply (d : Dictionary Key Payload) : Call → Dictionary Key Payload × Datum
  | insertIfNew k v =>
    if (d.get? k).isSome then (d, .flag false) else (d.insert k v, .flag true)
  | erase k => (d.erase k, .ofOption (d.get? k))
  | get k => (d, .ofOption (d.get? k))
  | insert k v => (d.insert k v, .null)
  | increment k =>
    let v := ((d.get? k).map (Payload.plus 1)).getD (.int 1)
    (d.insert k v, .ofPayload v)
  | replaceIfEq k v expected =>
    if d.get? k = some expected then (d.insert k v, .flag true) else (d, .flag false)

def run : Call → Action (Map Key Payload) Datum
  | insertIfNew k v => do return .flag (← Map.insertIfNew k v)
  | erase k => do return .ofOption (← Map.erase? k)
  | get k => do return .ofOption ((← MonadState.get).get? k)
  | insert k v => do Map.insert k v; return .null
  | increment k => do return .ofPayload (← Map.upsert k (.int 1) (Payload.plus 1))
  | replaceIfEq k v expected => do return .flag (← Map.replaceIfEq k v expected)

def text : Call → String
  | insertIfNew k v => callText "try_add" [k.toPayload, v]
  | erase k => callText "try_remove" [k.toPayload]
  | get k => callText "get" [k.toPayload]
  | insert k v => callText "set" [k.toPayload, v]
  | increment k => callText "increment" [k.toPayload]
  | replaceIfEq k v expected => callText "try_update" [k.toPayload, v, expected]

def subject : Subject (Map Key Payload) (Dictionary Key Payload) Call := ⟨run, apply, text⟩

end Call

end SharedCollections.Map

import SharedCollections.History.Datum
/-!
# Histories of registers

A register is the simplest object to record a history of: it holds one value.
-/

namespace SharedCollections.History

inductive Access where
  | write (v : Payload)
  | read
deriving DecidableEq, Repr

/-- The register used by one thread alone. -/
def Access.apply (current : Payload) : Access → Payload × Datum
  | write v => (v, .null)
  | read => (current, .ofPayload current)

end SharedCollections.History

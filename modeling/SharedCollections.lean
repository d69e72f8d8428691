import SharedCollections.Word
import SharedCollections.Backoff
import SharedCollections.Reclaim
import SharedCollections.Stack.Session
import SharedCollections.Stack.Workload
import SharedCollections.Queue.Session
import SharedCollections.Queue.Slots
import SharedCollections.Queue.Workload
import SharedCollections.Map.Config
import SharedCollections.Map.Growth
import SharedCollections.Map.Workload
import SharedCollections.History.Register
import SharedCollections.Stack.History
import SharedCollections.Queue.History
import SharedCollections.Map.History
import SharedCollections.Proofs.History.Memory
import SharedCollections.Proofs.Map.Refinement
import SharedCollections.Proofs.Map.Journey
import SharedCollections.Proofs.Map.Upsert
import SharedCollections.Proofs.Queue.Fifo
import SharedCollections.Proofs.Stack.Run
import SharedCollections.Proofs.Stack.Refinement
import SharedCollections.Proofs.Drain
import SharedCollections.Proofs.Map.Geometry
import SharedCollections.Proofs.Map.Schedule
import SharedCollections.Proofs.Map.Locks
import SharedCollections.Proofs.Crew
import SharedCollections.Proofs.Queue.Built
import SharedCollections.Proofs.Queue.Deeds
import SharedCollections.Proofs.Queue.Interleaved
import SharedCollections.Proofs.Queue.Snapshots
import SharedCollections.Proofs.Queue.Signals
import SharedCollections.Proofs.Queue.Clients
import SharedCollections.Proofs.Queue.Handshake
import SharedCollections.Proofs.Map.GetOrInsert
import SharedCollections.Proofs.Map.Placement
import SharedCollections.Proofs.Map.Policy
import SharedCollections.Proofs.Stack.Interleaved
import SharedCollections.Proofs.Stack.Deeds
import SharedCollections.Proofs.Stack.Ranges
import SharedCollections.Proofs.Windows
import SharedCollections.Proofs.Map.Density
import SharedCollections.Proofs.Map.Overflow
import SharedCollections.Proofs.Queue.Tail
import SharedCollections.Proofs.Queue.Survey
import SharedCollections.Proofs.History.Backtracking
import SharedCollections.Proofs.Slot.Handshake
import SharedCollections.Proofs.SingleThread

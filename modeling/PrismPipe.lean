import PrismPipe.Lib.Transition
import PrismPipe.Lib.Table
import PrismPipe.Lib.Program
import PrismPipe.Lib.Crew
import PrismPipe.Lib.Parties
import PrismPipe.Lib.Ranking
import PrismPipe.Lib.Mailbox
import PrismPipe.Lib.Search
import PrismPipe.Lib.Gate
import PrismPipe.Lib.Log
import PrismPipe.Lib.Rotation
import PrismPipe.Lib.Lru
import PrismPipe.Lib.ObjectGraph
import PrismPipe.Lib.TokenBucket
import PrismPipe.Lib.Cursor
import PrismPipe.Lib.Patch
import PrismPipe.Lib.Changes
import PrismPipe.Lib.Forest
import PrismPipe.Lib.Calendar
import PrismPipe.Lib.Numeral
import PrismPipe.Lib.KeyedStore
import PrismPipe.Lib.Quoted
import PrismPipe.Python.Json
import PrismPipe.Python.JsonLaws
import PrismPipe.Python.Reread
import PrismPipe.Python.Similar
import PrismPipe.Python.Datetime
import PrismPipe.Python.Futures
import PrismPipe.Python.FloatRepr
import PrismPipe.Python.Dumps
import PrismPipe.Python.DumpsLaws
import PrismPipe.Core.Kinds
import PrismPipe.Core.Node
import PrismPipe.Core.NodePaths
import PrismPipe.Core.Pipeline
import PrismPipe.Core.Deadline
import PrismPipe.Core.Success
import PrismPipe.Core.Wire
import PrismPipe.Core.Router
import PrismPipe.Core.Plan
import PrismPipe.Core.RateLimiter
import PrismPipe.Core.CircuitBreaker
import PrismPipe.Core.Tenancy
import PrismPipe.Core.Redaction
import PrismPipe.Core.Dna
import PrismPipe.Core.Executor
import PrismPipe.Core.Storage
import PrismPipe.Core.StorageThreads
import PrismPipe.Core.StorageAtomicity
import PrismPipe.Transport.Bus
import PrismPipe.Transport.RedisStreams
import PrismPipe.Transport.Delivery
import PrismPipe.Transport.Acknowledgement
import PrismPipe.Transport.Malformed
import PrismPipe.Transport.InMemory
import PrismPipe.Document.Vectorize
import PrismPipe.Document.Reading
import PrismPipe.Document.VectorizeLaws
import PrismPipe.Document.RoundTrip
import PrismPipe.Document.Operations
import PrismPipe.Document.OperationsLaws
import PrismPipe.Document.Timestamps
import PrismPipe.Document.Processing
import PrismPipe.Document.Workers
import PrismPipe.Document.Loading
import PrismPipe.Document.Fencing
import PrismPipe.Document.Linearizability
import PrismPipe.Document.Outbox
import PrismPipe.Document.OperationRows
import PrismPipe.Document.Desk
import PrismPipe.Document.Poison
import PrismPipe.Document.Isolation
import PrismPipe.Document.Accepted
import PrismPipe.Document.Aliases
import PrismPipe.Document.Validity
import PrismPipe.Document.Limits
import PrismPipe.Document.Checks
import PrismPipe.Document.Totality
import PrismPipe.Document.Backend
import PrismPipe.Document.BackendLaws
import PrismPipe.Document.Persistence
import PrismPipe.Document.Resolution
import PrismPipe.Document.Identity
import PrismPipe.Document.Drain
import PrismPipe.Document.Deliveries
import PrismPipe.Document.Conflicts
import PrismPipe.Document.Retries
import PrismPipe.Document.Permits
import PrismPipe.Engine.StateDict
import PrismPipe.Engine.ComputationGraph
import PrismPipe.Engine.Freshness
import PrismPipe.Engine.FlightLock
import PrismPipe.Engine.Cancellation
import PrismPipe.Engine.Representation
import PrismPipe.Engine.Recency
import PrismPipe.Engine.Organism
import PrismPipe.Engine.TimeSplit
import PrismPipe.Engine.Deduplication
import PrismPipe.Engine.Coalescing
import PrismPipe.Engine.FastPath
import PrismPipe.Engine.Disabled
import PrismPipe.Engine.SemanticCache
import PrismPipe.Engine.Swarm
import PrismPipe.Engine.Routing
import PrismPipe.Engine.Replay
import PrismPipe.Engine.SwarmErrors
import PrismPipe.Engine.SwarmEngine
import PrismPipe.Engine.Streams
import PrismPipe.Engine.Knowledge
import PrismPipe.Engine.Statistics
import PrismPipe.Engine.Unbounded
import PrismPipe.Engine.Snapshots
import PrismPipe.Engine.Executions
import PrismPipe.Engine.DiffEngine
import PrismPipe.Engine.Mutations
import PrismPipe.Engine.Lineage
import PrismPipe.Engine.Ancestry
import PrismPipe.Engine.Hibernation
import PrismPipe.Engine.Waking
import PrismPipe.Engine.IntentPlanner
import PrismPipe.Engine.PartialKnowledge
import PrismPipe.Engine.CapabilityGraph
import PrismPipe.Engine.AncestryTree
import PrismPipe.Engine.DeepiriNodes
import PrismPipe.Cyrex.StageStore
import PrismPipe.Cyrex.StageHash
import PrismPipe.Cyrex.Vectorizer
import PrismPipe.Cyrex.VectorizerLaws

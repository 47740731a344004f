import StigmergicMesh.Library.Dict
import StigmergicMesh.Library.Run
import StigmergicMesh.Library.Tasks
import StigmergicMesh.Library.SlidingWindow
import StigmergicMesh.Library.Commit
import StigmergicMesh.Library.Numeric
import StigmergicMesh.Library.Softmax
import StigmergicMesh.Library.Json
import StigmergicMesh.Library.Differences
import StigmergicMesh.Field.Row
import StigmergicMesh.Field.InMemory
import StigmergicMesh.Field.Consistent
import StigmergicMesh.Field.FiniteMap
import StigmergicMesh.Field.Ranges
import StigmergicMesh.Field.Decay
import StigmergicMesh.Field.Forgetting
import StigmergicMesh.RateLimit.Script
import StigmergicMesh.RateLimit.Admission
import StigmergicMesh.RateLimit.Rejection
import StigmergicMesh.RateLimit.Isolation
import StigmergicMesh.RateLimit.Headers
import StigmergicMesh.RateLimit.Expiry
import StigmergicMesh.RateLimit.Pruning
import StigmergicMesh.Redis.Store
import StigmergicMesh.Redis.Field
import StigmergicMesh.Redis.Effects
import StigmergicMesh.Redis.Interleaving
import StigmergicMesh.Redis.Agreement
import StigmergicMesh.Redis.Replicas
import StigmergicMesh.Redis.Startup
import StigmergicMesh.Redis.Coroutines
import StigmergicMesh.Redis.Ranges
import StigmergicMesh.Redis.Attribution
import StigmergicMesh.Router.Scores
import StigmergicMesh.Router.Route
import StigmergicMesh.Router.Concurrent
import StigmergicMesh.Router.Governance
import StigmergicMesh.Router.WellDefined
import StigmergicMesh.Router.Selection
import StigmergicMesh.Router.Monotone
import StigmergicMesh.Router.Tiers
import StigmergicMesh.Registry.Worker
import StigmergicMesh.Registry.Routing
import StigmergicMesh.Registry.Pruned
import StigmergicMesh.Registry.Discovery
import StigmergicMesh.Registry.Coroutines
import StigmergicMesh.Registry.Windows
import StigmergicMesh.Streaming.Sse
import StigmergicMesh.Streaming.Failures
import StigmergicMesh.Checkpoint.Storage
import StigmergicMesh.Checkpoint.Savers
import StigmergicMesh.Checkpoint.Interrupted
import StigmergicMesh.Checkpoint.Snapshot
import StigmergicMesh.Redis.Hydration
import StigmergicMesh.Checkpoint.Restored
import StigmergicMesh.Field.Hydration
import StigmergicMesh.Redis.Missing
import StigmergicMesh.Library.Registers
import StigmergicMesh.Redis.Timestamps
import StigmergicMesh.Registry.OverRedis
import StigmergicMesh.Registry.Membership
import StigmergicMesh.Registry.Shielding
import StigmergicMesh.Streaming.Credit
import StigmergicMesh.Streaming.Capability
import StigmergicMesh.Streaming.Frames
import StigmergicMesh.Streaming.Velocity
import StigmergicMesh.Library.Generator
import StigmergicMesh.Library.Counted
import StigmergicMesh.Streaming.Closing
import StigmergicMesh.Library.Text
import StigmergicMesh.Worker.Node
import StigmergicMesh.Worker.Vllm
import StigmergicMesh.Worker.Ollama
import StigmergicMesh.Worker.Mock
import StigmergicMesh.Worker.Load
import StigmergicMesh.Auth.Keys
import StigmergicMesh.Router.Temperature
import StigmergicMesh.Router.Neutral
import StigmergicMesh.Metrics.Entropy
import StigmergicMesh.Library.JsonText
import StigmergicMesh.Streaming.Wire
import StigmergicMesh.Worker.RoundTrip
import StigmergicMesh.Library.Accounts
import StigmergicMesh.Library.Projection
import StigmergicMesh.RateLimit.Interleaved
import StigmergicMesh.Auth.Bearer
import StigmergicMesh.Server.Ingress
import StigmergicMesh.Server.Quotas
import StigmergicMesh.Server.Deposits
import StigmergicMesh.Server.Counters
import StigmergicMesh.Server.Startup
import StigmergicMesh.Checkpoint.Writes
import StigmergicMesh.Server.Process
import StigmergicMesh.Server.Restarts
import StigmergicMesh.RateLimit.Answers
import StigmergicMesh.Server.Responses
import StigmergicMesh.Worker.Fleet
import StigmergicMesh.Server.Mesh
import StigmergicMesh.Server.Assembled
import StigmergicMesh.Server.Availability
import StigmergicMesh.Server.Loads

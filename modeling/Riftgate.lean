import Riftgate.Lib.Machine
import Riftgate.Lib.Bytes
import Riftgate.Lib.Words
import Riftgate.Lib.Framing
import Riftgate.Lib.Bucket
import Riftgate.Code.Frame
import Riftgate.Frame
import Riftgate.Code.FileWal
import Riftgate.Code.FileWalThreads
import Riftgate.Reopen
import Riftgate.Durable
import Riftgate.Lifetimes
import Riftgate.Barrier
import Riftgate.Orphans
import Riftgate.Conservation
import Riftgate.FailedAppends
import Riftgate.Code.Router
import Riftgate.Code.Circuit
import Riftgate.Code.CircuitThreads
import Riftgate.Cell
import Riftgate.Breaker
import Riftgate.Deadlock
import Riftgate.ProbeBudget
import Riftgate.Code.Routers
import Riftgate.Code.Hedged
import Riftgate.Automaton
import Riftgate.LateOutcomes
import Riftgate.Routing
import Riftgate.Lib.AliasMethod
import Riftgate.AliasMass
import Riftgate.Lib.Chunks
import Riftgate.Affinity
import Riftgate.Stack
import Riftgate.StalePools
import Riftgate.Code.Capability
import Riftgate.Code.Allowlist
import Riftgate.Attestation
import Riftgate.Code.Proxy
import Riftgate.Handler
import Riftgate.UpstreamUri
import Riftgate.Code.Gateway
import Riftgate.Requests
import Riftgate.Probes
import Riftgate.ClientErrors
import Riftgate.Code.RateLimit
import Riftgate.RateLimit
import Riftgate.Code.Replay
import Riftgate.Dump
import Riftgate.Code.Broker
import Riftgate.Tenants
import Riftgate.Code.Audit
import Riftgate.Audited
import Riftgate.Code.Operator
import Riftgate.OwnedHeaders
import Riftgate.ApiKeys
import Riftgate.SigningKeys
import Riftgate.Lib.Literals
import Riftgate.Literals
import Riftgate.Code.McpParser
import Riftgate.Attested
import Riftgate.Code.RequestIds
import Riftgate.Correlation
import Riftgate.Rendering
import Riftgate.Code.Http1
import Riftgate.Lib.Transducer
import Riftgate.BodyFraming
import Riftgate.HttpEvents
import Riftgate.HopByHop
import Riftgate.Code.Sse
import Riftgate.SseChunks
import Riftgate.SseLines
import Riftgate.Sequential
import Riftgate.RetryAfter
import Riftgate.Lib.Sorted
import Riftgate.Prefixes
import Riftgate.Grants
import Riftgate.Code.Timers
import Riftgate.Timers
import Riftgate.Backlog
import Riftgate.Code.Cancel
import Riftgate.Cancellation
import Riftgate.Code.Scheduler
import Riftgate.Shards
import Riftgate.Shutdown
import Riftgate.Code.Server
import Riftgate.Drain
import Riftgate.Code.Uring
import Riftgate.Arming
import Riftgate.TrieMap
import Riftgate.Code.HedgedThreads
import Riftgate.HedgeBudget
import Riftgate.Markers
import Riftgate.Lib.Rotation
import Riftgate.RoundRobin
import Riftgate.Code.TokenLevel
import Riftgate.Dimensions
import Riftgate.Reservoir
import Riftgate.Code.Dcgm
import Riftgate.Exposition
import Riftgate.Scrape
import Riftgate.PollErrors
import Riftgate.Lib.CasLoop
import Riftgate.Code.RngThreads
import Riftgate.Draws
import Riftgate.Code.ObservedBody
import Riftgate.TerminalSpans
import Riftgate.Code.Bus
import Riftgate.Fanout
import Riftgate.Lib.Settings
import Riftgate.Code.Config
import Riftgate.Layers
import Riftgate.Lib.Runs
import Riftgate.Code.ServerTasks
import Riftgate.Grace
import Riftgate.Isolation
import Riftgate.Code.Signals
import Riftgate.Pressure
import Riftgate.Shipped
import Riftgate.Code.Backpressure
import Riftgate.Hysteresis
import Riftgate.Lib.ShortCircuit
import Riftgate.Code.Filter
import Riftgate.FilterTrees
import Riftgate.ConfigMap
import Riftgate.Lib.Logs
import Riftgate.Code.FileWalCrashes
import Riftgate.Crashes
import Riftgate.Code.SegmentNames
import Riftgate.SegmentNames
import Riftgate.Code.ReplayRuns
import Riftgate.DumpRuns
import Riftgate.Mediation
import Riftgate.Code.KvAwareThreads
import Riftgate.Provenance
import Riftgate.Lib.Cuts
import Riftgate.Code.DcgmHttp
import Riftgate.Exchanges
import Riftgate.Code.Mio
import Riftgate.Registrations
import Riftgate.Code.Reconciler
import Riftgate.Convergence
import Riftgate.Readings
import Riftgate.Lib.Json
import Riftgate.Code.JsonSink
import Riftgate.JsonLines

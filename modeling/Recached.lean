import Recached.Lib.Text
import Recached.Lib.Decimal
import Recached.Lib.Binary64
import Recached.Lib.Lapse
import Recached.Lib.Runs
import Recached.Lib.Traces
import Recached.Lib.Totals
import Recached.Lib.Transducers
import Recached.Lib.SecondaryIndex
import Recached.Lib.Distinct
import Recached.Lib.Windows
import Recached.Lib.Paging
import Recached.Lib.RoundRobin
import Recached.Resp
import Recached.Cmd
import Recached.Parse
import Recached.Json
import Recached.Values
import Recached.Store
import Recached.Execute
import Recached.Propagation
import Recached.Replay
import Recached.Scopes
import Recached.Sync
import Recached.Views
import Recached.Confinement
import Recached.Capacity
import Recached.Refusals
import Recached.Mutation
import Recached.Decoding
import Recached.Frames
import Recached.Effects
import Recached.Simulation
import Recached.Snapshot
import Recached.Replication
import Recached.Stream
import Recached.Promotion
import Recached.Journal
import Recached.TornTail
import Recached.Checkpoints
import Recached.Latch
import Recached.Attempts
import Recached.Changes
import Recached.WriteOrder
import Recached.Boundary
import Recached.Watch
import Recached.Notices
import Recached.Coverage
import Recached.Deadlines
import Recached.Telling
import Recached.Bookkeeping
import Recached.Account
import Recached.Index
import Recached.KeyCap
import Recached.MemoryCap
import Recached.Victims
import Recached.Errors
import Recached.Footprint
import Recached.RoundTrip
import Recached.Outbox
import Recached.Acknowledged
import Recached.CatchUp
import Recached.Cascade
import Recached.LateReplay
import Recached.Logged
import Recached.VictimFrames
import Recached.ScopedPushes
import Recached.Crossings
import Recached.Info
import Recached.Connection
import Recached.Transactions
import Recached.Transparency
import Recached.Taxonomy
import Recached.Streaming
import Recached.Patterns
import Recached.Wrapping
import Recached.ReadLoop
import Recached.Replies
import Recached.Exact
import Recached.Browser
import Recached.Waiters
import Recached.ScoreIndex
import Recached.ScoreRanges
import Recached.Scores
import Recached.Scoring
import Recached.Increments
import Recached.Compact
import Recached.Limiter
import Recached.Fairness
import Recached.Retry
import Recached.Reconfigured
import Recached.OrderedIndex
import Recached.Scanning
import Recached.CollectionScans
import Recached.Sweeping
import Recached.IndexRanges
import Recached.Remaining
import Recached.SetAlgebra
import Recached.JsonPaths
import Recached.Payloads
import Recached.Acks
import Recached.Subscribers
import Recached.Budgets
import Recached.Lib.LockOrder
import Recached.Lib.Base64
import Recached.Stripes
import Recached.StripedOrder
import Recached.SyncTokens
import Recached.Moves
import Recached.Interests
import Recached.Bounded
import Recached.Server
import Recached.Census
import Recached.Unraced
import Recached.ByteStream
import Recached.Gate
import Recached.Hostile
import Recached.Socket

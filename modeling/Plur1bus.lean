import Plur1bus.Program.Exec
import Plur1bus.Program.Linked
import Plur1bus.Approvals.Json
import Plur1bus.Approvals.Chain
import Plur1bus.Approvals.Connection
import Plur1bus.Approvals.Store
import Plur1bus.Grants.Store
import Plur1bus.Approvals.Service
import Plur1bus.Approvals.Coherence
import Plur1bus.Approvals.Ledger
import Plur1bus.Approvals.Tamper
import Plur1bus.Approvals.Guards
import Plur1bus.Approvals.Shared
import Plur1bus.Approvals.Finality
import Plur1bus.Approvals.Replay
import Plur1bus.Approvals.Agreement
import Plur1bus.Approvals.Scopes
import Plur1bus.Policy.Capabilities
import Plur1bus.Policy.Decide
import Plur1bus.Policy.Allow
import Plur1bus.Policy.Monotone
import Plur1bus.Program.Glob
import Plur1bus.Policy.Glob
import Plur1bus.Program.Utf16
import Plur1bus.Policy.Paths
import Plur1bus.Policy.Canonical
import Plur1bus.Program.Lines
import Plur1bus.Program.LineEnds
import Plur1bus.Program.Crash
import Plur1bus.Audit.Chain
import Plur1bus.Audit.Standing
import Plur1bus.Audit.Writing
import Plur1bus.Audit.Recovery
import Plur1bus.Audit.Repair
import Plur1bus.Audit.Reanchor
import Plur1bus.Audit.Inspection
import Plur1bus.Program.Outcome
import Plur1bus.Language
import Plur1bus.Program.Decimal
import Plur1bus.Program.Numbering
import Plur1bus.Board.Store
import Plur1bus.Board.Order
import Plur1bus.Board.Mutations
import Plur1bus.Board.Runs
import Plur1bus.Board.Members
import Plur1bus.Program.Journal
import Plur1bus.Session.Store
import Plur1bus.Session.Transcript
import Plur1bus.Session.Runs
import Plur1bus.Session.Rewinds
import Plur1bus.Collab.Chains
import Plur1bus.Collab.Ends
import Plur1bus.Collab.Slots
import Plur1bus.Collab.Exact
import Plur1bus.Jobs.Model
import Plur1bus.Jobs.Once
import Plur1bus.Role.Model
import Plur1bus.Role.Steps
import Plur1bus.Role.Records
import Plur1bus.Role.Processes
import Plur1bus.Role.Convergence
import Plur1bus.Role.Cluster
import Plur1bus.Program.Runs
import Plur1bus.Program.Utf8
import Plur1bus.Program.Lossy
import Plur1bus.Program.Streaming
import Plur1bus.Program.Triple
import Plur1bus.Providers.Breaker
import Plur1bus.Capture.Journal
import Plur1bus.Capture.Kept
import Plur1bus.Capture.Undisturbed
import Plur1bus.Engine.Lock
import Plur1bus.Engine.Json
import Plur1bus.Engine.Grammar
import Plur1bus.Engine.Reading
import Plur1bus.Engine.Parsing
import Plur1bus.Engine.Codec
import Plur1bus.Engine.Tombstone
import Plur1bus.Engine.Torn
import Plur1bus.Engine.Registry
import Plur1bus.Update.Model
import Plur1bus.Update.Steps
import Plur1bus.Update.Rollback
import Plur1bus.Update.Swap
import Plur1bus.Update.Atomic
import Plur1bus.Update.Daemon
import Plur1bus.Release.Guard
import Plur1bus.Release.Trust
import Plur1bus.Program.FileTree
import Plur1bus.Backup.Restore
import Plur1bus.Backup.Swap
import Plur1bus.Backup.Running
import Plur1bus.Backup.Undo
import Plur1bus.Backup.Whole
import Plur1bus.Backup.Allowed
import Plur1bus.Program.Value
import Plur1bus.Program.Fold
import Plur1bus.Providers.Accumulate
import Plur1bus.Providers.Pieces
import Plur1bus.Providers.Sse
import Plur1bus.Providers.SseReading
import Plur1bus.Providers.SseChunks
import Plur1bus.Providers.Events
import Plur1bus.Providers.Streamed
import Plur1bus.Program.Serial
import Plur1bus.Api.Totp
import Plur1bus.Api.Spent
import Plur1bus.Program.Spelling
import Plur1bus.Net.Address
import Plur1bus.Net.Reading
import Plur1bus.Net.Web
import Plur1bus.Net.OAuth
import Plur1bus.Net.Guard
import Plur1bus.Net.Grammar
import Plur1bus.Net.Literals
import Plur1bus.Net.PublicRange
import Plur1bus.Net.Mirror
import Plur1bus.OAuth.Model
import Plur1bus.OAuth.Families
import Plur1bus.OAuth.Steps
import Plur1bus.OAuth.Runs
import Plur1bus.OAuth.Revocation
import Plur1bus.OAuth.Final
import Plur1bus.Ext.Zip
import Plur1bus.Ext.Names
import Plur1bus.Ext.Pieces
import Plur1bus.Ext.Locals
import Plur1bus.Ext.Safety
import Plur1bus.Ext.Reading
import Plur1bus.Grants.Trees
import Plur1bus.Program.Digraph
import Plur1bus.Program.Dyadic
import Plur1bus.Modules.Graph
import Plur1bus.Modules.Order
import Plur1bus.Program.Occurrence
import Plur1bus.Rbac.Policy
import Plur1bus.Rbac.Authorize
import Plur1bus.Rbac.BreakGlass
import Plur1bus.Rbac.Recorded
import Plur1bus.Recall.Budget
import Plur1bus.Recall.Trim
import Plur1bus.Recall.Plan
import Plur1bus.Program.Upsert
import Plur1bus.A2a.TaskStore
import Plur1bus.A2a.Isolated
import Plur1bus.Recall.Candidate
import Plur1bus.Recall.Dedupe
import Plur1bus.Recall.Distinct
import Plur1bus.Recall.Merge
import Plur1bus.Recall.Merged
import Plur1bus.Engine.Ledger
import Plur1bus.Engine.LedgerTypes
import Plur1bus.Engine.Lossless
import Plur1bus.Session.Compaction
import Plur1bus.Session.Bound
import Plur1bus.Recall.Access
import Plur1bus.Recall.Row
import Plur1bus.Recall.Graph
import Plur1bus.Program.Answers
import Plur1bus.Recall.Stages
import Plur1bus.Recall.Spread
import Plur1bus.Recall.Associative
import Plur1bus.Program.Sums
import Plur1bus.Budget.Retry
import Plur1bus.Budget.Tickets
import Plur1bus.Budget.Accounting
import Plur1bus.Budget.CacheReads
import Plur1bus.Budget.Status
import Plur1bus.Program.Groups
import Plur1bus.Budget.Peer
import Plur1bus.Budget.PeerTotals
import Plur1bus.Budget.PeerCompaction
import Plur1bus.Program.Blocks
import Plur1bus.Program.Calendar
import Plur1bus.Budget.Period
import Plur1bus.Budget.PeriodTiles
import Plur1bus.Supervisor.Backoff
import Plur1bus.Supervisor.BackoffSpec
import Plur1bus.Collab.WorkBudget
import Plur1bus.Collab.WorkBudgetStore
import Plur1bus.Collab.WorkBudgetRun
import Plur1bus.Program.TokenBucket
import Plur1bus.Api.RateLimit
import Plur1bus.Api.RateLimitIdeal
import Plur1bus.Api.RateLimitBound
import Plur1bus.Api.Sessions
import Plur1bus.Api.SessionRoom
import Plur1bus.Api.SessionBook
import Plur1bus.Api.SessionCalls
import Plur1bus.Api.SessionMoves
import Plur1bus.Api.SessionRun
import Plur1bus.Release.Renewal
import Plur1bus.OAuth.Refusal
import Plur1bus.Logs.Lines
import Plur1bus.Logs.Directions
import Plur1bus.Logs.Writer
import Plur1bus.Logs.Account
import Plur1bus.Logs.Records

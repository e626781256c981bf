import Nerve.Adapter.DrainStream
import Nerve.Adapter.RunPrompt
import Nerve.Adapter.Usage
import Nerve.Audit.Appenders
import Nerve.Audit.Authenticity
import Nerve.Audit.KeyModes
import Nerve.Daemon.Control
import Nerve.Daemon.Lifecycle
import Nerve.Daemon.Model
import Nerve.Daemon.Shutdown
import Nerve.Daemon.Steps
import Nerve.Daemon.Stream
import Nerve.Daemon.Task
import Nerve.Library.AtomicReplace
import Nerve.Library.Braces
import Nerve.Library.CriticalSection
import Nerve.Library.Decimal
import Nerve.Library.Dialogue
import Nerve.Library.FileStore
import Nerve.Library.FileTree
import Nerve.Library.Forest
import Nerve.Library.Json
import Nerve.Library.JsonText
import Nerve.Library.JsonWrite
import Nerve.Library.LineDiff
import Nerve.Library.LinkedTree
import Nerve.Library.ProcessTree
import Nerve.Library.Protocol
import Nerve.Library.SExpr
import Nerve.Library.Text
import Nerve.Library.TransitionSystem
import Nerve.Library.TreeMerge
import Nerve.Mcp.Allowlist
import Nerve.Mcp.Model
import Nerve.Mcp.PathRoot
import Nerve.Mcp.Registry
import Nerve.Mcp.Requests
import Nerve.Mcp.Restrictions
import Nerve.Patch.Atomic
import Nerve.Patch.CanonicalHash
import Nerve.Patch.Confinement
import Nerve.Patch.Deletion
import Nerve.Patch.DiffRoundTrip
import Nerve.Patch.Effects
import Nerve.Patch.Model
import Nerve.Patch.NoNewline
import Nerve.Patch.ParseDiff
import Nerve.Patch.ParseSafety
import Nerve.Patch.PathCodec
import Nerve.Patch.Placement
import Nerve.Patch.RenderDiff
import Nerve.Patch.Rollback
import Nerve.Patch.Sections
import Nerve.Patch.UnifiedDiff
import Nerve.Queue.Agreement
import Nerve.Queue.Budgets
import Nerve.Queue.Claiming
import Nerve.Queue.Conservation
import Nerve.Queue.Delivery
import Nerve.Queue.Dispatch
import Nerve.Queue.Exclusion
import Nerve.Queue.Mailbox
import Nerve.Queue.Model
import Nerve.Queue.OnDisk
import Nerve.Queue.Plan
import Nerve.Queue.PlanGuard
import Nerve.Queue.PlanLines
import Nerve.Queue.Reconcile
import Nerve.Queue.Records
import Nerve.Queue.Steps
import Nerve.Review.Floor
import Nerve.Review.Rejection
import Nerve.Review.Stream
import Nerve.Review.Verdict
import Nerve.Rpc.PayloadCap
import Nerve.Rpc.Token
import Nerve.Run.Accounting
import Nerve.Run.ApplyGate
import Nerve.Run.Candidate
import Nerve.Run.CheckConfinement
import Nerve.Run.CheckDeadline
import Nerve.Run.CheckLimits
import Nerve.Run.CheckProgress
import Nerve.Run.Churn
import Nerve.Run.Gate
import Nerve.Run.History
import Nerve.Run.LimitsInForce
import Nerve.Run.Loop
import Nerve.Run.LoopTrace
import Nerve.Run.MergeAttempt
import Nerve.Run.ProgressGuard
import Nerve.Run.ScratchWatcher
import Nerve.Run.Seams
import Nerve.Run.Stages
import Nerve.Sandbox.Bwrap
import Nerve.Sandbox.Decision
import Nerve.Sandbox.Helper
import Nerve.Sandbox.Seatbelt
import Nerve.Session.Budget
import Nerve.Session.BudgetValues
import Nerve.Session.Ceilings
import Nerve.Session.Goal
import Nerve.Session.GoalIntent
import Nerve.Session.Interactive
import Nerve.Session.Provenance
import Nerve.Store.AtomicWrite
import Nerve.Store.Checkpoints
import Nerve.Store.FilePrograms
import Nerve.Store.ForkLock
import Nerve.Store.ForkModel
import Nerve.Store.ForkTree
import Nerve.Store.IndexLock
import Nerve.Store.Listing
import Nerve.Store.Metadata
import Nerve.Store.Model
import Nerve.Store.PatchRecords
import Nerve.Worktree.Agreement
import Nerve.Worktree.Failure
import Nerve.Worktree.Isolator

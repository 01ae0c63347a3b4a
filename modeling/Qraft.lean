import Qraft.Foundations.StepSystem
import Qraft.Foundations.Rows
import Qraft.Foundations.Digraph
import Qraft.Foundations.Depths
import Qraft.Foundations.Sweep
import Qraft.Foundations.LineScan
import Qraft.Foundations.Transaction
import Qraft.Models.Values
import Qraft.Models.Python
import Qraft.Retry
import Qraft.Delay
import Qraft.Models.Tasks
import Qraft.Scheduler
import Qraft.Models.Graphs
import Qraft.Graphs.Plan
import Qraft.Graphs.Topology
import Qraft.Graphs.Transitions
import Qraft.Graphs.Consistency
import Qraft.Graphs.Frontier
import Qraft.Graphs.Status
import Qraft.Graphs.System
import Qraft.Graphs.Generations
import Qraft.Graphs.Resumption
import Qraft.Graphs.Budgets
import Qraft.Foundations.Numeric
import Qraft.Foundations.Replay
import Qraft.Usage.Values
import Qraft.Usage.Pricing
import Qraft.Usage.Currency
import Qraft.Usage.Merge
import Qraft.Usage.Aggregate
import Qraft.Usage.Additivity
import Qraft.Usage.Postgres
import Qraft.Usage.Paths
import Qraft.Usage.Totals
import Qraft.Progress.Report
import Qraft.Progress.System
import Qraft.Progress.Effects
import Qraft.Progress.Fence
import Qraft.Throttle
import Qraft.Graphs.Conclusions
import Qraft.Graphs.Cancellation
import Qraft.Foundations.ClaimOnce
import Qraft.Graphs.Settlement
import Qraft.Graphs.Submission
import Qraft.Graphs.Outbox
import Qraft.Graphs.Delivery
import Qraft.Graphs.Rerouting
import Qraft.Foundations.AttemptHistory
import Qraft.Resolution
import Qraft.Lease
import Qraft.Lifecycle.System
import Qraft.Lifecycle.Coherence
import Qraft.Lifecycle.Operations
import Qraft.Lifecycle.Invariant
import Qraft.Lifecycle.Runs
import Qraft.Lifecycle.WriteOnce
import Qraft.Lifecycle.Messages
import Qraft.Broker.PriorityLanes
import Qraft.Broker.LaneAccounts
import Qraft.Broker.LaneLeases
import Qraft.Execution.Worker
import Qraft.Execution.Bound
import Qraft.Lifecycle.Decisions
import Qraft.Execution.Deadlines
import Qraft.Execution.Outcomes
import Qraft.Execution.Classification
import Qraft.Execution.Arguments
import Qraft.Lifecycle.Dispatch
import Qraft.Lifecycle.DispatchPass
import Qraft.Lifecycle.Reaper
import Qraft.Models.Workflows
import Qraft.Workflows.Chain
import Qraft.Workflows.ChainEffects
import Qraft.Workflows.ChainStages
import Qraft.Workflows.ChainFence
import Qraft.Foundations.InFlight
import Qraft.Workflows.ChainHooks
import Qraft.Workflows.Parallel
import Qraft.Workflows.ParallelEffects
import Qraft.Workflows.ParallelCounts
import Qraft.Workflows.Marker
import Qraft.Lifecycle.Members
import Qraft.Lifecycle.Orderly
import Qraft.Workflows.ParallelSettlement
import Qraft.Workflows.ChainSequence
import Qraft.Lifecycle.Unrouted
import Qraft.Notices.System
import Qraft.Notices.Effects
import Qraft.Notices.Settlement
import Qraft.Notices.Arguments
import Qraft.Workflows.ChainReplay
import Qraft.Workflows.ParallelReplay
import Qraft.Workflows.Rerouting
import Qraft.Notices.Rerouting
import Qraft.Publication.System
import Qraft.Publication.Effects
import Qraft.Publication.Receipts
import Qraft.Publication.Fence
import Qraft.Publication.Routing
import Qraft.Publication.Authority
import Qraft.Publication.Agreement
import Qraft.Enqueue.AsyncTask
import Qraft.Enqueue.System
import Qraft.Enqueue.Effects
import Qraft.Enqueue.Idempotency
import Qraft.Enqueue.WholeCall
import Qraft.Enqueue.Subject
import Qraft.Retention.Sweep
import Qraft.Retention.Window
import Qraft.Retention.System
import Qraft.Retention.Live
import Qraft.Foundations.Decimal
import Qraft.Foundations.DecimalText
import Qraft.Foundations.Binary64
import Qraft.Foundations.Progress
import Qraft.Execution.ThreadedWorker
import Qraft.Execution.ThreadedRuns
import Qraft.Execution.ThreadedDrain
import Qraft.Execution.ThreadedTimer
import Qraft.Foundations.Rekeyed
import Qraft.Settings.Overlay
import Qraft.Broker.Resolution
import Qraft.Broker.ForCluster
import Qraft.Broker.BuildLock
import Qraft.Broker.OneBroker
import Qraft.Settings.RetryStorage
import Qraft.Lifecycle.DispatchTiming
import Qraft.Foundations.Cascade
import Qraft.Graphs.Evaluation
import Qraft.Graphs.Completion
import Qraft.Foundations.Stages
import Qraft.Workflows.ChainProgram
import Qraft.Broker.LaneScans
import Qraft.Foundations.Binary64Order

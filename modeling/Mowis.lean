import Mowis.Agent.CheckpointIds
import Mowis.Agent.Knowledge
import Mowis.Channels.Interleaving
import Mowis.Containers.ApplyDiff
import Mowis.Containers.Checkpoint
import Mowis.Desktop.BuildRecord
import Mowis.Desktop.Isolation
import Mowis.Desktop.OnDisk
import Mowis.Desktop.Visible
import Mowis.Desktop.Workspaces
import Mowis.Executor.Integrity
import Mowis.Executor.Overlays
import Mowis.Executor.Upload
import Mowis.Export.Faithful
import Mowis.Host.Cpio
import Mowis.Hub.Deadlock
import Mowis.MergeWorker.Order
import Mowis.MergeWorker.Pairwise
import Mowis.Merging.Coverage
import Mowis.Orchestration.Agreement
import Mowis.Orchestration.Filters
import Mowis.Orchestration.Merger
import Mowis.Orchestration.ToolBudget
import Mowis.Overlay.Merge
import Mowis.Persistence.Audit
import Mowis.Persistence.Checkpointer
import Mowis.Planner.Executable
import Mowis.Planner.Shapes
import Mowis.Planning.Digest
import Mowis.Planning.Exclusive
import Mowis.Planning.Partition
import Mowis.Planning.ShownRun
import Mowis.Planning.Stripping
import Mowis.Planning.Versions
import Mowis.Planning.WrittenPlan
import Mowis.Pool.Breaker
import Mowis.Pool.ChangedFiles
import Mowis.Pool.Resources
import Mowis.Pool.StatsLoop
import Mowis.Pool.Visibility
import Mowis.Review.Clash
import Mowis.Review.Counters
import Mowis.Review.Decided
import Mowis.Routing.Growth
import Mowis.Routing.Patterns
import Mowis.Runtime.Kept
import Mowis.Sandboxes.Ids
import Mowis.Sandboxes.Spawn
import Mowis.Scheduling.Interleaving
import Mowis.Scheduling.Outcome
import Mowis.Scheduling.Retry
import Mowis.Shell.Interactive
import Mowis.Shell.Mapping
import Mowis.Staging.Build
import Mowis.Streaming.Retry
import Mowis.Streaming.Rounds
import Mowis.Tools.Isolation
import Mowis.Tools.Query
import Mowis.Tools.Tables
import Mowis.Topology.Containers
import Mowis.Topology.Fallback
import Mowis.Topology.Normalize
import Mowis.Topology.Wake
import Mowis.Transport.Callers
import Mowis.Transport.Retries
import Mowis.Tui.StripAnsi
import Mowis.Verification.ExecuteVf

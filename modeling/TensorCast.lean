import TensorCast.Authority.Completeness
import TensorCast.Authority.Conservation
import TensorCast.Authority.Protection
import TensorCast.Authority.Sessions
import TensorCast.Authority.Versions
import TensorCast.Binding.Retention
import TensorCast.Flow.CompletionTracker
import TensorCast.Flow.Grants
import TensorCast.GlobalStore.Idempotency
import TensorCast.GlobalStore.MemoryTierLease
import TensorCast.GlobalStore.OperationLease
import TensorCast.GlobalStore.Placement
import TensorCast.GlobalStore.StateChecksum
import TensorCast.Handles.Exports
import TensorCast.Lifecycle.Guards
import TensorCast.Memory.Slots
import TensorCast.Persistence.TaskLog
import TensorCast.Pump.Transfer
import TensorCast.Reducer.Progress
import TensorCast.Regions.Quiesce
import TensorCast.Retention.Dominance
import TensorCast.Sessions.Accounting
import TensorCast.Sessions.References
import TensorCast.Sessions.Renewal
import TensorCast.Sessions.Watches
import TensorCast.Source.DirectWriteSpec
import TensorCast.Source.Mux
import TensorCast.Store.ReplicaRegistry
import TensorCast.View.PlanSource
import TensorCast.View.Shards
import TensorCast.Window.Delivery

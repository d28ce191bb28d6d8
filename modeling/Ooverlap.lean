import Ooverlap.Api.RankPartition
import Ooverlap.Broker.Exchange
import Ooverlap.Distribution.SameProcess
import Ooverlap.Distribution.SlotOutcome
import Ooverlap.Fast.Protocols
import Ooverlap.Kernel.BarrierHistory
import Ooverlap.Kernel.CopyOrder
import Ooverlap.Kernel.EntryRendezvous
import Ooverlap.Kernel.FastCopy
import Ooverlap.Kernel.TaskCoverage
import Ooverlap.Launch.FailedCalls
import Ooverlap.Launch.KernelPaths
import Ooverlap.Launch.RecentKeys
import Ooverlap.Lowering.Agreement
import Ooverlap.Lowering.Outcome
import Ooverlap.Lowering.Packing
import Ooverlap.Overlap.IndexSafety
import Ooverlap.Overlap.ReorderRmsnorm
import Ooverlap.Overlap.SignalRing
import Ooverlap.Pipeline.ReadyGate
import Ooverlap.Pipeline.SignalledWindows
import Ooverlap.Plan.AllReduceTopologies
import Ooverlap.Plan.BarrierInsertion
import Ooverlap.Plan.Components
import Ooverlap.Plan.FanoutCoalescing
import Ooverlap.Plan.StagingSlots
import Ooverlap.Plan.TransportSoundness
import Ooverlap.Semantics.AllGatherDelivery
import Ooverlap.Semantics.AllGatherIslandSlices
import Ooverlap.Semantics.AllReduceIslandSums
import Ooverlap.Semantics.AllReduceSums
import Ooverlap.Semantics.ReduceScatterIslandSums
import Ooverlap.Torch.SlotDiscipline
import Ooverlap.Tuning.ReorderMap
import Ooverlap.Tuning.Selection

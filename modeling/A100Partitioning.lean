import A100Partitioning.Support.Bitfield
import A100Partitioning.Support.RadixTable
import A100Partitioning.Nvdebug.Machine
import A100Partitioning.Nvdebug.Bus
import A100Partitioning.Nvdebug.PageFormat
import A100Partitioning.Nvdebug.Deref
import A100Partitioning.Nvdebug.Translate
import A100Partitioning.Nvdebug.Search
import A100Partitioning.Nvdebug.PageTableV1
import A100Partitioning.Nvdebug.ReverseTranslation
import A100Partitioning.Nvdebug.SearchBounds
import A100Partitioning.Nvdebug.Ctxsw
import A100Partitioning.Nvdebug.TranslationErrors
import A100Partitioning.Nvdebug.Map
import A100Partitioning.Nvdebug.MapStep
import A100Partitioning.Nvdebug.MapFrame
import A100Partitioning.Nvdebug.MapEffect
import A100Partitioning.Nvdebug.MapVerdict
import A100Partitioning.Nvdebug.MapRuns
import A100Partitioning.Nvdebug.Gc
import A100Partitioning.Nvdebug.GcRuns
import A100Partitioning.Nvdebug.MapAccount
import A100Partitioning.Support.CyclicBarrier
import A100Partitioning.Support.Words
import A100Partitioning.Support.Numerals
import A100Partitioning.Barrier.BarrierWait
import A100Partitioning.MaskSwap.RunRole
import A100Partitioning.MaskSwap.Swap
import A100Partitioning.Libsmctrl.Callback
import A100Partitioning.Libsmctrl.Process
import A100Partitioning.Support.ByteMemory
import A100Partitioning.Libsmctrl.StreamLayout
import A100Partitioning.Libsmctrl.Scopes
import A100Partitioning.Libsmctrl.Setup
import A100Partitioning.Nvtaskset.Launch
import A100Partitioning.Nvtaskset.MaskArgument
import A100Partitioning.Nvtaskset.ParseList
import A100Partitioning.Nvtaskset.ArgParser
import A100Partitioning.Nvtaskset.OptionOrder
import A100Partitioning.Nvtaskset.ComposeList
import A100Partitioning.Nvtaskset.ComposeBuffer
import A100Partitioning.Nvtaskset.GpcList
import A100Partitioning.Support.SetBits
import A100Partitioning.Libsmctrl.GpcInfo
import A100Partitioning.Libsmctrl.GpcAccess
import A100Partitioning.Support.RowScan
import A100Partitioning.Nvdebug.Ptop
import A100Partitioning.Support.SeqFile
import A100Partitioning.Nvdebug.DeviceInfo
import A100Partitioning.Nvdebug.Runlist
import A100Partitioning.Nvdebug.RunlistShow
import A100Partitioning.Nvdebug.RunlistWalks
import A100Partitioning.Nvdebug.RunlistNesting
import A100Partitioning.Nvdebug.WindowFailures
import A100Partitioning.Support.SharedCells
import A100Partitioning.Nvdebug.CopyTopology
import A100Partitioning.Nvdebug.LceTable
import A100Partitioning.Nvdebug.SeqReaders
import A100Partitioning.Support.Registry
import A100Partitioning.Support.Keeps
import A100Partitioning.Support.Checks
import A100Partitioning.Support.WriteLog
import A100Partitioning.Support.RoundRobin
import A100Partitioning.Nvdebug.Init
import A100Partitioning.Nvdebug.InitErrors
import A100Partitioning.Nvdebug.Probe
import A100Partitioning.Nvdebug.InitRuns
import A100Partitioning.Nvdebug.WindowMoves
import A100Partitioning.Nvdebug.WindowRestore
import A100Partitioning.Nvdebug.ShowAgain
import A100Partitioning.Nvdebug.Channels
import A100Partitioning.Nvdebug.SwitchToTsg
import A100Partitioning.Nvdebug.ChannelWrites
import A100Partitioning.Nvdebug.RunlistFiles
import A100Partitioning.Nvdebug.ControlWrites
import A100Partitioning.Nvdebug.RunlistOps
import A100Partitioning.Nvdebug.CtxswBlock
import A100Partitioning.Nvdebug.PreemptionMode
import A100Partitioning.Nvdebug.MapMem
import A100Partitioning.Support.BoundedCounter
import A100Partitioning.Support.Ledger
import A100Partitioning.StreamAction.Actions
import A100Partitioning.StreamAction.Accounts
import A100Partitioning.StreamAction.Balance
import A100Partitioning.Support.Json
import A100Partitioning.Support.JsonPieces
import A100Partitioning.TaskHost.OutputLog
import A100Partitioning.TaskHost.Strings
import A100Partitioning.TaskHost.SanitizeBuffer
import A100Partitioning.Config.CJson
import A100Partitioning.Config.Dims
import A100Partitioning.Config.ParseConfiguration
import A100Partitioning.Config.KnownKeys
import A100Partitioning.Config.CJsonText
import A100Partitioning.Config.CJsonParser
import A100Partitioning.Config.CJsonRoundTrip
import A100Partitioning.Runner.ConfigFile
import A100Partitioning.Runner.Main
import A100Partitioning.TaskHost.LogFileName
import A100Partitioning.TaskHost.CpuAssignment
import A100Partitioning.TaskHost.GlobalTimer
import A100Partitioning.Microbench.PreemptionLogger
import A100Partitioning.Support.OneCycle
import A100Partitioning.Benchmarks.RandomWalk
import A100Partitioning.Support.Tokens
import A100Partitioning.Support.CheckedRuns
import A100Partitioning.Demos.RangeLists
import A100Partitioning.Demos.SmPlacement
import A100Partitioning.Demos.SliceKernel
import A100Partitioning.Demos.SlicedGemm
import A100Partitioning.Benchmarks.MatrixMultiply
import A100Partitioning.Benchmarks.BlocksBySm
import A100Partitioning.Demos.GemmSizes
import A100Partitioning.TaskHost.WellFormed
import A100Partitioning.TaskHost.RunBenchmark
import A100Partitioning.TaskHost.Deadlock
import A100Partitioning.TaskHost.SyncedRuns
import A100Partitioning.TaskHost.ClockSync
import A100Partitioning.TaskHost.MissingTasks
import A100Partitioning.TaskHost.RunAsThreads
import A100Partitioning.TaskHost.RunAsProcesses
import A100Partitioning.Benchmarks.Multikernel
import A100Partitioning.TaskHost.HostResources

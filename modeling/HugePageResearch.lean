import HugePageResearch.Python.Text
import HugePageResearch.Python.Numbers
import HugePageResearch.Python.Lines
import HugePageResearch.Python.Regex
import HugePageResearch.Python.Dict
import HugePageResearch.Library.Lists
import HugePageResearch.Library.Sorts
import HugePageResearch.Library.Run
import HugePageResearch.Library.BitFile
import HugePageResearch.Library.WordBytes
import HugePageResearch.Library.Chains
import HugePageResearch.Library.Paced
import HugePageResearch.Library.Distinct
import HugePageResearch.Library.Latest
import HugePageResearch.Library.Hash
import HugePageResearch.Library.FirstLeast
import HugePageResearch.Library.Groups
import HugePageResearch.Library.Steps
import HugePageResearch.Library.Fill
import HugePageResearch.Library.FirstDistinct
import HugePageResearch.Polars.Frame
import HugePageResearch.Polars.Expressions
import HugePageResearch.Polars.Joins
import HugePageResearch.Replay.Monitor
import HugePageResearch.Replay.Breakpoints
import HugePageResearch.Replay.Combinations
import HugePageResearch.Replay.Replayer
import HugePageResearch.Replay.Tallies
import HugePageResearch.Replay.Counting
import HugePageResearch.Replay.SplitThp
import HugePageResearch.Replay.KernelSplits
import HugePageResearch.Replay.Tunables
import HugePageResearch.Collect.Polling
import HugePageResearch.Collect.Output
import HugePageResearch.Collect.Session
import HugePageResearch.Collect.Delivery
import HugePageResearch.Collect.Ending
import HugePageResearch.Schema.ChunkFile
import HugePageResearch.Schema.FromData
import HugePageResearch.Schema.RunLayout
import HugePageResearch.Schema.Provenance
import HugePageResearch.Analysis.Loaders
import HugePageResearch.Analysis.Harness
import HugePageResearch.Analysis.Processed
import HugePageResearch.Analysis.ScanRows
import HugePageResearch.Analysis.Counters
import HugePageResearch.Analysis.SystemContext
import HugePageResearch.Analysis.CompactionEvents
import HugePageResearch.Collect.RedisCleaner
import HugePageResearch.Thp.Smaps
import HugePageResearch.Thp.ProcSmaps
import HugePageResearch.Thp.InterventionHook
import HugePageResearch.Analysis.Matching
import HugePageResearch.Analysis.Controls
import HugePageResearch.Analysis.Nearest
import HugePageResearch.Thp.Splits
import HugePageResearch.Thp.Timeline
import HugePageResearch.Thp.Ages
import HugePageResearch.Thp.Histories
import HugePageResearch.Analysis.AgeBuckets
import HugePageResearch.Thp.CollapseHook
import HugePageResearch.Thp.CollapsePairs
import HugePageResearch.Thp.SyscallTrace
import HugePageResearch.Thp.Madvise
import HugePageResearch.Pages.PageAccess
import HugePageResearch.Pages.Tracking
import HugePageResearch.Pages.IdleAccesses
import HugePageResearch.Pages.Compound
import HugePageResearch.Pages.WordRuns
import HugePageResearch.Pages.VAPtrHook
import HugePageResearch.Fstore.Store
import HugePageResearch.Fstore.Accounting
import HugePageResearch.Fstore.Isolation
import HugePageResearch.Fstore.ArrayAccess
import HugePageResearch.Fstore.Concurrent
import HugePageResearch.BlkIo.Queue
import HugePageResearch.BlkIo.Merge
import HugePageResearch.BlkIo.Pairing
import HugePageResearch.Sched.Quanta
import HugePageResearch.Cbmm.Decide
import HugePageResearch.ProcessTrace.TaskIds
import HugePageResearch.ProcessTrace.Lifetimes
import HugePageResearch.ProcessTrace.ResidentSet
import HugePageResearch.Config.Merge
import HugePageResearch.Config.Paths
import HugePageResearch.Perf.Scaling
import HugePageResearch.Perf.Totals
import HugePageResearch.Perf.Config
import HugePageResearch.Benchmark.YcsbKeys
import HugePageResearch.Zswap.Runtime
import HugePageResearch.Fstore.MapNames
import HugePageResearch.Pages.Heads
import HugePageResearch.Pages.PresentPfns
import HugePageResearch.Pages.KpageflagsBatch
import HugePageResearch.Pages.VaptrReply
import HugePageResearch.Library.Weighted
import HugePageResearch.Thp.Stratified
import HugePageResearch.Collect.Readback
import HugePageResearch.Library.Script
import HugePageResearch.Benchmark.Ycsb
import HugePageResearch.Benchmark.Phases
import HugePageResearch.Benchmark.Servers
import HugePageResearch.Library.Probes
import HugePageResearch.ProcessTrace.RssStat
import HugePageResearch.Proc.Maps
import HugePageResearch.Proc.CompareMaps
import HugePageResearch.Proc.Counters
import HugePageResearch.Zswap.RemoteRunner
import HugePageResearch.Zswap.Experiments
import HugePageResearch.Library.Clock
import HugePageResearch.Zswap.Timeouts
import HugePageResearch.Library.Outside
import HugePageResearch.Replay.Restore
import HugePageResearch.Replay.Lifecycle
import HugePageResearch.Replay.Results
import HugePageResearch.Replay.Waits

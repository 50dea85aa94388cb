import Evobench.Library.Program
import Evobench.Library.Interleaving
import Evobench.Library.Brackets
import Evobench.Library.FirstMinimum
import Evobench.Library.Combination
import Evobench.Library.Lines
import Evobench.Library.NewestFirst
import Evobench.Library.Paths
import Evobench.Library.SortedMap
import Evobench.Library.Utf8
import Evobench.Library.JsonString
import Evobench.Library.LastMaximum
import Evobench.Git.ClosestAncestor
import Evobench.Git.GraphData
import Evobench.IoUtils.System
import Evobench.Probes.JsPrint
import Evobench.StatsTables.Stats
import Evobench.StatsTables.FromValues
import Evobench.Evaluator.LogMessage
import Evobench.Evaluator.LogDataTree
import Evobench.Evaluator.CallForest
import Evobench.Evaluator.FromLogdata
import Evobench.Evaluator.Acceptance
import Evobench.Evaluator.Forest
import Evobench.Evaluator.LogData
import Evobench.Evaluator.ReadFile
import Evobench.Evaluator.ChunkedReading
import Evobench.Evaluator.IndexByCallPath
import Evobench.Evaluator.AllFieldsTable
import Evobench.Evaluator.Evaluation
import Evobench.KeyValFs.KeyVal
import Evobench.KeyValFs.TimeKey
import Evobench.KeyValFs.Queue
import Evobench.KeyValFs.Interference
import Evobench.SerdeTypes.Priority
import Evobench.SerdeTypes.DateAndTime
import Evobench.DateAndTime.TimeRanges
import Evobench.Run.OsString
import Evobench.Run.Config
import Evobench.Run.BenchmarkingJob
import Evobench.Run.CustomParameters
import Evobench.Run.GitHash
import Evobench.Run.OutputDirectory
import Evobench.Run.OutputPaths
import Evobench.Run.RunQueue
import Evobench.Run.RunQueues
import Evobench.Run.JobLife
import Evobench.Run.QueueScan
import Evobench.Run.DaemonLoop
import Evobench.Run.WorkingDirectories
import Evobench.Run.InsertJobs
import Evobench.Run.InsertRace
import Evobench.Run.Choice
import Evobench.Run.StatusAgreement
import Evobench.Run.StopStart
import Evobench.Run.Alternation
import Evobench.Run.TimeWindows
import Evobench.Run.WorkingDirectoryPool
import Evobench.Run.VersionedDatasetDir
import Evobench.Run.Migrate
import Evobench.Run.PoolAllocation
import Evobench.Run.LeastRecentlyUsed
import Evobench.Run.ProcessInDirectory
import Evobench.Run.PoolOnDisk
import Evobench.Library.RelyGuarantee
import Evobench.IoUtils.OpenFiles
import Evobench.KeyValFs.SharedTable
import Evobench.KeyValFs.CrashSafety
import Evobench.KeyValFs.Items
import Evobench.KeyValFs.ExclusiveDelivery
import Evobench.Library.Windows
import Evobench.DateAndTime.NextWindow
import Evobench.DateAndTime.FromStr
import Evobench.Run.RunnableWindows
import Evobench.Library.FixedWidth
import Evobench.SerdeTypes.Rfc3339
import Evobench.Run.StandardLogPaths
import Evobench.Library.Transfer
import Evobench.Run.HandleTimeout
import Evobench.Run.ConfigFile
import Evobench.Run.ConfigReload
import Evobench.StatsTables.Repetition
import Evobench.StatsTables.MedianAndTiles
import Evobench.Library.PrefixCode
import Evobench.Library.CompactJson
import Evobench.Utillib.NdjsonPipe
import Evobench.Utillib.CleanupMessage
import Evobench.Utillib.CleanupDaemon
import Evobench.Utillib.WhatIsLeft
import Evobench.Library.Rounding
import Evobench.Library.Binary64
import Evobench.StatsTables.TilePlaces
import Evobench.StatsTables.Overflow
import Evobench.Library.Decimal
import Evobench.Times.Arithmetic
import Evobench.Times.Display
import Evobench.Library.MergeJoin
import Evobench.Join
import Evobench.Library.Split
import Evobench.Library.PathTree
import Evobench.Util.Tree
import Evobench.Evaluator.FlameGraph
import Evobench.Library.DepthFirst
import Evobench.Git.History
import Evobench.Git.FromCommits
import Evobench.Run.ParameterSegments
import Evobench.Evaluator.CallChain
import Evobench.Evaluator.Grouping
import Evobench.Library.HalfUp
import Evobench.Library.FloatValue
import Evobench.Library.FloatText
import Evobench.StatsTables.StatsField
import Evobench.Library.TwoAscents
import Evobench.Join.OutOfOrder
import Evobench.Evaluator.SummaryStats
import Evobench.Evaluator.CompleteSummary
import Evobench.Silo.Query
import Evobench.Silo.NormalForm
import Evobench.Library.ShellWords
import Evobench.IoUtils.Bash
import Evobench.Library.ChildLists
import Evobench.Evaluator.ChildLinks
import Evobench.StatsTables.WeightedIndex
import Evobench.OutputTable.Terminal
import Evobench.Run.CommandLogFile
import Evobench.Util.GrepDiff
import Evobench.KeyValFs.FileNames
import Evobench.KeyValFs.WaitForEntries
import Evobench.Probes.ScopeEveryN
import Evobench.Library.Json
import Evobench.Evaluator.MessageJson
import Evobench.Probes.Records
import Evobench.Probes.Buffers
import Evobench.Probes.OutputFile
import Evobench.Probes.LogFile
import Evobench.IoUtils.OutputCaptureLog
import Evobench.Run.CapturedLog
import Evobench.Run.CommitTags
import Evobench.Run.BenchmarkCommand

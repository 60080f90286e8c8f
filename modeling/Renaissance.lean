import Renaissance.Lib.JavaInt
import Renaissance.Lib.JavaDouble
import Renaissance.Lib.JavaCollections
import Renaissance.Lib.Fallible
import Renaissance.Lib.JavaString
import Renaissance.Lib.UnixPath
import Renaissance.Lib.FileSystem
import Renaissance.Lib.JavaStreams
import Renaissance.Lib.Reactors
import Renaissance.Lib.Exec
import Renaissance.Lib.Script
import Renaissance.Lib.Ensures
import Renaissance.Lib.Pairing
import Renaissance.Lib.Transition
import Renaissance.Lib.ForkJoin
import Renaissance.Lib.Clustering
import Renaissance.Lib.LineFilling
import Renaissance.Lib.Rewriting
import Renaissance.Lib.StreakSearch
import Renaissance.Lib.Program
import Renaissance.Lib.Propositional
import Renaissance.Lib.BinaryHeap
import Renaissance.Lib.WhileLoop
import Renaissance.Lib.Clauses
import Renaissance.Lib.ImplicationGraph
import Renaissance.Lib.DelimitedText
import Renaissance.Lib.DecimalNumber
import Renaissance.Lib.JavaFormat
import Renaissance.Build.AssemblyEntries
import Renaissance.Build.BenchmarkInfo
import Renaissance.Build.KebabCase
import Renaissance.Build.Tasks
import Renaissance.Core.ModuleLoader
import Renaissance.Core.BenchmarkDescriptor
import Renaissance.Core.CsvRows
import Renaissance.Core.Version
import Renaissance.Core.BenchmarkSuite
import Renaissance.Core.VersionOrder
import Renaissance.Core.VersionFormat
import Renaissance.Harness.Plugin
import Renaissance.Harness.EventDispatcher
import Renaissance.Harness.ExecutionPolicies
import Renaissance.Harness.ResultWriter
import Renaissance.Harness.World
import Renaissance.Harness.Notify
import Renaissance.Harness.ExecutionDriver
import Renaissance.Harness.RenaissanceSuite
import Renaissance.Harness.Config
import Renaissance.Core.Launcher
import Renaissance.Core.LauncherMain
import Renaissance.Harness.PluginLoading
import Renaissance.Harness.PolicyOptions
import Renaissance.Harness.Traversal
import Renaissance.Harness.Events
import Renaissance.Harness.Wrapping
import Renaissance.Harness.DriverTrace
import Renaissance.Harness.BenchmarkNesting
import Renaissance.Harness.OperationPairing
import Renaissance.Harness.CollectedResults
import Renaissance.Harness.ResultTables
import Renaissance.Harness.WriterRuns
import Renaissance.Harness.ResultRuns
import Renaissance.Harness.SanityCheck
import Renaissance.Harness.Repetition
import Renaissance.Harness.PolicyReset
import Renaissance.Harness.Attempts
import Renaissance.Harness.SuiteAccount
import Renaissance.Harness.SelectedBenchmarks
import Renaissance.Harness.BenchmarkLists
import Renaissance.Harness.FoldText
import Renaissance.Harness.SettingReaders
import Renaissance.Harness.VmStart
import Renaissance.ScalaStm.RealityShowPhilosophers
import Renaissance.ScalaStm.ForkOwners
import Renaissance.ScalaStm.CameraImages
import Renaissance.ActorsReactors.BigBench
import Renaissance.ActorsReactors.BigBenchRuns
import Renaissance.ActorsReactors.Fibonacci
import Renaissance.ActorsReactors.PingPong
import Renaissance.ActorsReactors.ThreadRing
import Renaissance.Http4k.WorkloadClient
import Renaissance.Http4k.WorkloadBalance
import Renaissance.Http4k.WorkloadServer
import Renaissance.Http4k.ServedProducts
import Renaissance.JdkConcurrent.JavaKMeans
import Renaissance.JdkConcurrent.ForkThreshold
import Renaissance.JdkConcurrent.JavaJenetics
import Renaissance.JdkStreams.MnemonicsCoder
import Renaissance.JdkStreams.JavaScrabble
import Renaissance.Rx.RxScrabble
import Renaissance.ApacheSpark.PageRank
import Renaissance.ApacheSpark.GaussMix
import Renaissance.Finagle.FinagleChirper
import Renaissance.Finagle.FeedBuffer
import Renaissance.Finagle.ChirperStatistics
import Renaissance.ScalaStdlib.ScalaKmeans
import Renaissance.ScalaSat.ScalaDoku
import Renaissance.ScalaSat.SudokuEncoding
import Renaissance.ScalaSat.FixedIntDoublePriorityQueue
import Renaissance.ScalaSat.QueueOperations
import Renaissance.ScalaSat.QueueRuns
import Renaissance.ScalaSat.SatSolver
import Renaissance.ScalaSat.SatInvariant
import Renaissance.ScalaSat.Propagation
import Renaissance.ScalaSat.ConflictAnalysis
import Renaissance.ScalaSat.LearntClauses
import Renaissance.ScalaSat.Backtracking
import Renaissance.ScalaSat.SatSearch
import Renaissance.ScalaSat.InitClauses
import Renaissance.ScalaSat.SatSessions
import Renaissance.ScalaSat.Formulas
import Renaissance.ScalaSat.Simplification
import Renaissance.ScalaSat.ConjunctiveNormalForm
import Renaissance.ScalaSat.FormulaSolver
import Renaissance.ScalaSat.SudokuSolver

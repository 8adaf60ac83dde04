import MyOS.Lib.Ring
import MyOS.Lib.Run
import MyOS.Lib.Chain
import MyOS.Param
import MyOS.KallocModel
import MyOS.KallocPreemption
import MyOS.KallocPreemptionSafety
import MyOS.TrapMachine
import MyOS.TrapUserContext
import MyOS.TrapRoundTrip
import MyOS.KernelVector
import MyOS.ProcTable
import MyOS.KernelThreads
import MyOS.KernelThreadLocks
import MyOS.KernelThreadSteps
import MyOS.InterruptState
import MyOS.KernelTraps
import MyOS.ProcMachine
import MyOS.ProcScheduling
import MyOS.ProcSchedulingSteps
import MyOS.ProcSchedulingRuns
import MyOS.ProcSchedulingAdvance
import MyOS.ProcTableStep
import MyOS.ProcExit
import MyOS.ProcParent
import MyOS.VirtioDisk
import MyOS.VirtioInvariant
import MyOS.VirtioSteps
import MyOS.PipeMachine
import MyOS.PipeHistory
import MyOS.PipeChannel
import MyOS.PipeWakeups
import MyOS.PipeCreation
import MyOS.PipeAtomicity
import MyOS.VirtioProtocol
import MyOS.BufferCache
import MyOS.BufferCacheInvariant
import MyOS.BufferCacheUse
import MyOS.BufferCacheRequests
import MyOS.BufferCacheCoherence
import MyOS.Directory
import MyOS.FileCalls
import MyOS.FileDiscipline
import MyOS.FileIdentity
import MyOS.VolumeRoutines
import MyOS.HartIdentity
import MyOS.UserConfinement
import MyOS.PipeFilesRuns
import MyOS.DirectoryVolume
import MyOS.DiskImage
import MyOS.PathResolution
import MyOS.WorkingDirectory
import MyOS.ShellDirectory
import MyOS.DirectoryTree
import MyOS.FileOpen
import MyOS.OpenAtomicity
import MyOS.FileWriting
import MyOS.FileSanity
import MyOS.FileContents
import MyOS.FileAppending
import MyOS.FileSeeking
import MyOS.Lib.RadixTree
import MyOS.PageTree
import MyOS.PageMapping
import MyOS.PageRoutines
import MyOS.PageUnmapping
import MyOS.PageMap
import MyOS.PageGrowth
import MyOS.UserMemory
import MyOS.ProcSpace
import MyOS.Sbrk
import MyOS.KernelMappings
import MyOS.PageBytes
import MyOS.PageLayout
import MyOS.ExecImage
import MyOS.ExecSegments
import MyOS.ExecOutline
import MyOS.ExecRefinement
import MyOS.ForkCopy
import MyOS.ForkRoutines
import MyOS.Fork
import MyOS.ForkOutcome
import MyOS.ForkClones
import MyOS.PipeReads
import MyOS.Lib.LineEditing
import MyOS.ShellEditor
import MyOS.ShellEditorRefinement
import MyOS.ShellPipeline
import MyOS.ShellPipelineLeaks
import MyOS.Stdio
import MyOS.StdioOrder
import MyOS.ShellGrammar
import MyOS.ShellTokens
import MyOS.ShellStages
import MyOS.ShellDispatch
import MyOS.BuildFile
import MyOS.Lib.Framing
import MyOS.BuildSignature
import MyOS.BuildSignatureInputs
import MyOS.Lib.CompletionOrder
import MyOS.BuildSchedule
import MyOS.BuildScheduleOrder
import MyOS.BuildScheduleRuns
import MyOS.Lib.Extents
import MyOS.Lib.ExtentRing
import MyOS.LibcHeap
import MyOS.LibcHeapList
import MyOS.LibcHeapCalls
import MyOS.LibcHeapTake
import MyOS.LibcHeapGrowth
import MyOS.LibcHeapLive
import MyOS.LibcHeapRuns
import MyOS.LibcHeapIntact
import MyOS.LibcPrintf
import MyOS.LibcPrintfRendering
import MyOS.LibcPrintfStreams
import MyOS.LibcEnvironment
import MyOS.LibcEnvironmentMap
import MyOS.LibcEnvironmentRuns
import MyOS.Lib.Lifetimes
import MyOS.Lib.BufferOwners
import MyOS.CxxVector
import MyOS.CxxVectorMembers
import MyOS.CxxVectorBalance
import MyOS.CxxVectorRuns
import MyOS.CxxString
import MyOS.CxxStringMembers
import MyOS.CxxStringRuns
import MyOS.CxxStringLaws
import MyOS.Lib.CString
import MyOS.LibcGetopt
import MyOS.LibcGetoptRuns
import MyOS.LibcStrtol
import MyOS.LibcStrtolStandard
import MyOS.LibcStrtolExact
import MyOS.LibcScanf
import MyOS.LibcScanfDirectives
import MyOS.LibcScanfRuns
import MyOS.LibcPrintfNumbers
import MyOS.LibcFormatScan
import MyOS.LibcFormatScanRuns
import MyOS.UserPointers
import MyOS.ConsoleInput
import MyOS.Lib.Lines
import MyOS.UserLines
import MyOS.Grep
import MyOS.Tail
import MyOS.Diff
import MyOS.Lib.LinkedRing
import MyOS.BufferPool
import MyOS.BufferPoolInvariant
import MyOS.BufferPoolRuns
import MyOS.Copies
import MyOS.WordCount
import MyOS.Head
import MyOS.Hexdump
import MyOS.Lib.InsertionSort
import MyOS.Sorting
import MyOS.MkfsMounting

import Xv6.Library.HeapOrder
import Xv6.Library.Ledger
import Xv6.Library.LinkChain
import Xv6.Library.Lts
import Xv6.Library.Outcome
import Xv6.Library.RecordLayout
import Xv6.Library.Interference
import Xv6.Library.RingBuffer
import Xv6.Library.CircularList
import Xv6.Memory.Params
import Xv6.Memory.PriorityQueue
import Xv6.Memory.Kalloc
import Xv6.Memory.KallocRuns
import Xv6.Memory.Paging
import Xv6.Memory.PageTable
import Xv6.Memory.PageWords
import Xv6.Memory.SwapFile
import Xv6.Memory.Kernel
import Xv6.Memory.Vm
import Xv6.Memory.KernelMap
import Xv6.Memory.Process
import Xv6.Memory.Accounts
import Xv6.Memory.VmAccounts
import Xv6.Memory.ImageAccounts
import Xv6.Memory.CowAccounts
import Xv6.Memory.FaultAccounts
import Xv6.Memory.Books
import Xv6.Memory.QuietSteps
import Xv6.Memory.Layout
import Xv6.Memory.Exhaustion
import Xv6.Memory.PrivateMemory
import Xv6.Memory.CowTransparency
import Xv6.Memory.Teardown
import Xv6.Memory.Accounting
import Xv6.Memory.PageRuns
import Xv6.Memory.Aging
import Xv6.Memory.ArrivalOrder
import Xv6.Memory.Exec
import Xv6.Memory.Locality
import Xv6.Memory.AccountingRuns
import Xv6.Memory.Image
import Xv6.Memory.ImageSteps
import Xv6.Memory.ImageFaults
import Xv6.Memory.Dismantle
import Xv6.System.ProcTable
import Xv6.System.CowRace
import Xv6.System.Log
import Xv6.System.LockRules
import Xv6.System.SwapBuffers
import Xv6.System.FileSystem
import Xv6.System.SwapNames
import Xv6.System.Lifetime
import Xv6.System.Wakeup
import Xv6.System.Pipe
import Xv6.System.BufferCache
import Xv6.System.LogRecovery
import Xv6.System.LogBudget
import Xv6.System.DirectoryGraph
import Xv6.System.LinkCounts
import Xv6.System.Inodes
import Xv6.System.Volumes
import Xv6.System.InodeWork
import Xv6.System.BlockOwnership
import Xv6.System.Paths
import Xv6.System.References
import Xv6.System.PathReferences
import Xv6.System.FileCalls
import Xv6.System.InodeBalance
import Xv6.Memory.QueueHistories
import Xv6.Memory.SecondChance
import Xv6.Memory.AdvancingQueue
import Xv6.Memory.Permissions
import Xv6.Memory.SwapInFailure
import Xv6.System.FailedFork
import Xv6.Memory.Growth
import Xv6.Memory.ForkedSwap
import Xv6.Memory.Reaping
import Xv6.System.Umalloc
import Xv6.System.SwapPaths
import Xv6.System.MallocLimits
import Xv6.System.MkfsImages
import Xv6.System.Console
import Xv6.System.PathWalk
import Xv6.System.Directories
import Xv6.System.Grep
import Xv6.System.Ide

import HydraOS.ByteMemory
import HydraOS.BlockList
import HydraOS.MemoryManager
import HydraOS.HeapLayout
import HydraOS.HeapSpec
import HydraOS.HeapRuns
import HydraOS.Bytes
import HydraOS.FileSystem
import HydraOS.FileSystemSpec
import HydraOS.FileSystemRuns
import HydraOS.Names
import HydraOS.Directory
import HydraOS.FileData
import HydraOS.Interrupts
import HydraOS.InterruptFrame
import HydraOS.Transparency
import HydraOS.SystemCalls
import HydraOS.FreeOrder
import HydraOS.DataWrites
import HydraOS.ReservedArea
import HydraOS.AtaDriver
import HydraOS.AtaTransfers
import HydraOS.PioDrive
import HydraOS.DataPort
import HydraOS.DriveRecovery
import HydraOS.DiskErrors
import HydraOS.Crashes
import HydraOS.CrashSafety
import HydraOS.Shell
import HydraOS.DiskTest
import HydraOS.SyscallHeap
import HydraOS.VideoMemory
import HydraOS.TextPage
import HydraOS.LineEditor
import HydraOS.MousePointer
import HydraOS.AllocationMark
import HydraOS.FileCounts
import HydraOS.Overwrites
import HydraOS.TemporaryBuffers
import HydraOS.FirstFit
import HydraOS.KernelHeap
import HydraOS.CatBuffer
import HydraOS.CommandLine
import HydraOS.MemoryExhaustion
import HydraOS.RoundRobin
import HydraOS.Multitasking
import HydraOS.FailedMount
import HydraOS.SuccessMessages
import HydraOS.ReadBounds
import HydraOS.CommandParser
import HydraOS.LineBuffer
import HydraOS.MetadataCodec
import HydraOS.PrintedColors
import HydraOS.Timer
import HydraOS.MouseDriver
import HydraOS.PointerEdges
import HydraOS.SegmentDescriptors
import HydraOS.ReadyPolls
import HydraOS.DecimalNumbers
import HydraOS.StorageStack
import HydraOS.PrintfConsole
import HydraOS.InterruptController
import HydraOS.Acknowledgement
import HydraOS.ShellScreen
import HydraOS.ShellSession
import HydraOS.ScreenOverlays
import HydraOS.RunningKernel
import HydraOS.VgaAdapter
import HydraOS.GraphicsMode

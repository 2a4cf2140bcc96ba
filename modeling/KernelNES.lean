import KernelNES.Lib.Frame
import KernelNES.Memory.HeapRuns
import KernelNES.Memory.Paging
import KernelNES.Memory.Teardown
import KernelNES.Memory.Ownership
import KernelNES.Memory.Ledger
import KernelNES.Memory.ZeroBlocks
import KernelNES.Memory.Accounting
import KernelNES.Emulator.TraceCapacity
import KernelNES.Emulator.TraceAlloc
import KernelNES.Emulator.RamFrame
import KernelNES.Emulator.CycleBound
import KernelNES.Emulator.Reset
import KernelNES.Emulator.Arithmetic
import KernelNES.Emulator.MultiByte
import KernelNES.Emulator.Branches
import KernelNES.Emulator.Pointers
import KernelNES.Emulator.Nesting
import KernelNES.Emulator.SelfCheck
import KernelNES.Emulator.RegisterWrites
import KernelNES.Emulator.Inert
import KernelNES.Emulator.TraceAccesses
import KernelNES.Emulator.RomLoad
import KernelNES.Fs.ClusterRead
import KernelNES.Fs.ShortNames
import KernelNES.Fs.PathRoundTrip
import KernelNES.Fs.PathRelease
import KernelNES.Fs.PathWalk
import KernelNES.Fs.Descriptors
import KernelNES.Fs.Interference
import KernelNES.Fs.FilePosition
import KernelNES.Fs.OpenClose
import KernelNES.Fs.SafeReads
import KernelNES.Fs.ScanBounds
import KernelNES.Fs.LoadedDirectories
import KernelNES.Fs.TagDiscipline
import KernelNES.Fs.SectorReads
import KernelNES.Fs.ChainLinks
import KernelNES.Fs.ClusterPosition
import KernelNES.Fs.Mount
import KernelNES.Task.TaskList
import KernelNES.Gdt.Gdt
import KernelNES.Kernel.OnScreen
import KernelNES.Kernel.Decimal
import KernelNES.Kernel.MenuRuns
import KernelNES.Emulator.TracePrint
import KernelNES.Task.AllOrNothing
import KernelNES.Emulator.Conformance
import KernelNES.Idt.Interrupts
import KernelNES.Disk.Streaming
import KernelNES.Emulator.PlayRom
import KernelNES.Emulator.TraceRun

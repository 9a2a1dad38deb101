import Sprocket.Lib.Prog
import Sprocket.Lib.Safe
import Sprocket.Lib.Loop
import Sprocket.Lib.Bytes
import Sprocket.Lib.Memory
import Sprocket.Lib.Trace
import Sprocket.Lib.Word
import Sprocket.Lib.Runs
import Sprocket.Lib.Agree
import Sprocket.Lib.Forecast
import Sprocket.Lib.X86
import Sprocket.MemUtils
import Sprocket.Kalloc.Allocator
import Sprocket.Kalloc.FreeList
import Sprocket.Kalloc.PageRuns
import Sprocket.Kalloc.FirstFit
import Sprocket.Kalloc.Undo
import Sprocket.Spinlock
import Sprocket.Console
import Sprocket.Vm.Paging
import Sprocket.Vm.MapPages
import Sprocket.Vm.KernelMap
import Sprocket.Vm.Heap
import Sprocket.Vm.BootMemory
import Sprocket.Traps
import Sprocket.Picirq
import Sprocket.Pci
import Sprocket.Rtl8139.Driver
import Sprocket.Rtl8139.Transmit
import Sprocket.Rtl8139.Receive
import Sprocket.Rtl8139.Init
import Sprocket.SimpleFs.Layout
import Sprocket.SimpleFs.Ops
import Sprocket.SimpleFs.FaultFree
import Sprocket.SimpleFs.Freelist
import Sprocket.SimpleFs.FreelistRuns
import Sprocket.SimpleFs.Blocks
import Sprocket.SimpleFs.Ownership
import Sprocket.SimpleFs.InodeTable
import Sprocket.SimpleFs.TableRuns
import Sprocket.SimpleFs.Faults
import Sprocket.SimpleFs.Files
import Sprocket.SimpleFs.Offsets
import Sprocket.SimpleFs.AnyDisk
import Sprocket.SimpleFs.FailedWrites
import Sprocket.SimpleFs.FileRuns
import Sprocket.SimpleFs.Directory
import Sprocket.SimpleFs.DirectoryRuns
import Sprocket.SimpleFs.ReadErrors
import Sprocket.SimpleFs.Mkfs
import Sprocket.SimpleFs.ImageTool
import Sprocket.SimpleFs.Readers
import Sprocket.File
import Sprocket.Ata
import Sprocket.Ide
import Sprocket.Service
import Sprocket.Boot.Loader
import Sprocket.Boot.Segments
import Sprocket.Boot.Footprint
import Sprocket.Lib.Text
import Sprocket.Page
import Sprocket.Kernel

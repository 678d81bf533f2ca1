import TupleOS.Base.Bytes
import TupleOS.Base.Word
import TupleOS.Memory.Paging
import TupleOS.Heap.Chain
import TupleOS.Heap.Edit
import TupleOS.Heap.Blocks
import TupleOS.Heap.Invariant
import TupleOS.Heap.Ops
import TupleOS.Base.Run
import TupleOS.Base.Tlb
import TupleOS.Base.Fair
import TupleOS.Heap.Flat
import TupleOS.Heap.Integrity
import TupleOS.Heap.Aligned
import TupleOS.Heap.Overrun
import TupleOS.Base.Bitmap
import TupleOS.Memory.Pmm
import TupleOS.Memory.Machine
import TupleOS.Memory.PagingSpec
import TupleOS.Memory.Vmm
import TupleOS.Memory.PageLoops
import TupleOS.Memory.VmmSpec
import TupleOS.Memory.Boot
import TupleOS.Memory.VmRun
import TupleOS.Memory.TlbRun
import TupleOS.Memory.Isolation
import TupleOS.Memory.KernelHalf
import TupleOS.Memory.Reserved
import TupleOS.Memory.DirectMap
import TupleOS.Base.Cyclic
import TupleOS.Process.Table
import TupleOS.Process.Steps
import TupleOS.Process.States
import TupleOS.Base.X86
import TupleOS.Interrupt.Frame
import TupleOS.Process.Fairness
import TupleOS.Process.Switch
import TupleOS.Process.Preempt
import TupleOS.Process.Transparency
import TupleOS.Process.Threads
import TupleOS.Process.Release
import TupleOS.Memory.RegionLists
import TupleOS.Memory.RegionOrder
import TupleOS.Memory.Conservation
import TupleOS.Memory.HeapBacked
import TupleOS.Memory.FrameMap
import TupleOS.Memory.FrameRun
import TupleOS.Memory.FrameScan
import TupleOS.Memory.BitmapBounds
import TupleOS.Memory.FlatMap
import TupleOS.Memory.Permissions
import TupleOS.Base.Pic
import TupleOS.Base.I8259
import TupleOS.Base.Descriptors
import TupleOS.Process.Acknowledge
import TupleOS.Interrupt.Tables
import TupleOS.Interrupt.Entry
import TupleOS.Interrupt.Dispatch
import TupleOS.Boot.Multiboot
import TupleOS.Base.Regions
import TupleOS.Boot.Stage2
import TupleOS.Boot.Layout
import TupleOS.Boot.E801
import TupleOS.Base.Orbit
import TupleOS.Boot.MapWalk
import TupleOS.Boot.ElfLoad
import TupleOS.Boot.Fat16
import TupleOS.Process.Pids
import TupleOS.Console.Printf
import TupleOS.Base.Uart
import TupleOS.Console.Serial
import TupleOS.Console.Keyboard
import TupleOS.Console.FormatScan
import TupleOS.Memory.FreeRegion
import TupleOS.Memory.MapStep
import TupleOS.Memory.MapLoop
import TupleOS.Memory.MapRegion
import TupleOS.Heap.Accounting
import TupleOS.Heap.Requests
import TupleOS.Memory.FailedAlloc
import TupleOS.Heap.DoubleFree
import TupleOS.Memory.CreateSpace
import TupleOS.Boot.RootSearch
import TupleOS.Boot.ClusterChain
import TupleOS.Boot.FatInit
import TupleOS.Boot.KernelLoad
import TupleOS.Boot.ReadErrors
import TupleOS.Base.Early
import TupleOS.Boot.Footprint
import TupleOS.Boot.Start
import TupleOS.Base.Loops
import TupleOS.Console.Terminal
import TupleOS.Console.Page
import TupleOS.Console.Shell
import TupleOS.Console.Typing
import TupleOS.Base.Linked
import TupleOS.Memory.RegionPool
import TupleOS.Memory.RegionCalls
import TupleOS.Heap.Expansion

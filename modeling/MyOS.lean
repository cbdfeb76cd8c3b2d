import MyOS.Lib.WordBitmap
import MyOS.Lib.ByteMemory
import MyOS.Lib.Effect
import MyOS.Lib.Logged
import MyOS.Lib.X86Paging
import MyOS.Lib.PageTables
import MyOS.Lib.Ownership
import MyOS.Lib.BlockHeap
import MyOS.Lib.CyclicScan
import MyOS.Model.Pmm
import MyOS.Model.Machine
import MyOS.Model.Paging
import MyOS.Model.Memory
import MyOS.Model.Fs
import MyOS.Model.Process
import MyOS.Model.Boot
import MyOS.Model.Interrupt
import MyOS.Model.Shell
import MyOS.Verification.Pmm.Correctness
import MyOS.Verification.Pmm.OddSizes
import MyOS.Verification.Scheduler.RoundRobin
import MyOS.Verification.Process.Views
import MyOS.Verification.Process.System
import MyOS.Verification.Process.Lifecycle
import MyOS.Verification.Switch.Frame
import MyOS.Verification.Switch.UserMode
import MyOS.Verification.Switch.KernelMode
import MyOS.Verification.Memory.Access
import MyOS.Verification.Memory.Spaces
import MyOS.Verification.Memory.Moves
import MyOS.Verification.Memory.Words
import MyOS.Verification.Memory.FreeList
import MyOS.Verification.Memory.Heap
import MyOS.Verification.Memory.Boot
import MyOS.Verification.Memory.HeapRun
import MyOS.Verification.Memory.Growth
import MyOS.Verification.Memory.FirstFit
import MyOS.Verification.Memory.Requests
import MyOS.Verification.Memory.Window
import MyOS.Verification.Memory.Clone
import MyOS.Verification.Memory.Teardown
import MyOS.Verification.Loader.Pages
import MyOS.Verification.Loader.Bytes
import MyOS.Lib.RingBuffer
import MyOS.Model.Keyboard
import MyOS.Verification.Keyboard.Fifo
import MyOS.Lib.CString
import MyOS.Model.LineEditor
import MyOS.Verification.Shell.LineEditor
import MyOS.Model.CommandLine
import MyOS.Verification.Shell.CommandLine
import MyOS.Model.Vga
import MyOS.Verification.Syscall.Print
import MyOS.Model.Critical
import MyOS.Verification.Process.Critical
import MyOS.Verification.Memory.MapPage
import MyOS.Verification.Memory.Directory
import MyOS.Verification.Memory.CloneDirectory
import MyOS.Model.Freed
import MyOS.Verification.Memory.FreeDirectory
import MyOS.Verification.Fs.ReadFile
import MyOS.Model.Sleep
import MyOS.Verification.Scheduler.Sleep
import MyOS.Verification.Fs.Windows
import MyOS.Verification.Fs.InitFs
import MyOS.Verification.Memory.FrameSafety
import MyOS.Verification.Memory.HeapWindows
import MyOS.Verification.Loader.Segments
import MyOS.Verification.Loader.Open
import MyOS.Verification.Loader.Stack
import MyOS.Verification.Loader.Stages
import MyOS.Verification.Loader.Exec
import MyOS.Lib.Orbit
import MyOS.Verification.Fs.Clusters
import MyOS.Verification.Fs.Buffers
import MyOS.Verification.Fs.SampleVolume
import MyOS.Verification.Fs.AnyVolume
import MyOS.Verification.Fs.MultiSector
import MyOS.Verification.Fs.Directory
import MyOS.Verification.Fs.Names
import MyOS.Model.Pci
import MyOS.Verification.Fs.Caches
import MyOS.Verification.Virtio.Setup
import MyOS.Verification.Virtio.Device
import MyOS.Verification.Virtio.Sending
import MyOS.Verification.Virtio.Command
import MyOS.Verification.Virtio.Control
import MyOS.Verification.Virtio.Notify
import MyOS.Verification.Virtio.Beep
import MyOS.Verification.Loader.Arguments
import MyOS.Verification.Loader.Starts
import MyOS.Verification.Loader.ProgramDisk
import MyOS.Lib.Decimal
import MyOS.Model.Decimal
import MyOS.Verification.Shell.Numbers
import MyOS.Verification.Shell.Kill
import MyOS.Lib.Runs
import MyOS.Model.Session
import MyOS.Verification.Keyboard.Shift
import MyOS.Verification.Shell.Session
import MyOS.Verification.Shell.FreshLine
import MyOS.Verification.Shell.History
import MyOS.Verification.Shell.Window
import MyOS.Lib.TextRows
import MyOS.Model.Screen
import MyOS.Verification.Screen.Cells
import MyOS.Verification.Screen.Console
import MyOS.Model.Stage2
import MyOS.Verification.Screen.Redraw
import MyOS.Verification.Boot.LoadKernel
import MyOS.Model.Copied
import MyOS.Verification.Fs.Copies
import MyOS.Verification.Lifecycle.Runs
import MyOS.Verification.Lifecycle.Frames
import MyOS.Verification.Lifecycle.Isolation
import MyOS.Verification.Lifecycle.Loading
import MyOS.Lib.AtaDrive
import MyOS.Lib.Intel8259
import MyOS.Model.Disk
import MyOS.Model.Irq
import MyOS.Verification.Fs.DiskPorts
import MyOS.Verification.Irq.Delivery
import MyOS.Verification.Scheduler.Wakeup
import MyOS.Model.Terminal
import MyOS.Verification.Lifecycle.PowerOn
import MyOS.Verification.Screen.Line
import MyOS.Verification.Screen.Transcript
import MyOS.Verification.Switch.Confinement
import MyOS.Verification.Screen.Typing

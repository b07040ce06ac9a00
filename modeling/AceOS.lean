import AceOS.Lib.Machine
import AceOS.Lib.Memory
import AceOS.Lib.Bitmap
import AceOS.Lib.Segments
import AceOS.Lib.Signed
import AceOS.Lib.Numerals
import AceOS.Lib.DigitalLine
import AceOS.Libc.String
import AceOS.Libc.Stdlib
import AceOS.Libc.StdlibRun
import AceOS.Libc.StdlibCoalesce
import AceOS.Libc.StdlibSizes
import AceOS.Libc.Stdio
import AceOS.Kernel.Pmm
import AceOS.Kernel.Itoa
import AceOS.Kernel.Vmm
import AceOS.Kernel.Boot
import AceOS.Drivers.Fs.Path
import AceOS.Lib.Allocator
import AceOS.Drivers.Fs.Model
import AceOS.Drivers.Fs.Lookup
import AceOS.Drivers.Fs.Tree
import AceOS.Kernel.Heap
import AceOS.Kernel.HeapInv
import AceOS.Kernel.HeapRun
import AceOS.Kernel.HeapCoalesce
import AceOS.Kernel.HeapRealloc
import AceOS.Kernel.HeapSizes
import AceOS.Kernel.HeapAccounting
import AceOS.Drivers.Fs.Updates
import AceOS.Drivers.Fs.Resolve
import AceOS.Drivers.Fs.Ops
import AceOS.Drivers.Fs.Steps
import AceOS.Drivers.Fs.Run
import AceOS.Drivers.Fs.Names
import AceOS.Lib.Namespace
import AceOS.Drivers.Fs.Namespace
import AceOS.Lib.Ownership
import AceOS.Drivers.Fs.Data
import AceOS.Drivers.Fs.Contents
import AceOS.Libc.StdlibContents
import AceOS.Drivers.Fs.OnLibc
import AceOS.Drivers.Fs.Capacity
import AceOS.Drivers.Fs.CurrentDir
import AceOS.Drivers.Fs.NewDirs
import AceOS.Drivers.Fs.ParentDir
import AceOS.Lib.LinkedQueue
import AceOS.Kernel.HeapValidate
import AceOS.Kernel.BestFit
import AceOS.Kernel.HeapAlign
import AceOS.Kernel.Process
import AceOS.Kernel.Scheduler
import AceOS.Kernel.SchedulerRun
import AceOS.Kernel.Destroy
import AceOS.Kernel.Tables
import AceOS.Kernel.Spaces
import AceOS.Kernel.Translation
import AceOS.Kernel.Permissions
import AceOS.Kernel.ProcessFrames
import AceOS.Kernel.TimeSlices
import AceOS.Drivers.Fs.Listing
import AceOS.Drivers.Fs.ListDir
import AceOS.Kernel.Shell
import AceOS.Kernel.ShellPaths
import AceOS.Kernel.Isr
import AceOS.Kernel.Syscall
import AceOS.Kernel.SyscallResult
import AceOS.Lib.RingBuffer
import AceOS.Drivers.InputBuffer
import AceOS.Drivers.Keyboard
import AceOS.Lib.PortIo
import AceOS.Drivers.Disk
import AceOS.Lib.PortDevice
import AceOS.Drivers.AtaChannel
import AceOS.Drivers.AtaTransfer
import AceOS.Drivers.DiskStore
import AceOS.Drivers.Timer
import AceOS.Drivers.Sleep
import AceOS.Drivers.Graphics
import AceOS.Lib.Turns
import AceOS.Drivers.Callbacks
import AceOS.Kernel.Terminal
import AceOS.Kernel.Backspace
import AceOS.Kernel.MainLoop
import AceOS.Lib.Teletype
import AceOS.Kernel.Screen
import AceOS.Kernel.Console
import AceOS.Kernel.Session
import AceOS.Kernel.ReadBack
import AceOS.Drivers.Fs.Copies
import AceOS.Drivers.Fs.Moves
import AceOS.Drivers.Fs.FailedWrite
import AceOS.Drivers.Fs.ParseBounds
import AceOS.Drivers.Fs.FindByName
import AceOS.Drivers.Fs.Tokens

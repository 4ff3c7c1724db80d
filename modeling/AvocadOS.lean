import AvocadOS.Heap.Accounting
import AvocadOS.Heap.Reject
import AvocadOS.Heap.Move
import AvocadOS.Fat16.Seek
import AvocadOS.Fat16.RootDir
import AvocadOS.Fat16.Deleted
import AvocadOS.Fat16.Clusters
import AvocadOS.Fs.Contents
import AvocadOS.Fs.Components
import AvocadOS.Fs.Whole
import AvocadOS.Fs.Divisors
import AvocadOS.Fs.Registry
import AvocadOS.Fs.Cleanup
import AvocadOS.Fs.Filenos
import AvocadOS.Kernel.Gdt
import AvocadOS.Kernel.Rings
import AvocadOS.Kernel.LoadFails
import AvocadOS.Kernel.RoundRobin
import AvocadOS.Kernel.Mmu
import AvocadOS.Kernel.Allocator
import AvocadOS.Kernel.Clients
import AvocadOS.Interrupt.Switching
import AvocadOS.String.Compare
import AvocadOS.String.Itoa
import AvocadOS.Termio
import AvocadOS.CircularList.Swap
import AvocadOS.CircularList.Delete
import AvocadOS.CircularBuffer
import AvocadOS.Disk.BootRead

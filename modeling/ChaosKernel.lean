import ChaosKernel.Lib.Run
import ChaosKernel.Lib.Ring
import ChaosKernel.Lib.List
import ChaosKernel.Config
import ChaosKernel.Timer
import ChaosKernel.Lib.TreeMap
import ChaosKernel.Lib.Except
import ChaosKernel.Lib.Memory
import ChaosKernel.Lib.Bytes
import ChaosKernel.Lib.Walk
import ChaosKernel.Mm.FrameAllocator
import ChaosKernel.Mm.PageTable
import ChaosKernel.Mm.Sv39
import ChaosKernel.Mm.MemorySet
import ChaosKernel.Mm.Heap
import ChaosKernel.Mm.Mmap
import ChaosKernel.Mm.Area
import ChaosKernel.Mm.PhysMem
import ChaosKernel.Mm.MmapData
import ChaosKernel.Mm.Fork
import ChaosKernel.Mm.UserBuffer
import ChaosKernel.Mm.Elf
import ChaosKernel.Mm.Stack
import ChaosKernel.Task.Res
import ChaosKernel.Task.Kstack
import ChaosKernel.Task.Process
import ChaosKernel.Task.Tree
import ChaosKernel.Task.Wait
import ChaosKernel.Syscall.Fd
import ChaosKernel.Syscall.Getdents
import ChaosKernel.Fs.Pipe
import ChaosKernel.Block.BlockCache
import ChaosKernel.Block.Device
import ChaosKernel.Trap.Handler
import ChaosKernel.Fs.Poll
import ChaosKernel.Fs.Ext4Rs
import ChaosKernel.Fs.Ext4
import ChaosKernel.Fs.Fat32.Volume
import ChaosKernel.Fs.Fat32.Table
import ChaosKernel.Fs.Fat32.Dentry
import ChaosKernel.Fs.Fat32.ShortName
import ChaosKernel.Fs.Fat32.Inode
import ChaosKernel.Fs.Fat32.Unlink
import ChaosKernel.Fs.Fat32.Directory

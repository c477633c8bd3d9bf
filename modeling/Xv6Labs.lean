import Xv6Labs.Library.Run
import Xv6Labs.Library.Simulation
import Xv6Labs.Library.References
import Xv6Labs.Library.LinkedRing
import Xv6Labs.Library.BlockChain
import Xv6Labs.Library.Radix
import Xv6Labs.Library.Demand
import Xv6Labs.Library.Total
import Xv6Labs.Library.Traced
import Xv6Labs.Library.Doubleword
import Xv6Labs.Library.MemoryProtection
import Xv6Labs.Kernel.Memory
import Xv6Labs.Kernel.Program
import Xv6Labs.Kernel.AddressSpace
import Xv6Labs.Kernel.Growing
import Xv6Labs.Kernel.Exec
import Xv6Labs.Kernel.Namei
import Xv6Labs.Kernel.Teardown
import Xv6Labs.Kernel.Building
import Xv6Labs.Kernel.OnDemand
import Xv6Labs.Kernel.Account
import Xv6Labs.Kernel.Footprint
import Xv6Labs.Kernel.Sparse
import Xv6Labs.Kernel.Copying
import Xv6Labs.Vmm.State
import Xv6Labs.Vmm.Pmp
import Xv6Labs.Vmm.Emulate
import Xv6Labs.Vmm.Return
import Xv6Labs.Vmm.Image
import Xv6Labs.Vmm.Guest
import Xv6Labs.Vmm.CsrAccess
import Xv6Labs.Vmm.Privilege
import Xv6Labs.Vmm.HostSafety
import Xv6Labs.Vmm.Enforcement
import Xv6Labs.Vmm.Permissions
import Xv6Labs.Vmm.CloneFrame
import Xv6Labs.Vmm.Isolation
import Xv6Labs.Vmm.RegisterTransfer
import Xv6Labs.Vmm.Confidentiality
import Xv6Labs.Vmm.TrapReturn
import Xv6Labs.Vmm.FullWidth
import Xv6Labs.Vmm.Decoder
import Xv6Labs.Lifecycle.State
import Xv6Labs.Lifecycle.Steps
import Xv6Labs.Lifecycle.Tidy
import Xv6Labs.Lifecycle.VmChild
import Xv6Labs.Lifecycle.VmFlag
import Xv6Labs.Lifecycle.Teardown
import Xv6Labs.Lifecycle.Conservation
import Xv6Labs.Lifecycle.ExecAtomic
import Xv6Labs.Paging.State
import Xv6Labs.Paging.Heap
import Xv6Labs.Paging.HeapTracking
import Xv6Labs.Paging.SbrkTotal
import Xv6Labs.Paging.Cow
import Xv6Labs.Paging.Fault
import Xv6Labs.Paging.Swap
import Xv6Labs.Paging.SwapSlots
import Xv6Labs.Paging.SwapInvariant
import Xv6Labs.Paging.SwapRoundTrip
import Xv6Labs.Paging.SystemCalls
import Xv6Labs.Paging.Progress
import Xv6Labs.Paging.Process
import Xv6Labs.Paging.Turns
import Xv6Labs.Paging.Uninterrupted
import Xv6Labs.Paging.SaveArea
import Xv6Labs.Paging.Ledger
import Xv6Labs.Paging.SlotOwnership
import Xv6Labs.Paging.Calls
import Xv6Labs.Paging.ResidentSet
import Xv6Labs.Paging.EvictionOrder
import Xv6Labs.Paging.ExecAtomic
import Xv6Labs.Paging.Family
import Xv6Labs.Paging.Groups
import Xv6Labs.Paging.AreaFlags
import Xv6Labs.Paging.Accounting
import Xv6Labs.Paging.SparseTeardown
import Xv6Labs.Paging.ForkTotal
import Xv6Labs.Paging.SwapMemory
import Xv6Labs.Paging.Sharing
import Xv6Labs.Paging.GroupLookup
import Xv6Labs.Paging.WritePermission
import Xv6Labs.Paging.FaultFile
import Xv6Labs.Ulthread.Threads
import Xv6Labs.Ulthread.Schedule
import Xv6Labs.Ulthread.Completion
import Xv6Labs.Ulthread.Dispatch
import Xv6Labs.Ulthread.Policies
import Xv6Labs.Ulthread.CreationOrder
import Xv6Labs.Ulthread.Switch
import Xv6Labs.Ulthread.Registers
import Xv6Labs.Ulthread.ThreadTable
import Xv6Labs.Ulthread.MainIdentity
import Xv6Labs.Ulthread.ThreadCreation
import Xv6Labs.Ulthread.TableAccess
import Xv6Labs.Ulthread.TimerInterrupt
import Xv6Labs.Boot.Loader
import Xv6Labs.Boot.Sha256
import Xv6Labs.Boot.Dram
import Xv6Labs.Boot.Measured
import Xv6Labs.Boot.TwoLoaders
import Xv6Labs.Boot.SecureBoot
import Xv6Labs.Boot.PaddedHash
import Xv6Labs.Boot.HeaderTable
import Xv6Labs.Boot.PmpIsolation
import Xv6Labs.FileSystem.Log
import Xv6Labs.FileSystem.AtomicDisk
import Xv6Labs.FileSystem.CrashSafety
import Xv6Labs.FileSystem.LogSpace
import Xv6Labs.FileSystem.Buffers
import Xv6Labs.FileSystem.BlockStore
import Xv6Labs.FileSystem.Recency
import Xv6Labs.FileSystem.FileTable
import Xv6Labs.FileSystem.FreeMap
import Xv6Labs.FileSystem.Volume
import Xv6Labs.FileSystem.Files
import Xv6Labs.Ipc.Pipe
import Xv6Labs.Ipc.Sleepers

import Horizon.Lib.StateError
import Horizon.Lib.Chain
import Horizon.Lib.Ring
import Horizon.Lib.RoundRobin
import Horizon.Lib.FramePool
import Horizon.Lib.Generation
import Horizon.Lib.Tiling
import Horizon.Lib.TwoLevel
import Horizon.Util
import Horizon.Memory.Physical
import Horizon.Memory.Paging
import Horizon.State
import Horizon.Ipc.Port
import Horizon.Memory.Virtual
import Horizon.Memory.AddressSpace
import Horizon.Memory.Ranges
import Horizon.Memory.Extent
import Horizon.Memory.Window
import Horizon.Memory.Directory
import Horizon.Memory.Allocation
import Horizon.Memory.Sharing
import Horizon.Memory.Meminfo
import Horizon.Memory.PagingInit
import Horizon.Multitask.Process
import Horizon.Multitask.Scheduler
import Horizon.Ipc.Message
import Horizon.System.Message
import Horizon.Ipc.Service
import Horizon.System.Process
import Horizon.System.Memory
import Horizon.System.Step
import Horizon.Ipc.Queue
import Horizon.Ipc.ListRefinement
import Horizon.Ipc.Mail
import Horizon.Ipc.MailOrder
import Horizon.System.Frame
import Horizon.System.MailView
import Horizon.System.Effects
import Horizon.System.Lifecycle
import Horizon.System.UserMemory
import Horizon.System.Simulation
import Horizon.System.Directories
import Horizon.System.Trace
import Horizon.System.Boot
import Horizon.System.Context
import Horizon.Properties.Exceptions
import Horizon.Properties.QueueShape
import Horizon.Properties.Delivery
import Horizon.Properties.FreeList
import Horizon.Properties.Ownership
import Horizon.Properties.RunQueue
import Horizon.Properties.Fairness
import Horizon.Properties.DroppedMessages
import Horizon.Properties.FailedCalls
import Horizon.Properties.Context
import Horizon.System.Mapping
import Horizon.Properties.KernelHalf
import Horizon.System.Registry
import Horizon.System.RegistryView
import Horizon.System.RegistryTrace
import Horizon.Properties.Ports
import Horizon.Properties.StalePorts
import Horizon.Properties.Timer
import Horizon.Properties.Services
import Horizon.Properties.SharedFrames
import Horizon.Properties.Parents
import Horizon.Properties.ThreadCreation
import Horizon.Properties.MessageSlots
import Horizon.Properties.PagingMaps
import Horizon.Properties.MappedRanges
import Horizon.Properties.Teardown
import Horizon.Properties.AllocatedRanges
import Horizon.Properties.UserRanges
import Horizon.Properties.AcceptedOffers
import Horizon.Properties.KernelDirectory
import Horizon.User.Vfsd
import Horizon.Properties.OpenFiles
import Horizon.Properties.FileContents
import Horizon.User.Fat
import Horizon.User.Malloc
import Horizon.User.Blocks
import Horizon.User.Requests
import Horizon.Properties.RequestBuffers
import Horizon.Properties.HeapCalls
import Horizon.Properties.HeapIntegrity
import Horizon.Properties.MemoryMap
import Horizon.Properties.UsableFrames
import Horizon.System.Elf
import Horizon.Properties.ProgramHeaders
import Horizon.System.Loading
import Horizon.Properties.LoadedSegments
import Horizon.User.Ide
import Horizon.Properties.DiskAddressing
import Horizon.User.Keyboard
import Horizon.Properties.Scancodes
import Horizon.Properties.Keystrokes
import Horizon.Properties.ReadLengths
import Horizon.Properties.ClusterChains
import Horizon.Properties.Dirents
import Horizon.Properties.FileNames
import Horizon.Properties.Listings
import Horizon.Properties.FileSearch
import Horizon.Properties.Paths
import Horizon.Properties.Bitmaps
import Horizon.Properties.MemoryCopies
import Horizon.Properties.NumberFormats

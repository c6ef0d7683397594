import Rticx.Lib.Fifo
import Rticx.Lib.Machine
import Rticx.Lib.Tokens
import Rticx.Lib.Places
import Rticx.Lib.Except
import Rticx.Lib.Object
import Rticx.Lib.Ceiling
import Rticx.Lib.SortedMap
import Rticx.Lib.Decimal
import Rticx.Lib.Scope
import Rticx.Core.App
import Rticx.Core.Analysis
import Rticx.Core.Resources
import Rticx.Core.Attr
import Rticx.Core.Source
import Rticx.Core.Conservation
import Rticx.Core.Erase
import Rticx.Core.Entry
import Rticx.Spsc.Queue
import Rticx.Spsc.Concurrent
import Rticx.Spsc.Calls
import Rticx.Spsc.Wrapping
import Rticx.SwPass.Spawn
import Rticx.SwPass.Dispatch
import Rticx.SwPass.Undispatched
import Rticx.SwPass.Params
import Rticx.SwPass.App
import Rticx.SwPass.Codegen
import Rticx.SwPass.Producers
import Rticx.AsyncRt.Executor
import Rticx.AsyncRt.WaitQueue
import Rticx.AsyncRt.WaitQueueSequence
import Rticx.AsyncRt.Channel
import Rticx.AsyncRt.ChannelSlots
import Rticx.AsyncRt.ChannelDelivery
import Rticx.AsyncRt.ChannelWaiters
import Rticx.AsyncRt.ChannelFutures
import Rticx.AsyncRt.ChannelWake
import Rticx.AsyncPass.Dispatch
import Rticx.AsyncPass.Wake
import Rticx.AsyncPass.App
import Rticx.AsyncPass.Codegen
import Rticx.AsyncPass.Grouping
import Rticx.AsyncPass.Partition
import Rticx.AsyncPass.Producers
import Rticx.AsyncPass.Slots
import Rticx.AsyncPass.Output
import Rticx.CortexM.Basepri
import Rticx.CortexM.BasepriSrp
import Rticx.CortexM.SourceMask
import Rticx.CortexM.SourceMaskNested
import Rticx.CortexM.SourceMaskIdle
import Rticx.CortexM.SourceMaskSharers
import Rticx.CortexM.HardwareOrder
import Rticx.DeadlinePass.Deadline
import Rticx.AsyncPass.SlotLife
import Rticx.Core.Boot
import Rticx.AsyncPass.BootSpawn
import Rticx.AsyncRt.ChannelDrain
import Rticx.AsyncRt.ChannelWakers
import Rticx.AsyncRt.ChannelResplit
import Rticx.Core.Names
import Rticx.Core.Duplicates
import Rticx.Core.Arguments
import Rticx.AutoAssign.App
import Rticx.Lib.UniqueMap
import Rticx.SwPass.Dispatchers
import Rticx.AutoAssign.Assign
import Rticx.AutoAssign.CoreArguments
import Rticx.AutoAssign.Interleave
import Rticx.DeadlinePass.Ranking
import Rticx.DeadlinePass.Limit
import Rticx.Expand.Literal
import Rticx.Lib.Loop
import Rticx.Expand.Detect
import Rticx.Expand.Rename
import Rticx.Lib.Utf8
import Rticx.Expand.Beautify
import Rticx.Expand.Merge
import Rticx.CortexM.SourceMaskTable
import Rticx.Lib.RustLexer
import Rticx.Expand.Scan
import Rticx.Expand.Apps
import Rticx.Expand.Locate
import Rticx.Expand.Missed
import Rticx.Expand.DetectExact
import Rticx.CortexM.BasepriStack
import Rticx.SwPass.Output
import Rticx.SwPass.Reading
import Rticx.CortexM.Wiring
import Rticx.CortexM.EndToEnd
import Rticx.SwPass.Accesses
import Rticx.Lib.RustReread
import Rticx.Expand.Pieces
import Rticx.Expand.Emits
import Rticx.Expand.Attributes
import Rticx.Expand.Preserved
import Rticx.Core.Pipeline
import Rticx.Core.Snapshots
import Rticx.Expand.Snapshots
import Rticx.Lib.FileTree
import Rticx.Expand.Restore
import Rticx.Expand.FindSource

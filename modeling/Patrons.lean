import Patrons.Library.Machine
import Patrons.Library.Fault
import Patrons.Library.Arena
import Patrons.Library.Bytes
import Patrons.Library.Loop
import Patrons.Library.Text
import Patrons.Library.Leb128
import Patrons.Library.Scan
import Patrons.Library.Intervals
import Patrons.Library.Paging
import Patrons.Library.Interleave
import Patrons.Model.Word
import Patrons.Model.Log
import Patrons.Model.LogMemory
import Patrons.Model.Process
import Patrons.Model.Signal
import Patrons.Model.Resize
import Patrons.Model.Init
import Patrons.Model.System
import Patrons.Model.Resizes
import Patrons.Model.Threads
import Patrons.Model.Config
import Patrons.Model.Watcher
import Patrons.Model.Ticks
import Patrons.Model.Inits
import Patrons.Model.TimerSteps
import Patrons.Model.Status
import Patrons.Model.Elf
import Patrons.Model.Image
import Patrons.Model.Core
import Patrons.Model.Symbols
import Patrons.Model.ProcMaps
import Patrons.Model.Protect
import Patrons.Model.CoreThreads
import Patrons.Verification.Region.Clamp
import Patrons.Verification.Region.Resize
import Patrons.Verification.Init.Ready
import Patrons.Verification.Init.Reach
import Patrons.Verification.Region.Shrink
import Patrons.Verification.Region.Contract
import Patrons.Verification.Region.Size
import Patrons.Verification.Region.Atomicity
import Patrons.Verification.Region.Space
import Patrons.Verification.Region.Interleaving
import Patrons.Verification.Region.Race
import Patrons.Verification.Region.Steps
import Patrons.Verification.Signal.Chain
import Patrons.Verification.Signal.JumpBuffer
import Patrons.Verification.Init.Pointers
import Patrons.Verification.Log.Ring
import Patrons.Verification.Log.Memory
import Patrons.Verification.Log.Dump
import Patrons.Verification.Watcher.Methods
import Patrons.Verification.Watcher.Tick
import Patrons.Verification.Watcher.Floor
import Patrons.Verification.Watcher.Mirror
import Patrons.Verification.Watcher.Quiescence
import Patrons.Verification.Watcher.Strict
import Patrons.Verification.Watcher.Schedule
import Patrons.Verification.Watcher.Inits
import Patrons.Verification.Watcher.Timers
import Patrons.Verification.Watcher.VssSize
import Patrons.Verification.Hook.Tables
import Patrons.Verification.Hook.Reach
import Patrons.Verification.Hook.FindOnly
import Patrons.Verification.Hook.Refresh
import Patrons.Verification.Hook.Visits
import Patrons.Verification.Hook.History
import Patrons.Verification.Hook.BaseAddr
import Patrons.Verification.Hook.Packed
import Patrons.Verification.Hook.Ends
import Patrons.Verification.Hook.Lookup
import Patrons.Verification.Hook.ProcMaps
import Patrons.Verification.Hook.Protect
import Patrons.Verification.Hook.Restore
import Patrons.Verification.Hook.Threads
import Patrons.Verification.Hook.Serial
import Patrons.Verification.Hook.Calls
import Patrons.Model.ElfInit
import Patrons.Model.CoreBytes
import Patrons.Verification.Hook.ElfInit
import Patrons.Verification.Hook.Footprint
import Patrons.Verification.Hook.CoreBytes

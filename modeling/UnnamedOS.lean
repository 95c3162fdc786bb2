import UnnamedOS.Lib.Chain
import UnnamedOS.Lib.Run
import UnnamedOS.Proc.Tasks
import UnnamedOS.Proc.EntryStack
import UnnamedOS.Proc.SemaphoreSafety
import UnnamedOS.Proc.AddressSpace
import UnnamedOS.Proc.ChildDeath
import UnnamedOS.Proc.LockBalance
import UnnamedOS.Proc.IdleWake
import UnnamedOS.Proc.TimerTick
import UnnamedOS.Paging.UserRuns
import UnnamedOS.Memory.HeapSafety
import UnnamedOS.Memory.Space
import UnnamedOS.Stream.PipeWakeup
import UnnamedOS.Descriptors.Ownership
import UnnamedOS.Descriptors.Allocation
import UnnamedOS.Descriptors.Bounds
import UnnamedOS.Files.Cursor
import UnnamedOS.Files.Regions
import UnnamedOS.Files.InodeCache
import UnnamedOS.Files.BuilderLayout
import UnnamedOS.Files.MakeFile
import UnnamedOS.Files.ByteRange
import UnnamedOS.Files.Floppy
import UnnamedOS.Paging.Translation
import UnnamedOS.Paging.WellFormed
import UnnamedOS.Syscall.Exec
import UnnamedOS.Userland.HeapSafety
import UnnamedOS.Loader.Layout
import UnnamedOS.Files.GivesBack
import UnnamedOS.Files.ReadBack
import UnnamedOS.Devices.Masks
import UnnamedOS.Stream.Pairing
import UnnamedOS.Devices.Keyboard
import UnnamedOS.Devices.Terminal
import UnnamedOS.Devices.DeviceNames
import UnnamedOS.Userland.Shell
import UnnamedOS.Userland.RoundTrip
import UnnamedOS.Proc.Accounting
import UnnamedOS.Proc.Postponed
import UnnamedOS.Paging.Isolation
import UnnamedOS.Interrupts.Stubs
import UnnamedOS.Proc.Contexts
import UnnamedOS.Paging.BootTables
import UnnamedOS.Devices.Console
import UnnamedOS.Devices.FloppyCommands
import UnnamedOS.Devices.FloppyStore

import Zenos.Process.GsBase
import Zenos.Isolation.Lifetime
import Zenos.Disk.SharedCursor
import Zenos.Disk.Resolution
import Zenos.Ext2.OldBytes
import Zenos.Memory.Bookkeeping
import Zenos.Memory.SlabRuns
import Zenos.Process.KernelStack
import Zenos.Disk.DriverArrays
import Zenos.Fat.Gaps
import Zenos.Syscall.Enumeration
import Zenos.Disk.AhciFrames
import Zenos.Syscall.Handlers
import Zenos.Isolation.FailedFork
import Zenos.Process.LoaderSafety
import Zenos.Syscall.Exec
import Zenos.Fat.Unlinked
import Zenos.Time
import Zenos.Tty
import Zenos.Fat.BootSector
import Zenos.Process.Stdin
import Zenos.Process.Orphans
import Zenos.Fat.Copies
import Zenos.Memory.PageTypes
import Zenos.Process.Selection
import Zenos.Syscall.WriteCounts
import Zenos.Libc.Strings

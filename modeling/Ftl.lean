import Ftl.Lib.Word
import Ftl.Lib.Utf8
import Ftl.Lib.ByteMem
import Ftl.Lib.Bytes
import Ftl.Lib.Footprint
import Ftl.Lib.Intervals
import Ftl.ArrayVec.ArrayVec
import Ftl.ArrayVec.ArrayString
import Ftl.Utils.Alignment
import Ftl.Lib.Run
import Ftl.BumpAllocator
import Ftl.Malloc
import Ftl.Elf
import Ftl.Kernel.Boot
import Ftl.Kernel.Memory.Regions
import Ftl.Kernel.Memory.PageAllocator
import Ftl.GlobalAllocator
import Ftl.Kernel.Loader
import Ftl.Kernel.Initfs
import Ftl.Api.Types
import Ftl.Lx.Syscall
import Ftl.Lx.Elf
import Ftl.Kernel.Machine
import Ftl.Kernel.VmArea
import Ftl.Kernel.Arch.VmSpace
import Ftl.Kernel.Arch.Tables
import Ftl.Kernel.Arch.Multiboot
import Ftl.Kernel.Arch.Pvh
import Ftl.Kernel.Arch.IoApic
import Ftl.Kernel.Arch.MpTable
import Ftl.Kernel.Arch.Descriptors
import Ftl.Kernel.Arch.Context
import Ftl.Lib.Focus
import Ftl.Kernel.VmSpace
import Ftl.Kernel.VmSpace.Contents
import Ftl.Kernel.SharedRef
import Ftl.Kernel.Thread
import Ftl.Kernel.Thread.Refcount
import Ftl.Kernel.Thread.Abstract
import Ftl.Kernel.Thread.Refinement
import Ftl.Kernel.Thread.Safety
import Ftl.Kernel.Thread.Calls
import Ftl.Kernel.Thread.Registers
import Ftl.Lx.Handler
import Ftl.Lx.Handler.Registers
import Ftl.Kernel.Server
import Ftl.Lx.Process
import Ftl.Lx.Process.Image
import Ftl.Lx.Process.Start
import Ftl.Lib.Tiling
import Ftl.Lib.Once
import Ftl.Malloc.Invariant

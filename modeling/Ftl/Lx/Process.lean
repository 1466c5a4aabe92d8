import Mathlib
import Ftl.Elf
import Ftl.Lx.Elf
import Ftl.Kernel.Server

/-!
# Loading a Linux program

`servers/lx/src/process.rs`, `Process::create(elf_file)`. The Linux server parses the executable,
asks the kernel for a `VmSpace`, and for each `PT_LOAD` segment allocates a `VmArea` of the
segment's page-rounded size, writes the file's bytes of the segment at the segment's offset in its
first page, and maps the area at the segment's page-rounded address. The first segment whose file
range holds the program headers gives `AT_PHDR`. Then it allocates the stack, builds the initial
stack in it (`build_initial_stack`, whose failure panics) and maps it at `STACK_BASE`.

The kernel calls go through `Ftl.MemKernel`. The `u64` and `usize` sums of the loop panic on
overflow, as a debug build does; `align_up` adds `PAGE_SIZE` before it subtracts one.

## Main definitions

* `Ftl.Lx.Process`, `Ftl.Lx.InitRegs`.
* `Ftl.Lx.findPhdrUaddr`, `Ftl.Lx.segmentAttrs`, `Ftl.Lx.loadSegment`, `Ftl.Lx.loadSegments`: the loop over the program
  headers.
* `Ftl.Lx.create`.
-/

namespace Ftl.Lx

/-- `InitRegs`: where the program starts, and its stack pointer. -/
structure InitRegs where
  pc : Nat
  sp : Nat
  deriving DecidableEq, Repr

/-- `Process`: the handle of its `VmSpace`. -/
structure Process where
  vmspace : Handle
  deriving DecidableEq, Repr

/-- The `argv` of `create`: `["hello\0"]`. -/
def helloArgv : List (List UInt8) := [[0x68, 0x65, 0x6c, 0x6c, 0x6f, 0]]

/-- The `random` of `create`: sixteen `'4'`. -/
def fourRandom : List.Vector UInt8 16 := ⟨List.replicate 16 0x34, List.length_replicate⟩

section Create

variable {σ : Type} (allocPage : σ → ByteMem → Option Nat × σ × ByteMem) (bootPdpt : Nat)

/-- The test of the loop for `AT_PHDR`: the address of the program headers in the segment of
`phdr`, if none was found yet and its file range holds them. `phdr.p_offset + phdr.p_filesz` is
only summed when the first two tests hold. -/
def findPhdrUaddr (ePhoff : Nat) (phdr : Elf.Phdr) (phdrUaddr : Option Nat) :
    EStateM Fault (MemKernel σ) (Option Nat) :=
  if phdrUaddr.isNone ∧ phdr.offset ≤ ePhoff then
    match Word.checkedAdd 64 phdr.offset phdr.filesz with
    | none => throw .panic
    | some segmentEnd =>
      if ePhoff < segmentEnd then
        match Word.checkedAdd 64 phdr.vaddr (ePhoff - phdr.offset) with
        | none => throw .panic
        | some uaddr => pure (some uaddr)
      else pure phdrUaddr
  else pure phdrUaddr

/-- The attributes of a segment's mapping: readable, and writable and executable as its flags
say. -/
def segmentAttrs (phdr : Elf.Phdr) : PageAttrs :=
  let attrs := PageAttrs.READ
  let attrs := if phdr.writable then attrs.or PageAttrs.WRITE else attrs
  if phdr.executable then attrs.or PageAttrs.EXEC else attrs

/-- The body of the loop for a `PT_LOAD` segment `phdr`, with `phdr_uaddr` so far: the new
`phdr_uaddr`. -/
def loadSegment (vmspace : Handle) (elfFile : List UInt8) (ePhoff : Nat) (phdr : Elf.Phdr)
    (phdrUaddr : Option Nat) : EStateM Fault (MemKernel σ) (Option Nat) := do
  let phdrUaddr ← findPhdrUaddr ePhoff phdr phdrUaddr
  let vaddr := phdr.vaddr
  let mappedVaddr := alignDown vaddr pageSize
  let vaddrOffset := vaddr - mappedVaddr
  let len ← match Word.checkedAdd 64 vaddrOffset phdr.memsz with
    | none => throw .panic
    | some size =>
      match alignUp size pageSize with
      | none => throw .panic
      | some len => pure len
  let vmarea ← MemKernel.vmareaAllocate len
  let fileOff := phdr.offset
  let fileSize := phdr.filesz
  -- `&elf_file[file_off..file_off + file_size]`
  let data ← match Word.checkedAdd 64 fileOff fileSize with
    | none => throw .panic
    | some fileEnd =>
      if fileEnd ≤ elfFile.length then pure ((elfFile.drop fileOff).take fileSize)
      else throw .panic
  MemKernel.vmareaWrite allocPage vmarea vaddrOffset data
  MemKernel.vmspaceMap allocPage vmspace vmarea mappedVaddr (segmentAttrs phdr)
  pure phdrUaddr

/-- The loop over the program headers `phdrs`, with `phdr_uaddr` so far; segments other than
`PT_LOAD` are skipped. -/
def loadSegments (vmspace : Handle) (elfFile : List UInt8) (ePhoff : Nat) :
    List Elf.Phdr → Option Nat → EStateM Fault (MemKernel σ) (Option Nat)
  | [], phdrUaddr => pure phdrUaddr
  | phdr :: phdrs, phdrUaddr =>
    if phdr.type ≠ Elf.PhdrType.load.toNat then loadSegments vmspace elfFile ePhoff phdrs phdrUaddr
    else do
      let phdrUaddr ← loadSegment allocPage vmspace elfFile ePhoff phdr phdrUaddr
      loadSegments vmspace elfFile ePhoff phdrs phdrUaddr

/-- `Process::create(elf_file)`. -/
def create (elfFile : List UInt8) : EStateM Fault (MemKernel σ) (Process × InitRegs) := do
  let elf ← match Elf.parse elfFile Elf.etExec with
    | none => throw .panic
    | some (.error _) => throw (.err .invalidArg)
    | some (.ok elf) => pure elf
  let vmspace ← MemKernel.vmspaceCreate allocPage bootPdpt
  let phdrUaddr ← loadSegments allocPage vmspace elfFile elf.ehdr.phoff elf.phdrs none
  let stack ← MemKernel.vmareaAllocate stackSize
  -- `build_initial_stack(..).expect(..)`: its errors and those of its write panic
  let sp ← match emitInitialStack elf.ehdr helloArgv [] phdrUaddr fourRandom with
    | .error _ => throw .panic
    | .ok (offset, buf, sp) => do
      tryCatch (MemKernel.vmareaWrite allocPage stack offset buf) fun _ => throw .panic
      pure sp
  MemKernel.vmspaceMap allocPage vmspace stack stackBase (PageAttrs.READ.or PageAttrs.WRITE)
  pure (⟨vmspace⟩, ⟨elf.ehdr.entry, sp⟩)

end Create

end Ftl.Lx

import Mathlib
import Ftl.Elf
import Ftl.Lib.Bytes
import Ftl.Kernel.Boot
import Ftl.Kernel.Memory.PageAllocator

/-!
# The kernel's loader of servers

`kernel/src/loader.rs`. `load_elf(elf_file)` parses the file as an `ET_DYN` image, sizes the image
by the largest end `p_vaddr + p_memsz` of a `PT_LOAD` segment rounded up to a page, allocates it
zeroed, copies each `PT_LOAD` segment from the file and zero-fills its tail, scans the
`PT_DYNAMIC` segments of the image for `DT_RELA` and `DT_RELASZ`, applies the
`R_X86_64_RELATIVE` relocations of that table, and returns the image and its entry point.

The image is the slice `image` over the allocated pages; the model keeps it as a list of bytes,
the state of `ImageM`, and writes it back to memory when the loader stops. The copies and fills
index slices, which panic out of range, and their bounds are `usize` sums, which panic on
overflow in the default (debug) profile. The dynamic section, the relocation table and the entry
point are raw pointers into the image that nothing checks: a view that leaves the image is
undefined behaviour, which the model stops at (`Stop.outOfImage`). The relocations are read from
the image they patch, one at a time, so the model reads each from the current image.

Every offset and size comes from the file, and `Elf::parse` checks none of the segments: a
`PT_LOAD` segment whose file range runs past the end of the file panics
(`loadElf_truncatedSegment_panics`).

## Main definitions

* `Ftl.Loader.loadSegment`, `Ftl.Loader.findRela`, `Ftl.Loader.applyRelocations`.
* `Ftl.Loader.loadElf`.
-/

namespace Ftl.Loader

open Elf

/-- `loader::Error`. -/
inductive Error where
  | parseElf
  | outOfMemory
  | badRelocType
  | badRelocOffset
  | badRelocSize
  deriving DecidableEq, Repr

/-- How `load_elf` stops other than with `Ok`. -/
inductive Stop where
  /-- It returns `Err(e)`. -/
  | error (e : Error)
  /-- It panics. -/
  | panic
  /-- It builds a raw-pointer view that leaves the image. -/
  | outOfImage
  deriving DecidableEq, Repr

/-- `LoadedElf`: the image's address and the entry point. -/
structure LoadedElf where
  image : Nat
  entry : Nat
  deriving DecidableEq, Repr

/-- A step of the loader on the image. -/
abbrev ImageM := EStateM Stop (List UInt8)

/-- `size_of::<Dyn>()`. -/
def dynSize : Nat := 16

/-- `size_of::<Rela>()`. -/
def relaSize : Nat := 24

/-- `DT_NULL`. -/
def dtNull : Int := 0

/-- `DT_RELA`. -/
def dtRela : Int := 7

/-- `DT_RELASZ`. -/
def dtRelasz : Int := 8

/-- `R_X86_64_RELATIVE`. -/
def rX8664Relative : Nat := 8

/-- The first loop of `load_elf`: `image_size.max(p_vaddr + p_memsz)` over the `PT_LOAD`
segments, on a `u64`; `none` when a sum overflows. -/
def imageEnd : List Phdr → Nat → Option Nat
  | [], size => some size
  | phdr :: phdrs, size =>
    if phdr.type = PhdrType.load.toNat then
      match Word.checkedAdd 64 phdr.vaddr phdr.memsz with
      | none => none
      | some segmentEnd => imageEnd phdrs (max size segmentEnd)
    else imageEnd phdrs size

/-- The body of the second loop of `load_elf` for one `PT_LOAD` segment: the copy of its file
bytes and the fill of its tail. -/
def loadSegment (elfFile : List UInt8) (phdr : Phdr) : ImageM Unit := do
  let image ← get
  let srcOff := phdr.offset
  let dstOff := phdr.vaddr
  let copyLen := phdr.filesz
  -- `&elf_file[src_off..src_off + copy_len]`
  let some srcEnd := Word.checkedAdd 64 srcOff copyLen | throw .panic
  if elfFile.length < srcEnd then throw .panic
  -- `&mut image[dst_off..dst_off + copy_len]`
  let some dstEnd := Word.checkedAdd 64 dstOff copyLen | throw .panic
  if image.length < dstEnd then throw .panic
  set (Bytes.writeAt image dstOff ((elfFile.drop srcOff).take copyLen))
  -- `p_memsz as usize - copy_len`
  let some zeroedLen := Word.checkedSub phdr.memsz copyLen | throw .panic
  if zeroedLen > 0 then
    let some zeroedEnd := Word.checkedAdd 64 dstEnd zeroedLen | throw .panic
    if image.length < zeroedEnd then throw .panic
    modify fun image => Bytes.writeAt image dstEnd (List.replicate zeroedLen 0)

/-- The second loop of `load_elf`, over the program headers. -/
def loadSegments (elfFile : List UInt8) : List Phdr → ImageM Unit
  | [] => pure ()
  | phdr :: phdrs => do
    if phdr.type = PhdrType.load.toNat then loadSegment elfFile phdr
    loadSegments elfFile phdrs

/-- The loop over the entries of one dynamic section, at the offsets `offs` of the image, with
`(rela_addr, rela_size)` so far; `DT_NULL` ends it. -/
def scanDynamic (image : List UInt8) : List Nat → Nat × Nat → Nat × Nat
  | [], acc => acc
  | off :: offs, (relaAddr, relaSz) =>
    let tag := Word.toSigned 64 (Bytes.readLE image off 8)
    let val := Bytes.readLE image (off + 8) 8
    if tag = dtNull then (relaAddr, relaSz)
    else if tag = dtRela then scanDynamic image offs (val, relaSz)
    else if tag = dtRelasz then scanDynamic image offs (relaAddr, val)
    else scanDynamic image offs (relaAddr, relaSz)

/-- The third loop of `load_elf`: `(rela_addr, rela_size)` from the `PT_DYNAMIC` segments. The
dynamic section is the view of `p_memsz / size_of::<Dyn>()` entries at `p_vaddr`. -/
def findRela (image : List UInt8) : List Phdr → Nat × Nat → Except Stop (Nat × Nat)
  | [], acc => .ok acc
  | phdr :: phdrs, acc =>
    if phdr.type ≠ PhdrType.dynamic.toNat then findRela image phdrs acc
    else
      let count := phdr.memsz / dynSize
      if image.length < phdr.vaddr + count * dynSize then .error .outOfImage
      else
        findRela image phdrs
          (scanDynamic image ((List.range count).map fun i => phdr.vaddr + i * dynSize) acc)

/-- The loop over the relocations at the offsets `offs` of the image; `base` is the image's
address. -/
def applyRelocations (base : Nat) : List Nat → ImageM Unit
  | [] => pure ()
  | off :: offs => do
    let image ← get
    let rOffset := Bytes.readLE image off 8
    let rInfo := Bytes.readLE image (off + 8) 8
    let rAddend := Bytes.readLE image (off + 16) 8
    -- `r_sym()` and `r_type()`
    if (rInfo >>> 32) % 2 ^ 32 ≠ 0 then throw (.error .badRelocType)
    if rInfo % 2 ^ 32 ≠ rX8664Relative then throw (.error .badRelocType)
    match Word.checkedAdd 64 rOffset 8 with
    | none => throw (.error .badRelocOffset)
    | some targetEnd =>
      if image.length < targetEnd then throw (.error .badRelocOffset)
      -- `base.wrapping_add(r_addend as u64)`
      set (Bytes.writeAt image rOffset (Bytes.ofNatLE 8 ((base + rAddend) % 2 ^ 64)))
      applyRelocations base offs

/-- What `load_elf` does to the image once it is allocated; the result is the entry point. -/
def loadImage (elfFile : List UInt8) (elf : Elf) (base : Nat) : ImageM Nat := do
  loadSegments elfFile elf.phdrs
  let image ← get
  let (relaAddr, relaSz) ← match findRela image elf.phdrs (0, 0) with
    | .ok r => pure r
    | .error e => throw e
  if relaAddr ≠ 0 ∧ relaSz > 0 then
    if relaSz % relaSize ≠ 0 then throw (.error .badRelocSize)
    let count := relaSz / relaSize
    if image.length < relaAddr + count * relaSize then throw .outOfImage
    applyRelocations base ((List.range count).map fun i => relaAddr + i * relaSize)
  -- `image.as_ptr().add(e_entry)`
  if image.length < elf.ehdr.entry then throw .outOfImage
  pure (base + elf.ehdr.entry)

/-- `load_elf(elf_file)` with the page allocator and memory: the result, and the allocator and
memory after it; the image's bytes are in memory whether or not the loader returns. -/
def loadElf (elfFile : List UInt8) (st : Memory.PageAllocator × ByteMem) :
    Except Stop LoadedElf × (Memory.PageAllocator × ByteMem) :=
  match Elf.parse elfFile etDyn with
  | none => (.error .panic, st)
  | some (.error _) => (.error (.error .parseElf), st)
  | some (.ok elf) =>
    match imageEnd elf.phdrs 0 with
    | none => (.error .panic, st)
    | some size =>
      match alignUp size minPageSize with
      | none => (.error .panic, st)
      | some imageSize =>
        match st.1.alloc st.2 imageSize .zeroed with
        | (none, pa, mem) => (.error (.error .outOfMemory), (pa, mem))
        | (some imagePaddr, pa, mem) =>
          let base := paddr2vaddr imagePaddr
          match (loadImage elfFile elf base).run (List.replicate imageSize 0) with
          | .ok entry image => (.ok ⟨base, entry⟩, (pa, mem.writeBytes imagePaddr image))
          | .error e image => (.error e, (pa, mem.writeBytes imagePaddr image))

/-! ### Segments the parser lets through -/

section Segments

variable {elfFile image : List UInt8} {phdr : Phdr}

end Segments

/-- A 120-byte `ET_DYN` file for x86-64: the header, and at `e_phoff = 64` one `PT_LOAD` segment
with `p_offset = 0`, `p_vaddr = 0` and `p_filesz = p_memsz = 0x1000`, longer than the file. -/
def truncatedSegmentFile : List UInt8 :=
  [0x7f, 0x45, 0x4c, 0x46, 2, 1, 1, 0, 0, 0, 0, 0, 0, 0, 0, 0] ++ Bytes.ofNatLE 2 etDyn ++
    Bytes.ofNatLE 2 emNative ++ Bytes.ofNatLE 4 1 ++ Bytes.ofNatLE 8 0 ++
    Bytes.ofNatLE 8 ehdrSize ++ Bytes.ofNatLE 8 0 ++ Bytes.ofNatLE 4 0 ++
    Bytes.ofNatLE 2 ehdrSize ++ Bytes.ofNatLE 2 phdrSize ++ Bytes.ofNatLE 2 1 ++
    Bytes.ofNatLE 6 0 ++
    Bytes.ofNatLE 4 PhdrType.load.toNat ++ Bytes.ofNatLE 4 5 ++ Bytes.ofNatLE 8 0 ++
    Bytes.ofNatLE 8 0 ++ Bytes.ofNatLE 8 0 ++ Bytes.ofNatLE 8 0x1000 ++ Bytes.ofNatLE 8 0x1000 ++
    Bytes.ofNatLE 8 0x1000

/-- `Elf::parse(_, ET_DYN)` accepts the file above, and `load_elf` on it, with the free pages
`[0x20_0000, 0x40_0000)`, panics: the copy of the segment slices the file past its end. -/
theorem loadElf_truncatedSegment_panics :
    (∃ elf, Elf.parse truncatedSegmentFile etDyn = some (.ok elf)) ∧
      (loadElf truncatedSegmentFile
        (Memory.PageAllocator.new.addRegion 0x20_0000 0x40_0000, ByteMem.zero)).1 = .error .panic :=
  ⟨⟨⟨Ehdr.decode truncatedSegmentFile, phdrTable truncatedSegmentFile ehdrSize 1⟩, by decide +kernel⟩,
    by decide +kernel⟩

end Ftl.Loader

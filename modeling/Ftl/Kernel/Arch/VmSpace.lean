import Mathlib
import Ftl.Kernel.Machine

/-!
# x64 page tables

`kernel/src/arch/x64/vmspace.rs`. A page table is a 4096-byte page of 512 little-endian 64-bit
entries; a table is reached from an entry through the physical address in its bits `12 .. 51`.
`VmSpace::new` allocates a zeroed PML4 and points its entry 256 at the boot PDPT `BOOT_PDPT`,
which maps the first 4 GiB of physical memory at `KERNEL_BASE` with 1 GiB pages and which every
address space shares. `map` walks the three upper levels with `ensure_next_table`, which
allocates a table for an entry that is not present and fails on a huge entry, and writes the
leaf entry.

The tables live in the physical memory of the `Machine`; the kernel reaches them through the
direct map, which the model reads as physical memory. `Pte::new` asserts (a `debug_assert!`, on
in the default profile) that the address is page aligned; the model panics there. The boot PDPT
is a static of the kernel image, at a physical address `bootPdpt` that is a parameter.

What the MMU does with the tables is `translate`: the x86-64 four-level walk of a virtual
address, which reads bits `12 .. 47` of the address and ends at the first huge or level-1 entry.
It is not in the source; it is the meaning the page tables have.

## Main definitions

* `Ftl.Arch.readPte`, `Ftl.Arch.writePte`, `Ftl.Arch.isPresent`, `Ftl.Arch.isHuge`,
  `Ftl.Arch.ptePaddr`, and the four index functions.
* `Ftl.Arch.ensureNextTable`, `Ftl.Arch.VmSpace.new`, `Ftl.Arch.VmSpace.map`.
* `Ftl.Arch.translate`: the MMU's walk.
* `Ftl.Arch.bootMemory`: memory holding the initial `BOOT_PDPT`.
-/

namespace Ftl.Arch

/-! ### Entries -/

/-- `PTE_V`. -/
def pteV : Nat := 1 <<< 0

/-- `PTE_W`. -/
def pteW : Nat := 1 <<< 1

/-- `PTE_U`. -/
def pteU : Nat := 1 <<< 2

/-- `PTE_HUGE`. -/
def pteHuge : Nat := 1 <<< 7

/-- `ENTRIES_PER_TABLE`. -/
def entriesPerTable : Nat := 512

/-- `Pte::is_present`. -/
def isPresent (pte : Nat) : Bool := pte &&& pteV != 0

/-- `Pte::is_huge`. -/
def isHuge (pte : Nat) : Bool := pte &&& pteHuge != 0

/-- `Pte::paddr`: bits `12 .. 51`. -/
def ptePaddr (pte : Nat) : Nat := pte &&& 0x000f_ffff_ffff_f000

/-- `pml4_index(vaddr)`. -/
def pml4Index (vaddr : Nat) : Nat := (vaddr >>> 39) &&& 0x1ff

/-- `pdpt_index(vaddr)`. -/
def pdptIndex (vaddr : Nat) : Nat := (vaddr >>> 30) &&& 0x1ff

/-- `pdt_index(vaddr)`. -/
def pdtIndex (vaddr : Nat) : Nat := (vaddr >>> 21) &&& 0x1ff

/-- `pt_index(vaddr)`. -/
def ptIndex (vaddr : Nat) : Nat := (vaddr >>> 12) &&& 0x1ff

/-- Entry `index` of the table at physical address `table`. -/
def readPte (mem : ByteMem) (table index : Nat) : Nat := mem.readLE (table + 8 * index) 8

/-- Store `pte` as entry `index` of the table at `table`. -/
def writePte (mem : ByteMem) (table index pte : Nat) : ByteMem :=
  mem.writeLE (table + 8 * index) pte 8

/-- `BOOT_PDPT`'s initial entry `i`: the first `DIRECT_MAP_SIZE / GIGA_PAGE_SIZE` entries map
1 GiB pages, writable. -/
def bootPdptEntry (i : Nat) : Nat :=
  if i < directMapSize / gigaPageSize then (i * gigaPageSize) ||| (pteV ||| pteW ||| pteHuge)
  else 0

/-- Memory `mem` with the initialiser of `BOOT_PDPT` stored at `bootPdpt`. -/
def bootMemory (mem : ByteMem) (bootPdpt : Nat) : ByteMem :=
  (List.range (directMapSize / gigaPageSize)).foldl
    (fun mem i => writePte mem bootPdpt i (bootPdptEntry i)) mem

/-! ### The code -/

section Code

variable {σ : Type} (allocPage : σ → ByteMem → Option Nat × σ × ByteMem)

/-- `Pte::new(paddr, flags)`; its `debug_assert!` that `paddr` is page aligned panics. -/
def pteNew (paddr flags : Nat) : EStateM Fault (Machine σ) Nat :=
  if isAligned paddr 4096 then pure (paddr ||| flags) else throw .panic

/-- `alloc_table()`: a zeroed page from the page allocator. -/
def allocTable : EStateM Fault (Machine σ) Nat := do
  let m ← get
  match allocPage m.pa m.mem with
  | (none, pa, mem) =>
    set ({ pa, mem } : Machine σ)
    throw (.err .outOfMemory)
  | (some paddr, pa, mem) =>
    set ({ pa, mem } : Machine σ)
    pure paddr

/-- `ensure_next_table(table, index)`: the table that entry `index` of `table` points to,
allocated and linked with `PTE_V | PTE_W | PTE_U` when the entry is not present. -/
def ensureNextTable (table index : Nat) : EStateM Fault (Machine σ) Nat := do
  let m ← get
  let entry := readPte m.mem table index
  if !isPresent entry then
    let paddr ← allocTable allocPage
    let pte ← pteNew paddr (pteV ||| pteW ||| pteU)
    modify fun m => { m with mem := writePte m.mem table index pte }
    pure paddr
  else
    if isHuge entry then throw (.err .unsupported)
    pure (ptePaddr entry)

/-- `arch::VmSpace`: the PML4 (reached through the direct map) and the value for `CR3`. -/
structure VmSpace where
  pml4 : Nat
  cr3 : Nat
  deriving DecidableEq, Repr

/-- `VmSpace::new()`, with `BOOT_PDPT` at the physical address `bootPdpt`. -/
def VmSpace.new (bootPdpt : Nat) : EStateM Fault (Machine σ) VmSpace := do
  let pml4Paddr ← allocTable allocPage
  let pte ← pteNew bootPdpt pteV
  modify fun m => { m with mem := writePte m.mem pml4Paddr 256 pte }
  pure ⟨pml4Paddr, pml4Paddr⟩

/-- `VmSpace::map(uaddr, paddr, len, attrs)`: one leaf entry for `uaddr`. -/
def VmSpace.map (vs : VmSpace) (uaddr paddr len : Nat) (attrs : PageAttrs) :
    EStateM Fault (Machine σ) Unit := do
  if !isAligned uaddr minPageSize || !isAligned paddr minPageSize || !isAligned len minPageSize then
    throw (.err .invalidArg)
  -- kernel mappings stay immutable
  if uaddr ≥ kernelBase then throw (.err .notAllowed)
  let pdpt ← ensureNextTable allocPage vs.pml4 (pml4Index uaddr)
  let pdt ← ensureNextTable allocPage pdpt (pdptIndex uaddr)
  let pt ← ensureNextTable allocPage pdt (pdtIndex uaddr)
  let m ← get
  if isPresent (readPte m.mem pt (ptIndex uaddr)) then throw (.err .alreadyExists)
  let pte ← pteNew paddr (pteV ||| pteU ||| attrs.asRaw)
  modify fun m => { m with mem := writePte m.mem pt (ptIndex uaddr) pte }

end Code

/-! ### The MMU -/

/-- The MMU's walk of `vaddr` under the PML4 at `cr3`: the physical address it translates to,
and the entry that maps it; `none` when some entry on the way is not present. A huge entry in the
PDPT maps 1 GiB, in the page directory 2 MiB. -/
def translate (mem : ByteMem) (cr3 vaddr : Nat) : Option (Nat × Nat) :=
  let e4 := readPte mem cr3 (pml4Index vaddr)
  if !isPresent e4 then none else
  let e3 := readPte mem (ptePaddr e4) (pdptIndex vaddr)
  if !isPresent e3 then none
  else if isHuge e3 then some ((e3 &&& 0x000f_ffff_c000_0000) + vaddr % 2 ^ 30, e3) else
  let e2 := readPte mem (ptePaddr e3) (pdtIndex vaddr)
  if !isPresent e2 then none
  else if isHuge e2 then some ((e2 &&& 0x000f_ffff_ffe0_0000) + vaddr % 2 ^ 21, e2) else
  let e1 := readPte mem (ptePaddr e2) (ptIndex vaddr)
  if !isPresent e1 then none else some (ptePaddr e1 + vaddr % 2 ^ 12, e1)

end Ftl.Arch

import Mathlib
import Ftl.Lib.Focus
import Ftl.Kernel.VmArea
import Ftl.Kernel.Arch.VmSpace

/-!
# Virtual address spaces

`kernel/src/vmspace.rs`. A `VmSpace` is the page table of `arch::VmSpace` and the list of its
mappings, sorted by start address. `map(vmarea, uaddr, attrs)` checks the alignment of `uaddr`,
computes the end with `checked_add`, refuses a range that overlaps a mapping, maps the pages of
the area one by one (each allocated on the way by `ensure_page`), and only then inserts the
mapping at its place in the list.

The VM areas are shared (`SharedRef<VmArea>`): a mapping holds a reference, and what the area's
calls change is seen through every reference. The model keeps the areas in `Objects.areas`, by
the identity of their `SharedRef`, next to the `Machine`; a mapping names its area. An area's
call runs on its part of the state through `EStateM.focus`.

`Vec::try_reserve` asks the kernel heap for room; the model takes it to succeed.
`partition_point` is a binary search; on the sorted list it is the length of the longest prefix
whose starts are below `uaddr` (`List.takeWhile`).

## Main definitions

* `Ftl.Mapping`, `Ftl.VmSpace`, `Ftl.Objects`.
* `Ftl.VmSpace.new`, `Ftl.VmSpace.map`, and the loop `Ftl.VmSpace.mapPages`.
-/

namespace Ftl

/-- `Mapping`: the range `[start, end)`, the area mapped there, and its attributes. -/
structure Mapping where
  start : Nat
  end_ : Nat
  vmarea : Nat
  attrs : PageAttrs
  deriving DecidableEq, Repr

/-- `Mapping::overlaps_with(start, end)`. -/
def Mapping.overlapsWith (m : Mapping) (start end_ : Nat) : Bool :=
  start < m.end_ && m.start < end_

/-- `VmSpace`: the page table and the mappings. -/
structure VmSpace where
  arch : Arch.VmSpace
  mappings : List Mapping
  deriving DecidableEq, Repr

/-- What a `VmSpace` reaches besides itself: physical memory with the page allocator, and the VM
areas. -/
structure Objects (σ : Type) where
  machine : Machine σ
  areas : Nat → VmArea

namespace VmSpace

variable {σ : Type}

/-- The machine, as a part of the state of a `VmSpace` call. -/
def machineLens : Lens (VmSpace × Objects σ) (Machine σ) where
  get t := t.2.machine
  set m t := (t.1, { t.2 with machine := m })
  get_set _ _ := rfl
  set_get _ := rfl

/-- The area `vmarea` and the machine, as a part of the state of a `VmSpace` call. -/
def areaLens (vmarea : Nat) : Lens (VmSpace × Objects σ) (VmArea × Machine σ) where
  get t := (t.2.areas vmarea, t.2.machine)
  set s t := (t.1, ⟨s.2, Function.update t.2.areas vmarea s.1⟩)
  get_set _ _ := by simp
  set_get _ := by simp

section Code

variable (allocPage : σ → ByteMem → Option Nat × σ × ByteMem)

/-- `VmSpace::new()`. -/
def new (bootPdpt : Nat) : EStateM Fault (Machine σ) VmSpace := do
  let arch ← Arch.VmSpace.new allocPage bootPdpt
  pure ⟨arch, []⟩

/-- The loop of `map`: the pages `indices` of `vmarea`, from `uaddr` on. -/
def mapPages (vmarea : Nat) (attrs : PageAttrs) :
    List Nat → Nat → EStateM Fault (VmSpace × Objects σ) Unit
  | [], _ => pure ()
  | index :: indices, uaddr => do
    let paddr ← EStateM.focus (areaLens vmarea) (VmArea.ensurePage allocPage index)
    let (vs, _) ← get
    EStateM.focus machineLens (vs.arch.map allocPage uaddr paddr minPageSize attrs)
    -- `uaddr.add(MIN_PAGE_SIZE).unwrap()`
    match Word.checkedAdd 64 uaddr minPageSize with
    | none => throw .panic
    | some uaddr' => mapPages vmarea attrs indices uaddr'

/-- `VmSpace::map(vmarea, uaddr, attrs)`. -/
def map (vmarea : Nat) (uaddr : Nat) (attrs : PageAttrs) :
    EStateM Fault (VmSpace × Objects σ) Unit := do
  if !isAligned uaddr minPageSize then throw (.err .invalidArg)
  let (vs, o) ← get
  let len := (o.areas vmarea).len
  match Word.checkedAdd 64 uaddr len with
  | none => throw (.err .outOfBounds)
  | some end_ =>
    if vs.mappings.any (fun m => m.overlapsWith uaddr end_) then throw (.err .alreadyExists)
    mapPages allocPage vmarea attrs (List.range (len / minPageSize)) uaddr
    let insertAt := (vs.mappings.takeWhile fun m => m.start < uaddr).length
    modify fun (vs, o) =>
      ({ vs with mappings := vs.mappings.insertIdx insertAt ⟨uaddr, end_, vmarea, attrs⟩ }, o)

/-- The loop of `read_bytes`: the mappings from the first one on, the address reached, and what
is left of the buffer; the result is the buffer after the call. When the mappings run out, the
loop stops and the rest of the buffer is left as it was. -/
def readBytesLoop : List Mapping → Nat → List UInt8 → EStateM Fault (VmSpace × Objects σ) (List UInt8)
  | _, _, [] => pure []
  | [], _, buf => pure buf
  | m :: ms, uaddr, buf => do
    if !(m.start ≤ uaddr ∧ uaddr < m.end_) then throw (.err .outOfBounds)
    let copyLen := min buf.length (m.end_ - uaddr)
    let chunk ← EStateM.focus (areaLens m.vmarea)
      (VmArea.read allocPage (uaddr - m.start) (buf.take copyLen))
    -- `uaddr.add(copy_len).unwrap()`
    match Word.checkedAdd 64 uaddr copyLen with
    | none => throw .panic
    | some uaddr' =>
      let rest ← readBytesLoop ms uaddr' (buf.drop copyLen)
      pure (chunk ++ rest)

/-- `VmSpace::read_bytes(uaddr, buf)`: the contents of `buf` after the call. -/
def readBytes (uaddr : Nat) (buf : List UInt8) : EStateM Fault (VmSpace × Objects σ) (List UInt8) := do
  if buf.isEmpty then return buf
  match Word.checkedAdd 64 uaddr buf.length with
  | none => throw (.err .outOfBounds)
  | some _ =>
    let (vs, _) ← get
    -- the last mapping that starts at or below `uaddr`
    match Word.checkedSub (vs.mappings.takeWhile fun m => m.start ≤ uaddr).length 1 with
    | none => throw (.err .outOfBounds)
    | some index => readBytesLoop allocPage (vs.mappings.drop index) uaddr buf

end Code

/-! ### The mapping list -/

section Mappings

variable {allocPage : σ → ByteMem → Option Nat × σ × ByteMem}

open EStateM

end Mappings

/-! ### Addresses the walk reads differently from the check

`map` refuses `uaddr ≥ KERNEL_BASE` only. The walk reads bits `12 .. 47` of the address, so a
`uaddr` below `KERNEL_BASE` whose bits `39 .. 47` are `256` lands in PML4 entry 256, which every
space points at the shared `BOOT_PDPT`; and the pages of an area are checked one by one, so an
area that runs into `KERNEL_BASE` fails halfway, after its first pages are mapped. -/

/-- A machine as the kernel boots: `BOOT_PDPT` at `0x10_0000` and the free pages
`[0x20_0000, 0x40_0000)`. -/
def bootMachine : Machine Memory.PageAllocator :=
  ⟨Memory.PageAllocator.new.addRegion 0x20_0000 0x40_0000, Arch.bootMemory ByteMem.zero 0x10_0000⟩

/-- Mapping a page at `0x0000_8001_0000_0000` into one space links a page directory into
`BOOT_PDPT`: the kernel address `0xffff_8001_0000_0000` becomes mapped in every space. -/
theorem map_alters_other_space :
    ∃ A B : VmSpace, ∃ area : VmArea, ∃ m₁ m₂ : Machine Memory.PageAllocator,
      ∃ s : VmSpace × Objects Memory.PageAllocator,
      (new kernelAllocPage 0x10_0000).run bootMachine = .ok A m₁ ∧
      (new kernelAllocPage 0x10_0000).run m₁ = .ok B m₂ ∧ A.arch ≠ B.arch ∧
      VmArea.newAnonymous 4096 = .ok area ∧
      (map kernelAllocPage 0 0x0000_8001_0000_0000 PageAttrs.READ).run
        (A, ⟨m₂, fun _ => area⟩) = .ok () s ∧
      Arch.translate m₂.mem B.arch.cr3 0xffff_8001_0000_0000 = none ∧
      Arch.translate s.2.machine.mem B.arch.cr3 0xffff_8001_0000_0000 ≠ none ∧
      Arch.translate m₂.mem A.arch.cr3 0xffff_8001_0000_0000 = none ∧
      Arch.translate s.2.machine.mem A.arch.cr3 0xffff_8001_0000_0000 ≠ none := by
  refine ⟨_, _, _, _, _, _, rfl, rfl, ?_, rfl, rfl, ?_, ?_, ?_, ?_⟩ <;> decide +kernel

/-- A two-page area mapped at `KERNEL_BASE - 4096`: the second page is refused, `map` fails and
keeps the list empty, but the first page stays mapped. -/
theorem map_error_leaves_pte :
    ∃ A : VmSpace, ∃ area : VmArea, ∃ m₁ : Machine Memory.PageAllocator,
      ∃ s : VmSpace × Objects Memory.PageAllocator,
      (new kernelAllocPage 0x10_0000).run bootMachine = .ok A m₁ ∧
      VmArea.newAnonymous 8192 = .ok area ∧
      (map kernelAllocPage 0 (kernelBase - 4096) PageAttrs.READ).run (A, ⟨m₁, fun _ => area⟩) =
        .error (.err .notAllowed) s ∧
      s.1.mappings = [] ∧
      Arch.translate m₁.mem A.arch.cr3 (kernelBase - 4096) = none ∧
      Arch.translate s.2.machine.mem A.arch.cr3 (kernelBase - 4096) ≠ none := by
  refine ⟨_, _, _, _, rfl, rfl, rfl, rfl, ?_, ?_⟩ <;> decide +kernel

/-! ### Reads past the last mapping

The loop of `read_bytes` stops when the buffer is full or when the mappings run out, and only the
first case has read every byte: a read that starts in the last mapping and runs past its end
returns `Ok` with the rest of the buffer never written. -/

/-- A page mapped at `0x1000` and a read of 16 bytes at `0x1ff8` into a buffer of `0xaa`:
`read_bytes` returns `Ok`, although `0x2000` lies in no mapping; the first 8 bytes are the page's
zeros and the last 8 are never written. -/
theorem readBytes_past_last_mapping :
    ∃ A : VmSpace, ∃ area : VmArea, ∃ m₁ : Machine Memory.PageAllocator,
      ∃ s : VmSpace × Objects Memory.PageAllocator,
      (new kernelAllocPage 0x10_0000).run bootMachine = .ok A m₁ ∧
      VmArea.newAnonymous 4096 = .ok area ∧
      (map kernelAllocPage 0 0x1000 PageAttrs.READ).run (A, ⟨m₁, fun _ => area⟩) = .ok () s ∧
      (∀ m ∈ s.1.mappings, ¬ (m.start ≤ 0x2000 ∧ 0x2000 < m.end_)) ∧
      (readBytes kernelAllocPage 0x1ff8 (List.replicate 16 0xaa)).run' s =
        some (List.replicate 8 0 ++ List.replicate 8 0xaa) := by
  refine ⟨_, _, _, _, rfl, rfl, rfl, ?_, ?_⟩ <;> decide +kernel

end VmSpace

end Ftl

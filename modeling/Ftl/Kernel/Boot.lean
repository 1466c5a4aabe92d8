import Mathlib
import Ftl.ArrayVec.ArrayVec

/-!
# Boot information and the physical address space

The constants of the x64 port (`kernel/src/arch/x64/vmspace.rs`), physical address ranges, and
the `BootInfo` the boot code hands to `boot` (`kernel/src/boot.rs`). Physical and virtual
addresses (`PAddr`, `VAddr`) are `usize` wrappers and are modelled as natural numbers; a
`Range<PAddr>` is a `Range`, and `Range.ico` is the set of addresses it covers.

## Main definitions

* `Ftl.minPageSize`, `Ftl.kernelBase`, `Ftl.directMapEnd`, `Ftl.paddr2vaddr`.
* `Ftl.Range`, `Ftl.Range.ico`.
* `Ftl.FreeRam`, `Ftl.Module`, `Ftl.BootInfo`.
-/

namespace Ftl

/-! ### Constants of the x64 port -/

/-- `MIN_PAGE_SIZE`. -/
def minPageSize : Nat := 4096

/-- `KERNEL_BASE`: the lowest address of the kernel half. -/
def kernelBase : Nat := 0xffff_8000_0000_0000

/-- `GIGA_PAGE_SIZE`. -/
def gigaPageSize : Nat := 1024 * 1024 * 1024

/-- `DIRECT_MAP_SIZE`: the physical memory the boot page table maps at `KERNEL_BASE`. -/
def directMapSize : Nat := 4 * gigaPageSize

/-- `DIRECT_MAP_END`. -/
def directMapEnd : Nat := directMapSize

/-- `paddr2vaddr(paddr)`: where the direct map shows the physical address `paddr`. -/
def paddr2vaddr (paddr : Nat) : Nat := paddr ||| kernelBase

theorem minPageSize_eq : minPageSize = 2 ^ 12 := rfl

theorem directMapEnd_lt : directMapEnd < 2 ^ 64 := by decide

/-! ### Address ranges -/

/-- `Range<PAddr>`: the addresses from `start` up to, not including, `end`. -/
structure Range where
  start : Nat
  end_ : Nat
  deriving DecidableEq, Repr

namespace Range

/-- The addresses the range covers. -/
def ico (r : Range) : Set Nat := Set.Ico r.start r.end_

theorem mem_ico {r : Range} {a : Nat} : a ∈ r.ico ↔ r.start ≤ a ∧ a < r.end_ := Set.mem_Ico

/-- Ranges one of which ends before the other starts are disjoint. -/
theorem disjoint_ico_of_end_le {x y : Range} (h : x.end_ ≤ y.start) : Disjoint x.ico y.ico := by
  rw [Set.disjoint_left]
  intro a hx hy
  rw [mem_ico] at hx hy
  omega

end Range

/-! ### Boot information -/

/-- `FreeRam`: a region of RAM the firmware reports free. -/
structure FreeRam where
  addr : Nat
  size : Nat
  deriving DecidableEq, Repr

/-- `Module`: a boot module (the initfs image) loaded into RAM. -/
structure Module where
  start : Nat
  end_ : Nat
  deriving DecidableEq, Repr

/-- `NUM_MODULES_MAX`. -/
def numModulesMax : Nat := 8

/-- `BootInfo`: the boot modules and the free RAM regions. -/
structure BootInfo where
  modules : ArrayVec Module numModulesMax
  freeRams : ArrayVec FreeRam 8

end Ftl

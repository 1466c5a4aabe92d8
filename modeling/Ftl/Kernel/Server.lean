import Mathlib
import Ftl.Kernel.Thread
import Ftl.Kernel.VmSpace.Contents

/-!
# The memory calls of a server

`kernel/src/server.rs`. A server reaches the kernel's memory objects through the calls of
`START_INFO`: `vmspace_create` makes a `VmSpace` and `vmarea_allocate(len)` a `VmArea`, each
handed to the server as a handle with the type's default rights; `vmarea_write`, `vmspace_map` and
`vmspace_read` take handles back through `SharedRef::from_borrowed_handle`, which checks the
handle's type and right, and call the object. The server's side (`ftl_api::vmarea::VmArea`,
`ftl_api::vmspace::VmSpace`) passes its arguments through unchanged.

The model keeps what these calls reach, `MemKernel`: the machine and the areas (`Objects`) and the
spaces, both by the address of their `SharedRef`, and the next address the kernel heap hands out.
Counters are left out: the reference `from_borrowed_handle` makes lives to the end of its call or
moves into a mapping, and no call here frees an object. The kernel heap is taken to have room for
every `SharedRef::new`. A call's `Err(e)` is a `Fault.err e`, which the server's `?` passes on.

## Main definitions

* `Ftl.MemKernel` and its calls `vmspaceCreate`, `vmareaAllocate`, `vmareaWrite`, `vmspaceMap`,
  `vmspaceRead`.

## Main results

* `Ftl.MemKernel.vmspaceCreate_spec`, `Ftl.MemKernel.vmareaAllocate_spec`: the new objects.
* `Ftl.MemKernel.run_vmareaWrite`, `Ftl.MemKernel.run_vmspaceMap`,
  `Ftl.MemKernel.run_vmspaceRead`: a call through a handle the kernel handed out is the object's
  call, set back into the kernel.
-/

namespace Ftl

/-- The memory objects of the kernel, by the address of their `SharedRef`, and the next address of
the kernel heap. -/
structure MemKernel (σ : Type) where
  objs : Objects σ
  spaces : Nat → VmSpace
  next : Nat

namespace MemKernel

variable {σ : Type}

/-- The machine. -/
def machineLens : Lens (MemKernel σ) (Machine σ) where
  get k := k.objs.machine
  set m k := { k with objs := { k.objs with machine := m } }
  get_set _ _ := rfl
  set_get _ := rfl

/-- The area at `r` and the machine. -/
def areaLens (r : Nat) : Lens (MemKernel σ) (VmArea × Machine σ) where
  get k := (k.objs.areas r, k.objs.machine)
  set s k := { k with objs := ⟨s.2, Function.update k.objs.areas r s.1⟩ }
  get_set _ _ := by simp
  set_get _ := by simp

/-- The space at `r` and the objects. -/
def spaceLens (r : Nat) : Lens (MemKernel σ) (VmSpace × Objects σ) where
  get k := (k.spaces r, k.objs)
  set s k := { k with spaces := Function.update k.spaces r s.1, objs := s.2 }
  get_set _ _ := by simp
  set_get _ := by simp

section Calls

variable (allocPage : σ → ByteMem → Option Nat × σ × ByteMem) (bootPdpt : Nat)

/-- `SharedRef::new(value)`: the next address of the kernel heap. -/
def newRef : EStateM Fault (MemKernel σ) Nat :=
  modifyGet fun k => (k.next, { k with next := k.next + 1 })

/-- The checks of `SharedRef::<T>::from_borrowed_handle(handle, action)` for the `T` of `typeId`:
the address of the object the handle names. -/
def fromBorrowedHandle (typeId : TypeId) (handle : Handle) (action : HandleRight) :
    EStateM Fault (MemKernel σ) Nat := do
  if handle.typeId ≠ typeId then throw (.err .invalidType)
  if !handle.right.contains action then throw (.err .notAllowed)
  pure handle.raw

/-- `vmspace_create`. -/
def vmspaceCreate : EStateM Fault (MemKernel σ) Handle := do
  let vmspace ← EStateM.focus machineLens (VmSpace.new allocPage bootPdpt)
  let r ← newRef
  modify fun k => { k with spaces := Function.update k.spaces r vmspace }
  pure (SharedRef.intoHandle r .vmSpace Kernel.vmRight)

/-- `vmarea_allocate(len)`. -/
def vmareaAllocate (len : Nat) : EStateM Fault (MemKernel σ) Handle := do
  match VmArea.newAnonymous len with
  | .error e => throw (.err e)
  | .ok vmarea =>
    let r ← newRef
    modify fun k => { k with objs := { k.objs with areas := Function.update k.objs.areas r vmarea } }
    pure (SharedRef.intoHandle r .vmArea Kernel.vmRight)

/-- `vmarea_write(vmarea, offset, data)`. -/
def vmareaWrite (vmarea : Handle) (offset : Nat) (data : List UInt8) :
    EStateM Fault (MemKernel σ) Unit := do
  let r ← fromBorrowedHandle .vmArea vmarea .WRITE
  EStateM.focus (areaLens r) (VmArea.write allocPage offset data)

/-- `vmspace_map(vmspace, vmarea, uaddr, attrs)`. -/
def vmspaceMap (vmspace vmarea : Handle) (uaddr : Nat) (attrs : PageAttrs) :
    EStateM Fault (MemKernel σ) Unit := do
  let s ← fromBorrowedHandle .vmSpace vmspace .MAP
  let a ← fromBorrowedHandle .vmArea vmarea .MAP
  EStateM.focus (spaceLens s) (VmSpace.map allocPage a uaddr attrs)

/-- `vmspace_read(vmspace, uaddr, buf)`: the contents of `buf` after the call. -/
def vmspaceRead (vmspace : Handle) (uaddr : Nat) (buf : List UInt8) :
    EStateM Fault (MemKernel σ) (List UInt8) := do
  let s ← fromBorrowedHandle .vmSpace vmspace .READ
  EStateM.focus (spaceLens s) (VmSpace.readBytes allocPage uaddr buf)

end Calls

/-! ### The calls on their objects -/

open EStateM VmArea VmSpace Arch

section Specs

variable {allocPage : σ → ByteMem → Option Nat × σ × ByteMem} {inv : σ → Prop}
  {avail : σ → Set Nat} {capacity : σ → Nat}

/-- A handle the kernel handed out names its object for every call, with every right. -/
theorem run_fromBorrowedHandle_intoHandle (r : Nat) (typeId : TypeId) {action : HandleRight}
    (haction : Kernel.vmRight.contains action = true) (k : MemKernel σ) :
    (fromBorrowedHandle typeId (SharedRef.intoHandle r typeId Kernel.vmRight) action).run k =
      .ok r k := by
  simp only [fromBorrowedHandle, SharedRef.intoHandle, ne_eq, not_true_eq_false, if_false, haction,
    Bool.not_true, Bool.false_eq_true]
  rfl

theorem vmRight_contains_read : Kernel.vmRight.contains .READ = true := by decide

theorem vmRight_contains_write : Kernel.vmRight.contains .WRITE = true := by decide

theorem vmRight_contains_map : Kernel.vmRight.contains .MAP = true := by decide

/-- `vmspace_create` with a page left: a space without mappings, in its invariant, at the next
address. -/
theorem vmspaceCreate_spec (hfresh : FreshPages allocPage inv avail)
    (hsup : Supplies allocPage inv capacity) (haddrs : PageAddrs allocPage inv) {bootPdpt : Nat}
    (hboot : bootPdpt % minPageSize = 0) (k : MemKernel σ) (hinv : inv k.objs.machine.pa)
    (hcap : 0 < capacity k.objs.machine.pa) :
    ∃ vs m', (vmspaceCreate allocPage bootPdpt).run k =
        .ok (SharedRef.intoHandle k.next .vmSpace Kernel.vmRight)
          ⟨⟨m', k.objs.areas⟩, Function.update k.spaces k.next vs, k.next + 1⟩ ∧
      vs.mappings = [] ∧ SpaceOk inv avail vs ⟨m', k.objs.areas⟩ (rootOnly vs.arch.pml4) ∧
      Grows (avail k.objs.machine.pa) (avail m'.pa) ∅
        (VmSpace.footprint vs ⟨m', k.objs.areas⟩ (rootOnly vs.arch.pml4)) k.objs.machine.mem m'.mem ∧
      capacity k.objs.machine.pa ≤ capacity m'.pa + 1 := by
  obtain ⟨vs, m', hrun, hnil, hok, hgrow, hcap'⟩ :=
    VmSpace.new_spec hfresh hsup haddrs k.objs.areas hinv hcap hboot
  refine ⟨vs, m', ?_, hnil, hok, hgrow, hcap'⟩
  rw [vmspaceCreate, run_bind_of_ok (run_focus_of_ok (l := machineLens) hrun)]
  rfl

/-- `vmarea_allocate(len)` of a nonzero multiple of the page size: an area of empty slots at the
next address. -/
theorem vmareaAllocate_spec {len : Nat} (hpos : 0 < len) (hal : len % minPageSize = 0)
    (k : MemKernel σ) :
    (vmareaAllocate (σ := σ) len).run k =
      .ok (SharedRef.intoHandle k.next .vmArea Kernel.vmRight)
        ⟨⟨k.objs.machine, Function.update k.objs.areas k.next
          ⟨List.replicate (len / minPageSize) none, len⟩⟩, k.spaces, k.next + 1⟩ := by
  have hnew : VmArea.newAnonymous len = .ok ⟨List.replicate (len / minPageSize) none, len⟩ := by
    have hal' : isAligned len minPageSize = true := by
      rw [show minPageSize = 2 ^ 12 from rfl, isAligned_iff]
      exact hal
    simp only [VmArea.newAnonymous, hal', Bool.not_true, Bool.or_false, beq_iff_eq,
      Nat.pos_iff_ne_zero.mp hpos, if_false]
  rw [vmareaAllocate, hnew]
  rfl

/-- `vmarea_write` through a handle the kernel handed out is the area's `write`. -/
theorem run_vmareaWrite {k : MemKernel σ} {r offset : Nat} {data : List UInt8} {area' : VmArea}
    {m' : Machine σ}
    (h : (VmArea.write allocPage offset data).run (k.objs.areas r, k.objs.machine) =
      .ok () (area', m')) :
    (vmareaWrite allocPage (SharedRef.intoHandle r .vmArea Kernel.vmRight) offset data).run k =
      .ok () ⟨⟨m', Function.update k.objs.areas r area'⟩, k.spaces, k.next⟩ := by
  rw [vmareaWrite, run_bind_of_ok (run_fromBorrowedHandle_intoHandle r .vmArea
    vmRight_contains_write k), run_focus_of_ok (l := areaLens r) h]
  rfl

/-- `vmspace_map` through handles the kernel handed out is the space's `map`. -/
theorem run_vmspaceMap {k : MemKernel σ} {s a uaddr : Nat} {attrs : PageAttrs} {vs' : VmSpace}
    {o' : Objects σ} (h : (VmSpace.map allocPage a uaddr attrs).run (k.spaces s, k.objs) = .ok () (vs', o')) :
    (vmspaceMap allocPage (SharedRef.intoHandle s .vmSpace Kernel.vmRight)
      (SharedRef.intoHandle a .vmArea Kernel.vmRight) uaddr attrs).run k =
      .ok () ⟨o', Function.update k.spaces s vs', k.next⟩ := by
  rw [vmspaceMap, run_bind_of_ok (run_fromBorrowedHandle_intoHandle s .vmSpace
    vmRight_contains_map k), run_bind_of_ok (run_fromBorrowedHandle_intoHandle a .vmArea
    vmRight_contains_map k), run_focus_of_ok (l := spaceLens s) h]
  rfl

/-- `vmspace_read` through a handle the kernel handed out is the space's `read_bytes`. -/
theorem run_vmspaceRead {k : MemKernel σ} {s uaddr : Nat} {buf bytes : List UInt8}
    {t : VmSpace × Objects σ}
    (h : (VmSpace.readBytes allocPage uaddr buf).run (k.spaces s, k.objs) = .ok bytes t) :
    (vmspaceRead allocPage (SharedRef.intoHandle s .vmSpace Kernel.vmRight) uaddr buf).run k =
      .ok bytes ((spaceLens s).set t k) := by
  rw [vmspaceRead, run_bind_of_ok (run_fromBorrowedHandle_intoHandle s .vmSpace
    vmRight_contains_read k), run_focus_of_ok (l := spaceLens s) h]

end Specs

end MemKernel

end Ftl

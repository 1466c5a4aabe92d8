import Mathlib
import Ftl.Malloc
import Ftl.Api.Types
import Ftl.Kernel.Memory.PageAllocator

/-!
# The global allocators

The kernel (`kernel/src/memory.rs`) and every server (`libs/rust/ftl_api/src/allocator.rs`) put a
`LinkedListAllocator` behind Rust's `GlobalAlloc`. `alloc(layout)` tries `malloc`; when it fails,
it asks for a fresh chunk of `MALLOC_CHUNK_SIZE` bytes, adds it with `add_chunk` and tries
`malloc` once more, and panics when there is no chunk or the second `malloc` fails too. The two
differ only in where the chunk comes from: the kernel calls `PAGE_ALLOCATOR.alloc` itself, a
server calls the kernel's `start_info.malloc`, which does the same and returns the chunk's
address in the direct map. So both are `alloc` with their own `supply`.

`malloc` never pads a chunk to an alignment. A fresh chunk comes from the page allocator and is
page-aligned, so its data pointer is `HEADER_SIZE` past a page boundary: a request aligned to 32
bytes or more does not fit it. The first such request, before any chunk with a suitable data
pointer was split off, panics (`alloc_empty_panics`).

## Main definitions

* `Ftl.GlobalAllocator.alloc`, and its two instances `Ftl.GlobalAllocator.kernelAlloc` and
  `Ftl.GlobalAllocator.serverAlloc`.

## Main results

* `Ftl.GlobalAllocator.alloc_empty_panics`: the first allocation aligned to `32` or more panics.
-/

namespace Ftl.GlobalAllocator

open Malloc

/-- `MALLOC_CHUNK_SIZE`. -/
def mallocChunkSize : Nat := 128 * 1024

/-- `GlobalAlloc::alloc(layout)` over a source of chunks `supply`; `malloc` walks at most `fuel`
chunks, and `none` is a walk that did not end. -/
def alloc {σ : Type} (supply : σ → Option Nat × σ) (fuel : Nat) (heap : Malloc.Heap) (s : σ)
    (size align : Nat) : Option (Except Fault Nat × Malloc.Heap × σ) :=
  match malloc fuel heap size align with
  | none => none
  | some (some ptr, heap') => some (.ok ptr, heap', s)
  | some (none, heap') =>
    match supply s with
    -- `panic!("out of memory")`
    | (none, s') => some (.error .panic, heap', s')
    | (some ptr, s') =>
      match malloc fuel (addChunk heap' ptr mallocChunkSize) size align with
      | none => none
      | some (some p, heap'') => some (.ok p, heap'', s')
      -- `panic!("failed to malloc from new chunk")`
      | some (none, heap'') => some (.error .panic, heap'', s')

/-- The kernel's chunk: `PAGE_ALLOCATOR.alloc(MALLOC_CHUNK_SIZE, PageType::Dirty)`, seen through
the direct map. -/
def kernelChunk (st : Memory.PageAllocator × ByteMem) : Option Nat × (Memory.PageAllocator × ByteMem) :=
  let r := st.1.alloc st.2 mallocChunkSize .dirty
  (r.1.map paddr2vaddr, r.2)

/-- `START_INFO.malloc(size)` of `kernel/src/server.rs`. -/
def startInfoMalloc (size : Nat) (st : Memory.PageAllocator × ByteMem) :
    Except ErrorCode Nat × (Memory.PageAllocator × ByteMem) :=
  let r := st.1.alloc st.2 size .dirty
  match r.1 with
  | none => (.error .outOfMemory, r.2)
  | some paddr => (.ok (paddr2vaddr paddr), r.2)

/-- A server's chunk: `start_info.malloc(MALLOC_CHUNK_SIZE)`; an error panics. -/
def serverChunk (st : Memory.PageAllocator × ByteMem) : Option Nat × (Memory.PageAllocator × ByteMem) :=
  match startInfoMalloc mallocChunkSize st with
  | (.ok ptr, st') => (some ptr, st')
  | (.error _, st') => (none, st')

/-- The kernel's `GlobalAllocator::alloc`. -/
def kernelAlloc (fuel : Nat) (heap : Malloc.Heap) (st : Memory.PageAllocator × ByteMem)
    (size align : Nat) :
    Option (Except Fault Nat × Malloc.Heap × (Memory.PageAllocator × ByteMem)) :=
  alloc kernelChunk fuel heap st size align

/-- A server's `GlobalAllocator::alloc`. -/
def serverAlloc (fuel : Nat) (heap : Malloc.Heap) (st : Memory.PageAllocator × ByteMem)
    (size align : Nat) :
    Option (Except Fault Nat × Malloc.Heap × (Memory.PageAllocator × ByteMem)) :=
  alloc serverChunk fuel heap st size align

/-- Before any chunk is added, an allocation aligned to `2 ^ k ≥ 32` panics whenever the chunk
it is given is page-aligned: the chunk's data pointer is 16 past a page boundary. -/
theorem alloc_empty_panics {σ : Type} {supply : σ → Option Nat × σ} {s s' : σ} {ptr : Nat}
    (hs : supply s = (some ptr, s')) (h0 : ptr ≠ 0) (hpage : ptr % 4096 = 0)
    {size k : Nat} (hsize : size ≤ Word.MAX 32 / 2) (hk : 5 ≤ k) {fuel : Nat} (hfuel : 2 ≤ fuel) :
    ∃ heap', alloc supply fuel Heap.empty s size (2 ^ k) = some (.error .panic, heap', s') := by
  obtain ⟨fuel, rfl⟩ := Nat.exists_eq_add_of_le hfuel
  have hfirst : malloc (2 + fuel) Heap.empty size (2 ^ k) = some (none, Heap.empty) := by
    rw [malloc_of_le hsize, show 2 + fuel = (1 + fuel) + 1 by omega]
    rfl
  set heap₁ := addChunk Heap.empty ptr mallocChunkSize with hheap₁
  have hchunk : heap₁ = { Heap.empty.write ptr ⟨none, mallocChunkSize - headerSize, magicFree⟩ with
      head := some ptr } :=
    addChunk_of_ok h0 (by omega) (by decide) (by decide)
  have hheader : heap₁.headers ptr = some ⟨none, mallocChunkSize - headerSize, magicFree⟩ := by
    simp [hchunk, Heap.write]
  have hhead : heap₁.head = some ptr := by
    rw [hchunk]
  have hmis : isAligned (dataPtr ptr) (2 ^ k) = false := by
    rw [Bool.eq_false_iff, ne_eq, isAligned_iff, dataPtr, headerSize]
    intro hdvd
    have h32 : (ptr + 16) % 32 = 0 :=
      Nat.mod_eq_zero_of_dvd ((Nat.pow_dvd_pow 2 hk).trans (Nat.dvd_of_mod_eq_zero hdvd))
    omega
  have hlist : FreeList heap₁ heap₁.head [(ptr, ⟨none, mallocChunkSize - headerSize, magicFree⟩)] :=
    hhead ▸ .cons hheader .nil
  have hsecond : malloc (2 + fuel) heap₁ size (2 ^ k) = some (none, heap₁) := by
    rw [malloc_of_le hsize]
    refine mallocLoop_of_no_fit hlist (fun p hp => ?_) none (by simp only [List.length_singleton]; omega)
    obtain rfl := List.mem_singleton.mp hp
    simp [canFit, hmis]
  exact ⟨heap₁, by simp only [alloc, hfirst, hs, ← hheap₁, hsecond]⟩

/-- The kernel at boot with the free pages `[0x20_0000, 0x40_0000)` and no chunk yet: the first
allocation of 16 bytes aligned to 32 panics, although the page allocator supplies a chunk. -/
theorem kernelAlloc_boot_panics {fuel : Nat} (hfuel : 2 ≤ fuel) :
    ∃ heap' st', kernelAlloc fuel Heap.empty
      (Memory.PageAllocator.new.addRegion 0x20_0000 0x40_0000, ByteMem.zero) 16 32 =
        some (.error .panic, heap', st') := by
  have hchunk : (kernelChunk (Memory.PageAllocator.new.addRegion 0x20_0000 0x40_0000,
      ByteMem.zero)).1 = some 0xffff_8000_003e_0000 := by
    decide
  obtain ⟨heap', h⟩ := @alloc_empty_panics _ kernelChunk _ _ _ (Prod.ext hchunk rfl)
    (by decide) (by decide) 16 5 (by decide) le_rfl _ hfuel
  exact ⟨heap', _, h⟩

theorem kernelAlloc_boot_panics_two :
    2 ≤ 2 ∧ ∃ heap' st', kernelAlloc 2 Heap.empty
      (Memory.PageAllocator.new.addRegion 0x20_0000 0x40_0000, ByteMem.zero) 16 32 =
        some (.error .panic, heap', st') :=
  ⟨le_rfl, kernelAlloc_boot_panics le_rfl⟩

end Ftl.GlobalAllocator

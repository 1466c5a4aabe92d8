import Mathlib
import Ftl.Lib.Word
import Ftl.Utils.Alignment

/-!
# The K&R allocator

`libs/rust/ftl_malloc/src/lib.rs`. A `LinkedListAllocator` keeps a singly linked list of free
chunks. A chunk at address `h` starts with a 16-byte `Header` (the next free chunk, the capacity
of its data area, a magic number), and its data starts at `h + HEADER_SIZE`. `add_chunk` writes a
header at the start of a region and pushes it on the list. `malloc(size, align)` rounds `size` up
to `MIN_SIZE` and walks the list for the first chunk whose capacity is large enough and whose
data pointer is already aligned to `align`; it never pads. It splits the chunk when at least a
header and `MIN_CAPACITY` bytes remain, marks it allocated and unlinks it. `free` pushes the chunk
back.

The model keeps the allocator's head and the headers written so far, by address: the headers are
what the code reads and writes through its pointers. The walk of `malloc` follows `next` pointers
written in memory and so need not end; the model walks at most `fuel` chunks, and returns `none`
when the fuel runs out or a pointer names no header. `align_up` would return `none` too when it
panics, which the check of `size` against `u32::MAX / 2` rules out.

## Main definitions

* `Ftl.Malloc.Header`, `Ftl.Malloc.Heap`.
* `Ftl.Malloc.addChunk`, `Ftl.Malloc.malloc`, `Ftl.Malloc.free`.

## Main results

* `Ftl.Malloc.mallocLoop_of_no_fit`: `malloc` fails, changing nothing, on a free list none of
  whose chunks fits the request.
-/

namespace Ftl.Malloc

/-- `MAGIC_FREE`. -/
def magicFree : Nat := 0x5f5f_5f5f

/-- `MAGIC_ALLOCATED`. -/
def magicAllocated : Nat := 0x5a5a_5a5a

/-- `HEADER_SIZE`, `size_of::<Header>()`. -/
def headerSize : Nat := 16

/-- `MIN_CAPACITY`. -/
def minCapacity : Nat := 16

/-- `MIN_SIZE` on a 64-bit target. -/
def minSize : Nat := 16

/-- `Header`: the next free chunk, the capacity (a `u32`) and the magic number. -/
structure Header where
  next : Option Nat
  capacity : Nat
  magic : Nat
  deriving DecidableEq, Repr

/-- A `LinkedListAllocator` and the headers it wrote, by address. -/
structure Heap where
  head : Option Nat
  headers : Nat → Option Header

/-- `LinkedListAllocator::new()`, before any chunk is added. -/
def Heap.empty : Heap := ⟨none, fun _ => none⟩

/-- `Header::data_ptr()` of the header at `h`. -/
def dataPtr (h : Nat) : Nat := h + headerSize

/-- `Header::can_fit(size, align)` of the header at `h`. -/
def canFit (h : Nat) (header : Header) (size align : Nat) : Option Nat :=
  if header.capacity ≥ size ∧ isAligned (dataPtr h) align then some (dataPtr h) else none

/-- `Header::try_split(size)` of the header at `h`: the address of the remainder's header and
the remainder's capacity; the caller shrinks the chunk to `size`. -/
def trySplit (h : Nat) (header : Header) (size : Nat) : Option (Nat × Nat) :=
  match Word.checkedSub header.capacity size with
  | none => none
  | some remaining =>
    if remaining < headerSize + minCapacity then none
    else (Word.checkedSub remaining headerSize).map fun remainder => (dataPtr h + size, remainder)

/-- Write the header at `h`. -/
def Heap.write (heap : Heap) (h : Nat) (header : Header) : Heap :=
  { heap with headers := Function.update heap.headers h (some header) }

/-- `add_chunk(ptr, size)`. -/
def addChunk (heap : Heap) (ptr size : Nat) : Heap :=
  if ptr = 0 ∨ !isAligned ptr minSize then heap
  else
    match Word.checkedSub size headerSize with
    | none => heap
    | some capacity =>
      -- too small to be useful, or too large for a `u32`
      if capacity < minCapacity ∨ Word.MAX 32 < capacity then heap
      else { heap.write ptr ⟨heap.head, capacity, magicFree⟩ with head := some ptr }

/-- Set the `next` of the free chunk before the one taken, or the head. -/
def relink (heap : Heap) (prev nextFree : Option Nat) : Heap :=
  match prev with
  | some p =>
    match heap.headers p with
    | some header => heap.write p { header with next := nextFree }
    | none => heap
  | none => { heap with head := nextFree }

/-- Take the chunk at `h` for a request of `size`: split off the remainder if it is large
enough, mark the chunk allocated and unlink it. -/
def take (heap : Heap) (prev : Option Nat) (h : Nat) (header : Header) (size : Nat) : Heap :=
  match trySplit h header size with
  | some (newHeader, remainder) =>
    let heap' := heap.write newHeader ⟨header.next, remainder, magicFree⟩
    relink (heap'.write h ⟨none, size, magicAllocated⟩) prev (some newHeader)
  | none => relink (heap.write h ⟨none, header.capacity, magicAllocated⟩) prev header.next

/-- The loop of `malloc` from the free chunk `next`, after `prev`, walking at most `fuel`
chunks. -/
def mallocLoop (size align : Nat) : Nat → Option Nat → Option Nat → Heap → Option (Option Nat × Heap)
  | 0, _, _, _ => none
  | _ + 1, _, none, heap => some (none, heap)
  | fuel + 1, prev, some h, heap =>
    match heap.headers h with
    | none => none
    | some header =>
      match canFit h header size align with
      | some ptr => some (some ptr, take heap prev h header size)
      | none => mallocLoop size align fuel (some h) header.next heap

/-- `malloc(size, align)`, walking at most `fuel` chunks. -/
def malloc (fuel : Nat) (heap : Heap) (size align : Nat) : Option (Option Nat × Heap) :=
  if size > Word.MAX 32 / 2 then some (none, heap)
  else (alignUp size minSize).bind fun size => mallocLoop size align fuel none heap.head heap

/-- `free(ptr)`. -/
def free (heap : Heap) (ptr : Nat) : Heap :=
  if ptr = 0 then heap
  else
    let h := ptr - headerSize
    match heap.headers h with
    | some header => { heap.write h { header with magic := magicFree, next := heap.head } with
        head := some h }
    | none => { heap with head := some h }

/-- `malloc` of a size that passes its check rounds it up without overflow and walks the list. -/
theorem malloc_of_le {fuel : Nat} {heap : Heap} {size align : Nat} (h : size ≤ Word.MAX 32 / 2) :
    malloc fuel heap size align = mallocLoop (alignUpNat size minSize) align fuel none heap.head heap := by
  have hup : alignUp size minSize = some (alignUpNat size minSize) :=
    alignUp_of_le (by simp only [Word.MAX, minSize] at h ⊢; omega)
  rw [malloc, if_neg (Nat.not_lt.mpr h), hup, Option.bind_some]

/-- `add_chunk` of a region that starts on a nonzero multiple of `MIN_SIZE` and has room for a
header and at least `MIN_CAPACITY` bytes, but not more than a `u32` of capacity: a free chunk
pushed on the list. -/
theorem addChunk_of_ok {heap : Heap} {ptr size : Nat} (h0 : ptr ≠ 0) (hal : ptr % 16 = 0)
    (hmin : headerSize + minCapacity ≤ size) (hmax : size - headerSize ≤ Word.MAX 32) :
    addChunk heap ptr size =
      { heap.write ptr ⟨heap.head, size - headerSize, magicFree⟩ with head := some ptr } := by
  have hal' : isAligned ptr minSize = true := by
    rw [show minSize = 2 ^ 4 from rfl, isAligned_iff]
    exact hal
  have hsub : Word.checkedSub size headerSize = some (size - headerSize) :=
    Word.checkedSub_eq_some.mpr ⟨by omega, rfl⟩
  have hcap : ¬ (size - headerSize < minCapacity ∨ Word.MAX 32 < size - headerSize) := by omega
  simp only [addChunk, h0, hal', Bool.not_true, Bool.false_eq_true, or_self, if_false, hsub,
    if_neg hcap]

/-- `FreeList heap next l`: the free list from `next` ends, and its chunks are `l`, with their
headers. -/
inductive FreeList (heap : Heap) : Option Nat → List (Nat × Header) → Prop where
  | nil : FreeList heap none []
  | cons {h : Nat} {header : Header} {l : List (Nat × Header)} :
      heap.headers h = some header → FreeList heap header.next l →
        FreeList heap (some h) ((h, header) :: l)

/-- A walk with more fuel than chunks, over a free list none of whose chunks fits the request,
finds nothing and changes nothing. -/
theorem mallocLoop_of_no_fit {heap : Heap} {size align : Nat} {next : Option Nat}
    {l : List (Nat × Header)} (hl : FreeList heap next l)
    (hfit : ∀ p ∈ l, canFit p.1 p.2 size align = none) :
    ∀ {fuel : Nat} (prev : Option Nat), l.length < fuel →
      mallocLoop size align fuel prev next heap = some (none, heap) := by
  induction hl with
  | nil =>
    intro fuel prev hfuel
    obtain ⟨fuel, rfl⟩ := Nat.exists_eq_add_of_lt hfuel
    rfl
  | @cons h header l hh _ ih =>
    intro fuel prev hfuel
    obtain ⟨fuel, rfl⟩ := Nat.exists_eq_add_of_lt hfuel
    have hnofit := hfit (h, header) List.mem_cons_self
    rw [mallocLoop, hh]
    simp only [hnofit]
    exact ih (fun p hp => hfit p (List.mem_cons_of_mem _ hp)) (some h)
      (by simp only [List.length_cons] at hfuel ⊢; omega)

end Ftl.Malloc

import Mathlib
import Ftl.Malloc
import Ftl.Lib.Tiling
import Ftl.Lib.Run

/-!
# The K&R allocator keeps its memory tiled

A client of `LinkedListAllocator` adds regions of memory with `add_chunk`, takes chunks with
`malloc` and gives them back with `free`. `Step` is one such call, as the client may make it:
`add_chunk` of a region apart from the memory the allocator has, `malloc(size, align)` with
`size > 0` and `align` a power of two, and `free` of a pointer `malloc` returned and that was not
freed since. The state `Alloc` carries, besides the allocator, what the client did: the regions
`add_chunk` accepted and the chunks `malloc` handed out.

Along every run the allocator keeps its representation invariant (`Inv`): the free list ends,
and its chunks are marked free; the allocated chunks are marked allocated; every chunk has its
data pointer aligned to `MIN_SIZE` and a capacity of at least `MIN_CAPACITY`, within a `u32`; and
the chunks, free and allocated, each covering its header and its data area, tile the regions
`add_chunk` accepted (`Tiles`). So the walk of `malloc` ends, and every pointer it returns is
aligned as asked and is the data pointer of an allocated chunk large enough for the request.

## Main definitions

* `Ftl.Malloc.Heap.extent`: the bytes of a chunk.
* `Ftl.Malloc.Alloc`, `Ftl.Malloc.Op`, `Ftl.Malloc.Step`.
* `Ftl.Malloc.Inv`.

## Main results

* `Ftl.Malloc.mallocLoop_eq_some`: what the walk of `malloc` returns on a free list.
* `Ftl.Malloc.Inv.addChunk`, `Ftl.Malloc.Inv.free`, `Ftl.Malloc.Inv.malloc`: each call keeps the
  invariant.
* `Ftl.Malloc.inv_of_reach`: the invariant holds along every run.
-/

namespace Ftl.Malloc

/-! ### Headers -/

section Headers

variable {heap : Heap} {h x : Nat} {header : Header}

@[simp] theorem headers_write (heap : Heap) (h : Nat) (header : Header) (x : Nat) :
    (heap.write h header).headers x = if x = h then some header else heap.headers x := by
  simp [Heap.write, Function.update_apply]

@[simp] theorem head_write (heap : Heap) (h : Nat) (header : Header) :
    (heap.write h header).head = heap.head := rfl

theorem relink_none (heap : Heap) (nextFree : Option Nat) :
    relink heap none nextFree = { heap with head := nextFree } := rfl

theorem relink_some {p : Nat} (hp : heap.headers p = some header) (nextFree : Option Nat) :
    relink heap (some p) nextFree = heap.write p { header with next := nextFree } := by
  simp [relink, hp]

/-- `try_split` of a chunk large enough for the request: the remainder starts right after the
shrunk data area, when a header and `MIN_CAPACITY` bytes are left. -/
theorem trySplit_eq {size : Nat} (hle : size ≤ header.capacity) :
    trySplit h header size =
      if header.capacity - size < headerSize + minCapacity then none
      else some (dataPtr h + size, header.capacity - size - headerSize) := by
  have hsub : Word.checkedSub header.capacity size = some (header.capacity - size) :=
    Word.checkedSub_eq_some.mpr ⟨hle, rfl⟩
  split_ifs with hlt
  · simp [trySplit, hsub, hlt]
  · have hsub' : Word.checkedSub (header.capacity - size) headerSize =
        some (header.capacity - size - headerSize) :=
      Word.checkedSub_eq_some.mpr ⟨by simp only [headerSize, minCapacity] at hlt ⊢; omega, rfl⟩
    simp [trySplit, hsub, hlt, hsub']

theorem canFit_eq_some {size align ptr : Nat} (h : canFit x header size align = some ptr) :
    ptr = dataPtr x ∧ size ≤ header.capacity ∧ isAligned (dataPtr x) align = true := by
  unfold canFit at h
  split_ifs at h with hfit
  exact ⟨(Option.some.inj h).symm, hfit.1, hfit.2⟩

end Headers

/-! ### Chunks -/

/-- The bytes of the chunk at `h`, its header and its data area, as its header says. -/
def Heap.extent (heap : Heap) (h : Nat) : Set Nat :=
  Set.Ico h (dataPtr h + ((heap.headers h).map Header.capacity).getD 0)

/-- A chunk's header as the allocator keeps it: the data pointer aligned to `MIN_SIZE`, and a
capacity of at least `MIN_CAPACITY` that fits a `u32`. -/
def ChunkOk (heap : Heap) (h : Nat) : Prop :=
  ∃ header, heap.headers h = some header ∧ dataPtr h % minSize = 0 ∧
    minCapacity ≤ header.capacity ∧ header.capacity ≤ Word.MAX 32

section Chunks

variable {heap heap' : Heap} {h : Nat} {header : Header}

theorem self_mem_extent (heap : Heap) (h : Nat) : h ∈ heap.extent h := by
  simp only [Heap.extent, Set.mem_Ico, dataPtr, headerSize]
  omega

theorem extent_of_headers (hh : heap.headers h = some header) :
    heap.extent h = Set.Ico h (dataPtr h + header.capacity) := by
  simp [Heap.extent, hh]

/-- Only the capacity in a chunk's header decides its extent. -/
theorem extent_congr
    (hc : (heap'.headers h).map Header.capacity = (heap.headers h).map Header.capacity) :
    heap'.extent h = heap.extent h := by
  simp only [Heap.extent, hc]

theorem ChunkOk.congr (hok : ChunkOk heap h)
    (hc : (heap'.headers h).map Header.capacity = (heap.headers h).map Header.capacity) :
    ChunkOk heap' h := by
  obtain ⟨header, hh, hal, hmin, hmax⟩ := hok
  rw [hh, Option.map_some] at hc
  obtain ⟨header', hh', hcap⟩ := Option.map_eq_some_iff.mp hc
  exact ⟨header', hh', hal, hcap ▸ hmin, hcap ▸ hmax⟩

end Chunks

/-! ### The free list -/

section FreeList

variable {heap heap' : Heap}

/-- A free list stays one when the headers of its chunks stay. -/
theorem FreeList.congr {x : Option Nat} {l : List (Nat × Header)} (hl : FreeList heap x l)
    (he : ∀ p ∈ l, heap'.headers p.1 = heap.headers p.1) : FreeList heap' x l := by
  induction hl with
  | nil => exact .nil
  | @cons h header l hh _ ih =>
    refine .cons (by rw [he (h, header) List.mem_cons_self, hh]) (ih fun p hp => ?_)
    exact he p (List.mem_cons_of_mem _ hp)

/-- The free list with the `next` of the chunk at `p` redirected: the chunks before `p` stay,
`p` leads to `y`, and from `y` a free list `rest` follows. -/
theorem FreeList.redirect {x y : Option Nat} {pre tail rest : List (Nat × Header)} {p : Nat}
    {hp : Header} (hl : FreeList heap x (pre ++ (p, hp) :: tail))
    (he : ∀ q ∈ pre, heap'.headers q.1 = heap.headers q.1)
    (hp' : heap'.headers p = some { hp with next := y }) (hrest : FreeList heap' y rest) :
    FreeList heap' x (pre ++ (p, { hp with next := y }) :: rest) := by
  induction pre generalizing x with
  | nil =>
    cases hl with
    | cons _ _ => exact .cons hp' hrest
  | cons q pre ih =>
    cases hl with
    | cons hq hnext =>
      refine .cons (by rw [he _ List.mem_cons_self, hq]) (ih hnext fun r hr => ?_)
      exact he r (List.mem_cons_of_mem _ hr)

end FreeList

/-! ### The walk of `malloc` -/

section Walk

variable {heap : Heap} {size align : Nat}

/-- The walk of `malloc` over a free list returns one of two things: nothing, with the heap
unchanged; or the data pointer of a chunk of the list that fits, taken after the chunk before it
(`prev` when it is the first one walked). -/
theorem mallocLoop_eq_some {next : Option Nat} {l : List (Nat × Header)}
    (hl : FreeList heap next l) :
    ∀ {fuel : Nat} {prev : Option Nat} {r : Option Nat} {heap' : Heap},
      mallocLoop size align fuel prev next heap = some (r, heap') →
      (r = none ∧ heap' = heap) ∨
        ∃ pre h header post, l = pre ++ (h, header) :: post ∧
          canFit h header size align = some (dataPtr h) ∧ r = some (dataPtr h) ∧
          heap' = take heap ((pre.getLast?.map Prod.fst).or prev) h header size := by
  induction hl with
  | nil =>
    intro fuel prev r heap' hm
    cases fuel with
    | zero => cases hm
    | succ fuel =>
      obtain ⟨rfl, rfl⟩ := Prod.mk.inj (Option.some.inj hm).symm
      exact .inl ⟨rfl, rfl⟩
  | @cons h header l hh _ ih =>
    intro fuel prev r heap' hm
    cases fuel with
    | zero => cases hm
    | succ fuel =>
      cases hfit : canFit h header size align with
      | some ptr =>
        simp only [mallocLoop, hh, hfit] at hm
        obtain ⟨rfl, rfl⟩ := Prod.mk.inj (Option.some.inj hm).symm
        obtain ⟨rfl, -, -⟩ := canFit_eq_some hfit
        exact .inr ⟨[], h, header, l, rfl, hfit, rfl, rfl⟩
      | none =>
        simp only [mallocLoop, hh, hfit] at hm
        rcases ih hm with hnone | ⟨pre, t, ht, post, rfl, hfit', rfl, rfl⟩
        · exact .inl hnone
        · refine .inr ⟨(h, header) :: pre, t, ht, post, rfl, hfit', rfl, ?_⟩
          cases pre with
          | nil => rfl
          | cons q pre => simp [List.getLast?_cons]

/-- The walk of `malloc` ends on a free list when it has fuel for every chunk. -/
theorem mallocLoop_isSome {next : Option Nat} {l : List (Nat × Header)}
    (hl : FreeList heap next l) :
    ∀ {fuel : Nat} (prev : Option Nat), l.length < fuel →
      (mallocLoop size align fuel prev next heap).isSome := by
  induction hl with
  | nil =>
    intro fuel prev hfuel
    obtain ⟨fuel, rfl⟩ := Nat.exists_eq_add_of_lt hfuel
    rfl
  | @cons h header l hh _ ih =>
    intro fuel prev hfuel
    obtain ⟨fuel, rfl⟩ := Nat.exists_eq_add_of_lt hfuel
    cases hfit : canFit h header size align with
    | some ptr => simp [mallocLoop, hh, hfit]
    | none =>
      simp only [mallocLoop, hh, hfit]
      exact ih (some h) (by simp only [List.length_cons]; omega)

end Walk

/-! ### Free lists -/

section FreeListFacts

variable {heap : Heap} {x : Option Nat}

theorem FreeList.headers_of_mem {l : List (Nat × Header)} (hl : FreeList heap x l)
    {p : Nat × Header} (hp : p ∈ l) : heap.headers p.1 = some p.2 := by
  induction hl with
  | nil => cases hp
  | @cons h header l hh _ ih =>
    rcases List.mem_cons.mp hp with rfl | hp
    · exact hh
    · exact ih hp

/-- Past a chunk of a free list, its `next` starts a free list of the chunks after it. -/
theorem FreeList.of_append {pre post : List (Nat × Header)} {h : Nat} {header : Header}
    (hl : FreeList heap x (pre ++ (h, header) :: post)) : FreeList heap header.next post := by
  induction pre generalizing x with
  | nil =>
    cases hl with
    | cons _ hnext => exact hnext
  | cons q pre ih =>
    cases hl with
    | cons _ hnext => exact ih hnext

end FreeListFacts

/-! ### Taking a chunk off the free list -/

section Relink

/-- `relink` changes only the `next` of a header. -/
theorem relink_map_headers {β : Type} (f : Header → β)
    (hf : ∀ (header : Header) (y : Option Nat), f { header with next := y } = f header)
    (heap : Heap) (prev y : Option Nat) (x : Nat) :
    ((relink heap prev y).headers x).map f = (heap.headers x).map f := by
  unfold relink
  split
  · rename_i p
    split
    · rename_i header hp
      rw [headers_write]
      split_ifs with hx
      · subst hx
        simp [hp, hf]
      · rfl
    · rfl
  · rfl

theorem capacity_relink (heap : Heap) (prev y : Option Nat) (x : Nat) :
    ((relink heap prev y).headers x).map Header.capacity = (heap.headers x).map Header.capacity :=
  relink_map_headers _ (fun _ _ => rfl) heap prev y x

theorem magic_relink (heap : Heap) (prev y : Option Nat) (x : Nat) :
    ((relink heap prev y).headers x).map Header.magic = (heap.headers x).map Header.magic :=
  relink_map_headers _ (fun _ _ => rfl) heap prev y x

/-- Taking the chunk `h` off the free list `pre ++ (h, header) :: post`: `relink` from the chunk
before it, or from the head, makes the free list `pre`, its last `next` redirected, then the
list `rest` that starts at `nextFree`. -/
theorem FreeList.unlink {heap H : Heap} {pre post rest : List (Nat × Header)} {h : Nat}
    {header : Header} {nextFree : Option Nat}
    (hl : FreeList heap heap.head (pre ++ (h, header) :: post)) (hnd : (pre.map Prod.fst).Nodup)
    (hhead : H.head = heap.head) (hpre : ∀ q ∈ pre, H.headers q.1 = heap.headers q.1)
    (hrest : FreeList H nextFree rest) (hapart : ∀ q ∈ pre, ∀ r ∈ rest, q.1 ≠ r.1)
    (hmagic : ∀ q ∈ pre, q.2.magic = magicFree) :
    ∃ pre', pre'.map Prod.fst = pre.map Prod.fst ∧ (∀ q ∈ pre', q.2.magic = magicFree) ∧
      FreeList (relink H (pre.getLast?.map Prod.fst) nextFree)
        (relink H (pre.getLast?.map Prod.fst) nextFree).head (pre' ++ rest) := by
  rcases List.eq_nil_or_concat' pre with rfl | ⟨pre, ⟨p, hp⟩, rfl⟩
  · refine ⟨[], rfl, by simp, ?_⟩
    rw [List.nil_append, List.getLast?_nil, Option.map_none, relink_none]
    exact hrest.congr fun _ _ => rfl
  · have hl' : FreeList heap heap.head (pre ++ (p, hp) :: (h, header) :: post) := by simpa using hl
    have hpH : H.headers p = some hp := by
      rw [hpre (p, hp) (by simp), hl.headers_of_mem (by simp)]
    have hnp : ∀ q ∈ pre, q.1 ≠ p := by
      intro q hq hqp
      simp only [List.map_append, List.map_cons, List.map_nil, List.nodup_append,
        List.nodup_cons, List.mem_singleton] at hnd
      exact hnd.2.2 q.1 (List.mem_map_of_mem hq) p (by simp) hqp
    refine ⟨pre ++ [(p, { hp with next := nextFree })], by simp, ?_, ?_⟩
    · exact List.forall_mem_append.mpr ⟨fun q hq => hmagic q (by simp [hq]),
        List.forall_mem_singleton.mpr (hmagic (p, hp) (by simp))⟩
    · rw [List.getLast?_concat, Option.map_some, relink_some hpH, head_write, hhead,
        List.append_assoc, List.singleton_append]
      refine hl'.redirect (fun q hq => ?_) (by simp) (hrest.congr fun r hr => ?_)
      · rw [headers_write, if_neg (hnp q hq), hpre q (by simp [hq])]
      · rw [headers_write, if_neg (Ne.symm (hapart (p, hp) (by simp) r hr))]

end Relink

/-! ### The allocator and its client -/

/-- The allocator, with what its client did: the regions `add_chunk` accepted, and the chunks
`malloc` handed out and that were not freed since, by the address of their header. -/
structure Alloc where
  heap : Heap
  regions : List (Nat × Nat)
  allocated : List Nat

namespace Alloc

/-- `LinkedListAllocator::new()`. -/
def init : Alloc := ⟨Heap.empty, [], []⟩

/-- The memory of the regions `add_chunk` accepted. -/
def memory (a : Alloc) : Set Nat := ⋃ r ∈ a.regions, Set.Ico r.1 (r.1 + r.2)

/-- The chunks of the allocator: those of the free list `free`, then the allocated ones. -/
def chunks (a : Alloc) (free : List (Nat × Header)) : List Nat := free.map Prod.fst ++ a.allocated

end Alloc

/-- `add_chunk(ptr, size)` takes the region: a nonzero pointer aligned to `MIN_SIZE`, room for a
header and `MIN_CAPACITY` bytes, and a capacity that fits a `u32`. -/
def Accepts (ptr size : Nat) : Prop :=
  ptr ≠ 0 ∧ isAligned ptr minSize = true ∧ headerSize + minCapacity ≤ size ∧
    size - headerSize ≤ Word.MAX 32

instance (ptr size : Nat) : Decidable (Accepts ptr size) :=
  inferInstanceAs (Decidable (_ ∧ _ ∧ _ ∧ _))

theorem addChunk_of_accepts {heap : Heap} {ptr size : Nat} (h : Accepts ptr size) :
    addChunk heap ptr size =
      { heap.write ptr ⟨heap.head, size - headerSize, magicFree⟩ with head := some ptr } := by
  obtain ⟨h0, hal, hmin, hmax⟩ := h
  rw [show minSize = 2 ^ 4 from rfl, isAligned_iff] at hal
  exact addChunk_of_ok h0 hal hmin hmax

theorem addChunk_of_not_accepts {heap : Heap} {ptr size : Nat} (h : ¬ Accepts ptr size) :
    addChunk heap ptr size = heap := by
  unfold addChunk
  split_ifs with h0
  · rfl
  · cases hsub : Word.checkedSub size headerSize with
    | none => rfl
    | some capacity =>
      obtain ⟨hle, rfl⟩ := Word.checkedSub_eq_some.mp hsub
      have hal : isAligned ptr minSize = true := by simpa using (not_or.mp h0).2
      have hsmall : ¬ (headerSize + minCapacity ≤ size ∧ size - headerSize ≤ Word.MAX 32) :=
        fun hs => h ⟨(not_or.mp h0).1, hal, hs⟩
      dsimp only
      rw [if_pos (by simp only [headerSize, minCapacity] at hsmall ⊢; omega)]

/-- A call of the client. -/
inductive Op where
  | addChunk (ptr size : Nat)
  | malloc (size align : Nat)
  | free (ptr : Nat)
  deriving DecidableEq, Repr

/-- One call, as the client may make it, labelled with the call and the pointer it returns:
`add_chunk` of a region apart from the memory the allocator has; `malloc` of a nonzero size at a
power-of-two alignment, whose walk ends; and `free` of the data pointer of an allocated chunk. -/
inductive Step : Alloc → Op × Option Nat → Alloc → Prop where
  | addChunk {a : Alloc} {ptr size : Nat} (hdisj : Disjoint (Set.Ico ptr (ptr + size)) a.memory) :
      Step a (.addChunk ptr size, none)
        ⟨addChunk a.heap ptr size,
          if Accepts ptr size then a.regions ++ [(ptr, size)] else a.regions, a.allocated⟩
  | malloc {a : Alloc} {size align fuel : Nat} {r : Option Nat} {heap : Heap} (hsize : 0 < size)
      (halign : ∃ k, align = 2 ^ k) (hm : malloc fuel a.heap size align = some (r, heap)) :
      Step a (.malloc size align, r)
        ⟨heap, a.regions, a.allocated ++ (r.map fun p => p - headerSize).toList⟩
  | free {a : Alloc} {h : Nat} (hh : h ∈ a.allocated) :
      Step a (.free (dataPtr h), none) ⟨free a.heap (dataPtr h), a.regions, a.allocated.erase h⟩

/-! ### The invariant -/

/-- The representation invariant, with `free` the chunks of the free list and their headers. -/
structure Inv (a : Alloc) (free : List (Nat × Header)) : Prop where
  freeList : FreeList a.heap a.heap.head free
  free_magic : ∀ p ∈ free, p.2.magic = magicFree
  allocated_magic : ∀ h ∈ a.allocated,
    ∃ header, a.heap.headers h = some header ∧ header.magic = magicAllocated
  chunkOk : ∀ h ∈ a.chunks free, ChunkOk a.heap h
  tiles : Tiles a.heap.extent (a.chunks free) a.memory

theorem inv_init : Inv Alloc.init [] where
  freeList := .nil
  free_magic := by simp
  allocated_magic := by simp [Alloc.init]
  chunkOk := by simp [Alloc.chunks, Alloc.init]
  tiles := by simpa [Alloc.chunks, Alloc.init, Alloc.memory] using Tiles.nil Heap.empty.extent

theorem ChunkOk.of_capacity {heap : Heap} {h c : Nat}
    (hc : (heap.headers h).map Header.capacity = some c) (hal : dataPtr h % minSize = 0)
    (hmin : minCapacity ≤ c) (hmax : c ≤ Word.MAX 32) : ChunkOk heap h := by
  obtain ⟨header, hh, rfl⟩ := Option.map_eq_some_iff.mp hc
  exact ⟨header, hh, hal, hmin, hmax⟩

theorem exists_magic_of_map {heap : Heap} {h m : Nat}
    (hm : (heap.headers h).map Header.magic = some m) :
    ∃ header, heap.headers h = some header ∧ header.magic = m := by
  obtain ⟨header, hh, rfl⟩ := Option.map_eq_some_iff.mp hm
  exact ⟨header, hh, rfl⟩

theorem memory_append (heap : Heap) (regions : List (Nat × Nat)) (allocated : List Nat)
    (r : Nat × Nat) :
    Alloc.memory ⟨heap, regions ++ [r], allocated⟩ =
      Alloc.memory ⟨heap, regions, allocated⟩ ∪ Set.Ico r.1 (r.1 + r.2) := by
  simp only [Alloc.memory, List.mem_append, List.mem_singleton, Set.iUnion_or,
    Set.iUnion_union_distrib, Set.iUnion_iUnion_eq_left]

section Inv

variable {a : Alloc} {fl : List (Nat × Header)}

theorem mem_chunks_of_free {p : Nat × Header} (hp : p ∈ fl) : p.1 ∈ a.chunks fl :=
  List.mem_append_left _ (List.mem_map_of_mem hp)

theorem mem_chunks_of_allocated {h : Nat} (hh : h ∈ a.allocated) : h ∈ a.chunks fl :=
  List.mem_append_right _ hh

theorem Inv.nodup (hinv : Inv a fl) : (a.chunks fl).Nodup :=
  hinv.tiles.nodup fun h _ => ⟨h, self_mem_extent _ h⟩

theorem Inv.mem_memory (hinv : Inv a fl) {h : Nat} (hh : h ∈ a.chunks fl) : h ∈ a.memory :=
  hinv.tiles.subset hh (self_mem_extent _ h)

/-! ### Each call keeps the invariant -/

/-- A change that keeps every chunk and its capacity, and only moves chunks between the free list
and the allocated ones, keeps the invariant once the new free list and allocated chunks are
marked. -/
theorem Inv.move (hinv : Inv a fl) {H : Heap} {fl' : List (Nat × Header)} {allocated : List Nat}
    (hfl : FreeList H H.head fl') (hmagic : ∀ p ∈ fl', p.2.magic = magicFree)
    (halloc : ∀ c ∈ allocated,
      ∃ header, H.headers c = some header ∧ header.magic = magicAllocated)
    (hperm : (a.chunks fl).Perm (fl'.map Prod.fst ++ allocated))
    (hcap : ∀ c ∈ a.chunks fl,
      (H.headers c).map Header.capacity = (a.heap.headers c).map Header.capacity) :
    Inv ⟨H, a.regions, allocated⟩ fl' where
  freeList := hfl
  free_magic := hmagic
  allocated_magic := halloc
  chunkOk c hc := (hinv.chunkOk c (hperm.symm.subset hc)).congr (hcap c (hperm.symm.subset hc))
  tiles := (hinv.tiles.congr fun c hc => extent_congr (hcap c hc)).perm hperm

/-- `add_chunk` of a region apart from the allocator's memory: a region it accepts becomes a free
chunk at the head of the list, and the memory grows by the region. -/
theorem Inv.addChunk (hinv : Inv a fl) {ptr size : Nat}
    (hdisj : Disjoint (Set.Ico ptr (ptr + size)) a.memory) :
    ∃ fl', Inv ⟨addChunk a.heap ptr size,
        if Accepts ptr size then a.regions ++ [(ptr, size)] else a.regions, a.allocated⟩ fl' := by
  by_cases hacc : Accepts ptr size
  swap
  · refine ⟨fl, ?_⟩
    simp only [if_neg hacc, addChunk_of_not_accepts hacc]
    exact hinv
  rw [if_pos hacc, addChunk_of_accepts hacc]
  obtain ⟨-, hal, hmin, hmax⟩ := hacc
  rw [show minSize = 2 ^ 4 from rfl, isAligned_iff] at hal
  set header : Header := ⟨a.heap.head, size - headerSize, magicFree⟩
  set H : Heap := { a.heap.write ptr header with head := some ptr }
  have hptr : ∀ c ∈ a.chunks fl, c ≠ ptr := by
    rintro c hc rfl
    refine Set.disjoint_left.mp hdisj ?_ (hinv.mem_memory hc)
    simp only [Set.mem_Ico, headerSize, minCapacity] at hmin ⊢
    omega
  have hHp : H.headers ptr = some header := by simp [H]
  have hH : ∀ c ∈ a.chunks fl, H.headers c = a.heap.headers c := fun c hc => by
    simp [H, hptr c hc]
  have hext : H.extent ptr = Set.Ico ptr (ptr + size) := by
    rw [extent_of_headers hHp]
    simp only [dataPtr, header, headerSize, minCapacity] at hmin ⊢
    congr 1
    omega
  refine ⟨(ptr, header) :: fl, ⟨?_, ?_, ?_, ?_, ?_⟩⟩
  · exact .cons hHp (hinv.freeList.congr fun p hp => hH p.1 (mem_chunks_of_free hp))
  · exact List.forall_mem_cons.mpr ⟨rfl, hinv.free_magic⟩
  · intro c hc
    rw [hH c (mem_chunks_of_allocated hc)]
    exact hinv.allocated_magic c hc
  · intro c hc
    change c ∈ ptr :: a.chunks fl at hc
    rcases List.mem_cons.mp hc with rfl | hc
    · refine ⟨header, hHp, ?_, ?_, hmax⟩
      · simp only [dataPtr, headerSize, minSize] at hal ⊢
        omega
      · simp only [header, headerSize, minCapacity] at hmin ⊢
        omega
    · exact (hinv.chunkOk c hc).congr (by rw [hH c hc])
  · have ht := (hinv.tiles.congr fun c hc => extent_congr (by rw [hH c hc])).cons
      (x := ptr) (hext ▸ hdisj)
    rw [hext, Set.union_comm] at ht
    rw [memory_append]
    exact ht

/-- `free` of the data pointer of an allocated chunk pushes the chunk back on the free list. -/
theorem Inv.free (hinv : Inv a fl) {h : Nat} (hh : h ∈ a.allocated) :
    ∃ fl', Inv ⟨Malloc.free a.heap (dataPtr h), a.regions, a.allocated.erase h⟩ fl' := by
  obtain ⟨header, hhd, -⟩ := hinv.allocated_magic h hh
  set header' : Header := { header with magic := magicFree, next := a.heap.head }
  have hfree : Malloc.free a.heap (dataPtr h) = { a.heap.write h header' with head := some h } := by
    simp [Malloc.free, dataPtr, headerSize, hhd, header']
  have hnd := hinv.nodup
  have hhfl : ∀ p ∈ fl, p.1 ≠ h := by
    rintro p hp rfl
    exact List.disjoint_of_nodup_append hnd (List.mem_map_of_mem hp) hh
  have hcap : ∀ c, (({ a.heap.write h header' with head := some h } : Heap).headers c).map
      Header.capacity = (a.heap.headers c).map Header.capacity := by
    intro c
    by_cases hc : c = h
    · subst hc
      simp [hhd, header']
    · simp [hc]
  have hperm : (a.chunks fl).Perm (h :: (fl.map Prod.fst ++ a.allocated.erase h)) :=
    (List.Perm.append_left _ (List.perm_cons_erase hh)).trans List.perm_middle
  have hallnd : a.allocated.Nodup := List.Nodup.of_append_right hnd
  rw [hfree]
  refine ⟨(h, header') :: fl, hinv.move ?_ ?_ ?_ hperm fun c _ => hcap c⟩
  · exact .cons (by simp) (hinv.freeList.congr fun p hp => by simp [hhfl p hp])
  · exact List.forall_mem_cons.mpr ⟨rfl, hinv.free_magic⟩
  · intro c hc
    obtain ⟨hch, hc⟩ := (hallnd.mem_erase_iff).mp hc
    simpa [hch] using hinv.allocated_magic c hc

/-- `malloc` takes the chunk `h` of the free list for `size` bytes, a multiple of `MIN_SIZE` it
fits: the chunk is split when a header and `MIN_CAPACITY` bytes are left over, and becomes
allocated, with room for the request. -/
theorem Inv.take {pre post : List (Nat × Header)} {h : Nat} {header : Header}
    (hinv : Inv a (pre ++ (h, header) :: post)) {size : Nat} (hmin : minCapacity ≤ size)
    (hmod : size % minSize = 0) (hle : size ≤ header.capacity) :
    ∃ fl', Inv ⟨take a.heap (pre.getLast?.map Prod.fst) h header size, a.regions,
        a.allocated ++ [h]⟩ fl' ∧
      ∃ header', (take a.heap (pre.getLast?.map Prod.fst) h header size).headers h =
        some header' ∧ size ≤ header'.capacity := by
  have hl := hinv.freeList
  have hhd : a.heap.headers h = some header := hl.headers_of_mem (p := (h, header)) (by simp)
  obtain ⟨header₀, hhd₀, hal, hcmin, hcmax⟩ :=
    hinv.chunkOk h (mem_chunks_of_free (p := (h, header)) (by simp))
  obtain rfl : header = header₀ := Option.some.inj (hhd.symm.trans hhd₀)
  set others := pre.map Prod.fst ++ post.map Prod.fst ++ a.allocated with hothers
  have hperm : (a.chunks (pre ++ (h, header) :: post)).Perm (h :: others) := by
    simp only [Alloc.chunks, others, List.map_append, List.map_cons, List.perm_iff_count,
      List.count_append, List.count_cons]
    intro x
    omega
  have hnd : (h :: others).Nodup := hperm.nodup_iff.mp hinv.nodup
  have htiles : Tiles a.heap.extent (h :: others) a.memory := hinv.tiles.perm hperm
  have hold : ∀ c ∈ h :: others, c ∈ a.chunks (pre ++ (h, header) :: post) :=
    fun c hc => hperm.symm.subset hc
  have hne : ∀ c ∈ others, c ≠ h := fun c hc hch => (List.nodup_cons.mp hnd).1 (hch ▸ hc)
  have hpre_mem : ∀ q ∈ pre, q.1 ∈ others := fun q hq => by simp [others, List.mem_map_of_mem hq]
  have hpost_mem : ∀ r ∈ post, r.1 ∈ others := fun r hr => by simp [others, List.mem_map_of_mem hr]
  have halloc_mem : ∀ c ∈ a.allocated, c ∈ others := fun c hc => by simp [others, hc]
  have hothers_nd : (pre.map Prod.fst ++ post.map Prod.fst).Nodup :=
    (List.nodup_cons.mp hnd).2.of_append_left
  have hpre_post : ∀ q ∈ pre, ∀ r ∈ post, q.1 ≠ r.1 := fun q hq r hr hqr =>
    List.disjoint_of_nodup_append hothers_nd (List.mem_map_of_mem hq) (hqr ▸ List.mem_map_of_mem hr)
  have hpre_magic : ∀ q ∈ pre, q.2.magic = magicFree := fun q hq => hinv.free_magic q (by simp [hq])
  have hpost_magic : ∀ r ∈ post, r.2.magic = magicFree :=
    fun r hr => hinv.free_magic r (by simp [hr])
  have halloc_magic (H : Heap) (hH : ∀ c ∈ others,
      (H.headers c).map Header.magic = (a.heap.headers c).map Header.magic) (c : Nat)
      (hc : c ∈ a.allocated) : ∃ header, H.headers c = some header ∧ header.magic = magicAllocated := by
    obtain ⟨hd, hhd, hm⟩ := hinv.allocated_magic c hc
    exact exists_magic_of_map (by rw [hH c (halloc_mem c hc), hhd, Option.map_some, hm])
  rw [Malloc.take, trySplit_eq hle]
  split_ifs with hsplit
  · set H₁ := a.heap.write h ⟨none, header.capacity, magicAllocated⟩
    have hH₁ : ∀ c ∈ others, H₁.headers c = a.heap.headers c := fun c hc => by
      simp [H₁, hne c hc]
    obtain ⟨pre', hpre', hpre'_magic, hfl⟩ := FreeList.unlink (H := H₁) hl
      (hothers_nd.of_append_left) rfl (fun q hq => hH₁ q.1 (hpre_mem q hq))
      (hl.of_append.congr fun r hr => hH₁ r.1 (hpost_mem r hr)) hpre_post hpre_magic
    set H := relink H₁ (pre.getLast?.map Prod.fst) header.next
    have hcap : ∀ c, (H.headers c).map Header.capacity = (a.heap.headers c).map Header.capacity := by
      intro c
      rw [capacity_relink]
      by_cases hc : c = h
      · subst hc
        simp [H₁, hhd]
      · simp [H₁, hc]
    have hperm' : (pre'.map Prod.fst ++ post.map Prod.fst ++ (a.allocated ++ [h])).Perm
        (h :: others) := by
      rw [hpre']
      simp only [others, List.perm_iff_count, List.count_append, List.count_cons, List.count_nil]
      intro x
      omega
    refine ⟨pre' ++ post, hinv.move hfl ?_ ?_ ?_ fun c _ => hcap c, ?_⟩
    · exact List.forall_mem_append.mpr ⟨hpre'_magic, hpost_magic⟩
    · refine List.forall_mem_append.mpr ⟨halloc_magic H fun c hc => ?_, List.forall_mem_singleton.mpr ?_⟩
      · rw [magic_relink, hH₁ c hc]
      · exact exists_magic_of_map (by rw [magic_relink]; simp [H₁])
    · simpa using hperm.trans hperm'.symm
    · have hcap_h : (H.headers h).map Header.capacity = some header.capacity := by
        rw [hcap h, hhd, Option.map_some]
      obtain ⟨header', hh', hcap'⟩ := Option.map_eq_some_iff.mp hcap_h
      exact ⟨header', hh', hcap' ▸ hle⟩
  · set n := dataPtr h + size with hn_def
    set rest : Header := ⟨header.next, header.capacity - size - headerSize, magicFree⟩
    have hn_eq : n = h + 16 + size := by rw [hn_def, dataPtr, headerSize]
    simp only [headerSize, minCapacity] at hsplit hcmin
    have hn : n ∈ a.heap.extent h := by
      rw [extent_of_headers hhd]
      simp only [Set.mem_Ico, n, dataPtr, headerSize]
      omega
    have hnh : n ≠ h := by simp only [n, dataPtr, headerSize]; omega
    have hne_n : ∀ c ∈ others, c ≠ n := by
      intro c hc hcn
      have hnc : n ∈ a.heap.extent c := hcn ▸ self_mem_extent _ c
      exact Set.disjoint_left.mp (htiles.disjoint (List.mem_cons_self ..)
        (List.mem_cons_of_mem _ hc) (hne c hc).symm) hn hnc
    set H₁ := (a.heap.write n rest).write h ⟨none, size, magicAllocated⟩
    have hH₁ : ∀ c ∈ others, H₁.headers c = a.heap.headers c := fun c hc => by
      simp [H₁, hne c hc, hne_n c hc]
    have hH₁n : H₁.headers n = some rest := by simp [H₁, hnh]
    obtain ⟨pre', hpre', hpre'_magic, hfl⟩ := FreeList.unlink (H := H₁)
      hl (hothers_nd.of_append_left) rfl (fun q hq => hH₁ q.1 (hpre_mem q hq))
      (.cons hH₁n (hl.of_append.congr fun r hr => hH₁ r.1 (hpost_mem r hr)))
      (fun q hq r hr => by
        rcases List.mem_cons.mp hr with rfl | hr
        · exact hne_n q.1 (hpre_mem q hq)
        · exact hpre_post q hq r hr)
      hpre_magic
    set H := relink H₁ (pre.getLast?.map Prod.fst) (some n)
    have hcap : ∀ c ∈ others, (H.headers c).map Header.capacity =
        (a.heap.headers c).map Header.capacity := fun c hc => by
      rw [capacity_relink, hH₁ c hc]
    have hcap_h : (H.headers h).map Header.capacity = some size := by
      rw [capacity_relink]
      simp [H₁]
    have hcap_n : (H.headers n).map Header.capacity = some rest.capacity := by
      rw [capacity_relink, hH₁n, Option.map_some]
    have hext_h : H.extent h = Set.Ico h n := by
      simp only [Heap.extent, hcap_h, Option.getD_some, n]
    have hext_n : H.extent n = Set.Ico n (dataPtr h + header.capacity) := by
      simp only [Heap.extent, hcap_n, Option.getD_some, rest, dataPtr, headerSize]
      congr 1
      omega
    have hperm' : (pre'.map Prod.fst ++ (n :: post.map Prod.fst) ++ (a.allocated ++ [h])).Perm
        (h :: n :: others) := by
      rw [hpre']
      simp only [others, List.perm_iff_count, List.count_append, List.count_cons, List.count_nil]
      intro x
      omega
    refine ⟨pre' ++ (n, rest) :: post, ⟨hfl, ?_, ?_, ?_, ?_⟩, ?_⟩
    · exact List.forall_mem_append.mpr ⟨hpre'_magic, List.forall_mem_cons.mpr ⟨rfl, hpost_magic⟩⟩
    · refine List.forall_mem_append.mpr ⟨halloc_magic H fun c hc => ?_, List.forall_mem_singleton.mpr ?_⟩
      · rw [magic_relink, hH₁ c hc]
      · exact exists_magic_of_map (by rw [magic_relink]; simp)
    · intro c hc
      have hc' : c ∈ h :: n :: others := hperm'.subset (by simpa [Alloc.chunks] using hc)
      rcases List.mem_cons.mp hc' with rfl | hc'
      · exact ChunkOk.of_capacity hcap_h hal hmin (hle.trans hcmax)
      · rcases List.mem_cons.mp hc' with rfl | hc'
        · refine ChunkOk.of_capacity hcap_n ?_ ?_ ?_
          · simp only [n, dataPtr, headerSize, minSize] at hal hmod ⊢
            omega
          · simp only [rest, minCapacity, headerSize]
            omega
          · simp only [rest]
            omega
        · exact (hinv.chunkOk c (hold c (List.mem_cons_of_mem _ hc'))).congr (hcap c hc')
    · have ht := htiles.cons_split (y := h) (z := n)
        (fun c hc => extent_congr (hcap c hc))
        (by rw [hext_h, hext_n]; exact Set.Ico_disjoint_Ico_same)
        (by
          rw [hext_h, hext_n, Set.Ico_union_Ico_eq_Ico (by simp only [n, dataPtr]; omega)
            (by simp only [n, dataPtr, headerSize]; omega), extent_of_headers hhd])
      rw [show Alloc.chunks ⟨H, a.regions, a.allocated ++ [h]⟩ (pre' ++ (n, rest) :: post) =
        pre'.map Prod.fst ++ (n :: post.map Prod.fst) ++ (a.allocated ++ [h]) by
          simp [Alloc.chunks]]
      exact ht.perm hperm'.symm
    · obtain ⟨header', hh', hcap'⟩ := Option.map_eq_some_iff.mp hcap_h
      exact ⟨header', hh', hcap'.ge⟩

/-- `malloc(size, align)` with `size > 0` and `align` a power of two, when its walk ends: the chunk
it takes, if any, becomes allocated, and the pointer it returns is aligned to `align` and is the
data pointer of that chunk, with room for `size` bytes. -/
theorem Inv.malloc (hinv : Inv a fl) {size align fuel : Nat} {r : Option Nat} {heap : Heap}
    (hsize : 0 < size) (halign : ∃ k, align = 2 ^ k)
    (hm : malloc fuel a.heap size align = some (r, heap)) :
    ∃ fl', Inv ⟨heap, a.regions, a.allocated ++ (r.map fun p => p - headerSize).toList⟩ fl' ∧
      ∀ p ∈ r, p % align = 0 ∧
        ∃ h header, p = dataPtr h ∧ heap.headers h = some header ∧ size ≤ header.capacity := by
  by_cases hbig : Word.MAX 32 / 2 < size
  · simp only [Malloc.malloc, if_pos hbig, Option.some.injEq] at hm
    obtain ⟨rfl, rfl⟩ := Prod.mk.inj hm.symm
    exact ⟨fl, by simpa using hinv, by simp⟩
  rw [malloc_of_le (Nat.not_lt.mp hbig)] at hm
  set size' := alignUpNat size minSize with hsize'
  obtain ⟨hmod, hle, -⟩ := @alignUpNat_spec 4 size (by norm_num)
    (by simp only [Word.MAX] at hbig; omega)
  rw [show (2 : Nat) ^ 4 = minSize from rfl, ← hsize'] at hmod hle
  rcases mallocLoop_eq_some hinv.freeList hm with ⟨rfl, rfl⟩ |
    ⟨pre, h, header, post, rfl, hfit, rfl, rfl⟩
  · exact ⟨fl, by simpa using hinv, by simp⟩
  obtain ⟨-, hcap, hal⟩ := canFit_eq_some hfit
  obtain ⟨k, rfl⟩ := halign
  rw [Option.or_none]
  obtain ⟨fl', hinv', header', hh', hcap'⟩ := hinv.take
    (by simp only [minCapacity, minSize] at hmod ⊢; omega) hmod hcap
  refine ⟨fl', by simpa [dataPtr] using hinv', fun p hp => ?_⟩
  obtain rfl := Option.mem_some_iff.mp hp
  exact ⟨isAligned_iff.mp hal, h, header', rfl, hh', hle.trans hcap'⟩

/-- Every call keeps the invariant. -/
theorem Inv.step (hinv : Inv a fl) {l : Op × Option Nat} {a' : Alloc} (hs : Step a l a') :
    ∃ fl', Inv a' fl' := by
  cases hs with
  | addChunk hdisj => exact hinv.addChunk hdisj
  | malloc hsize halign hm =>
    obtain ⟨fl', hinv', -⟩ := hinv.malloc hsize halign hm
    exact ⟨fl', hinv'⟩
  | free hh => exact hinv.free hh

/-- On a free list, `malloc` with fuel for every chunk returns. -/
theorem Inv.malloc_isSome (hinv : Inv a fl) {fuel : Nat} (hfuel : fl.length < fuel)
    (size align : Nat) : (Malloc.malloc fuel a.heap size align).isSome := by
  by_cases hbig : Word.MAX 32 / 2 < size
  · simp [Malloc.malloc, if_pos hbig]
  · rw [malloc_of_le (Nat.not_lt.mp hbig)]
    exact mallocLoop_isSome hinv.freeList none hfuel

/-- The pointer a `malloc` call returns is aligned as asked, and is the data pointer of an
allocated chunk with room for the request. -/
theorem Inv.malloc_result (hinv : Inv a fl) {size align p : Nat} {a' : Alloc}
    (hs : Step a (.malloc size align, some p) a') :
    p % align = 0 ∧ ∃ c ∈ a'.allocated, p = dataPtr c ∧
      ∃ header, a'.heap.headers c = some header ∧ size ≤ header.capacity := by
  cases hs with
  | malloc hsize halign hm =>
    obtain ⟨-, -, hres⟩ := hinv.malloc hsize halign hm
    obtain ⟨hal, c, header, rfl, hh, hcap⟩ := hres _ rfl
    exact ⟨hal, c, by simp [dataPtr], rfl, header, hh, hcap⟩

end Inv

/-- Every state a run of the client reaches keeps the invariant. -/
theorem inv_of_reach {a : Alloc} (h : Reach Step Alloc.init a) : ∃ fl, Inv a fl :=
  Reach.invariant (P := fun a => ∃ fl, Inv a fl) ⟨[], inv_init⟩
    (fun _ _ _ _ ⟨_, hinv⟩ hs => hinv.step hs) h

theorem allocator_invariant {ops : List (Op × Option Nat)} {a : Alloc}
    (h : Run Step Alloc.init ops a) :
    ∃ fl, FreeList a.heap a.heap.head fl ∧ (∀ p ∈ fl, p.2.magic = magicFree) ∧
      (∀ c ∈ a.allocated, ∃ header, a.heap.headers c = some header ∧
        header.magic = magicAllocated) ∧
      Tiles a.heap.extent (a.chunks fl) a.memory ∧ (a.chunks fl).Nodup ∧
      (∀ c ∈ a.chunks fl, ChunkOk a.heap c) ∧
      (∀ size align fuel, fl.length < fuel → (malloc fuel a.heap size align).isSome) ∧
      (∀ size align p a', Step a (.malloc size align, some p) a' →
        p % align = 0 ∧ ∃ c ∈ a'.allocated, p = dataPtr c ∧
          ∃ header, a'.heap.headers c = some header ∧ size ≤ header.capacity) := by
  obtain ⟨fl, hinv⟩ := inv_of_reach h.reach
  exact ⟨fl, hinv.freeList, hinv.free_magic, hinv.allocated_magic, hinv.tiles, hinv.nodup,
    hinv.chunkOk, fun size align _ hfuel => hinv.malloc_isSome hfuel size align,
    fun _ _ _ _ hs => hinv.malloc_result hs⟩

/-- A client adds the region `[0x1000, 0x1100)` and asks for 24 bytes aligned to 8: `malloc`
splits the chunk and returns its data pointer `0x1010`, with 32 bytes of room. -/
theorem allocator_invariant_sample :
    ∃ a, Run Step Alloc.init [(.addChunk 0x1000 0x100, none), (.malloc 24 8, some 0x1010)] a ∧
      ∃ fl, Tiles a.heap.extent (a.chunks fl) a.memory := by
  obtain ⟨a, hrun⟩ : ∃ a, Run Step Alloc.init
      [(.addChunk 0x1000 0x100, none), (.malloc 24 8, some 0x1010)] a :=
    ⟨_, .snoc (.snoc .nil (.addChunk (by simp [Alloc.memory, Alloc.init])))
      (@Step.malloc _ 24 8 1 _ _ (by decide) ⟨3, rfl⟩ rfl)⟩
  obtain ⟨fl, -, -, -, htiles, -⟩ := allocator_invariant hrun
  exact ⟨a, hrun, fl, htiles⟩

end Ftl.Malloc

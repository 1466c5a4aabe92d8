import Mathlib
import Ftl.BumpAllocator
import Ftl.Lib.ByteMem
import Ftl.Kernel.Memory.Regions

/-!
# The page allocator and `memory::init`

`PageAllocator` (`kernel/src/memory.rs`) holds a bump allocator for each of up to eight free
regions; `alloc(len, page_type)` asks them in order and the first with room serves the request.
`Zeroed` pages are cleared through the direct map, which the model writes as the physical bytes
`paddr .. paddr + len` of a `ByteMem`. The `debug_assert!`s of `alloc` (`len > 0` and a multiple of
`MIN_PAGE_SIZE`) hold at every call site of the kernel, which passes constant page sizes, and are
not modelled; nothing below needs them.

`memory::init` collects the kernel image range and the module ranges into an
`ArrayVec<Range<PAddr>, 9>` (`unwrap` and `expect` panic when it is full: the model returns
`none`), sorts them by start, and hands every gap that `visit_unused_regions` finds in each free
RAM region to `add_region`. A region whose `addr + size` overflows is skipped.

The allocator never hands out an address twice. A run keeps `Inv`: the free parts of the bump
allocators are usable and pairwise disjoint, and every block handed out is usable, aligned,
outside every free part, and disjoint from every other block (`inv_allocLoop`, `inv_allocRun`).
Usable is any property of address ranges closed under shrinking; for the allocator `init`
builds it is `Usable`: inside one free RAM region, below `DIRECT_MAP_END`, and outside the
kernel image and the boot modules (`inv_init`).

## Main definitions

* `Ftl.Memory.PageAllocator`, `Ftl.Memory.PageAllocator.addRegion`,
  `Ftl.Memory.PageAllocator.alloc`.
* `Ftl.Memory.init`, `Ftl.Memory.allocRun`, `Ftl.Memory.handedOut`.
* `Ftl.Memory.Inv`, `Ftl.Memory.Usable`.

## Main results

* `Ftl.Memory.inv_allocLoop`: one allocation keeps the invariant.
* `Ftl.Memory.inv_allocRun`: so does every run.
* `Ftl.Memory.inv_init`: `init` establishes it.
-/

namespace Ftl.Memory

/-- `PageType`: whether `alloc` clears the pages. -/
inductive PageType where
  | dirty
  | zeroed
  deriving DecidableEq, Repr

/-- `PageAllocator`: a bump allocator for each free region, at most eight. -/
structure PageAllocator where
  regions : ArrayVec BumpAllocator 8

namespace PageAllocator

/-- `PageAllocator::new()`. -/
def new : PageAllocator := ⟨ArrayVec.new⟩

/-- `add_region(start, end)`: a region that does not fit in the table is dropped, with a trace
message. -/
def addRegion (pa : PageAllocator) (start end_ : Nat) : PageAllocator :=
  ⟨(pa.regions.tryPush (BumpAllocator.new start end_)).2⟩

/-- The loop of `alloc` over `regions.iter_mut()`: the first region with room serves the
request; each region asked keeps what its own `alloc` left. -/
def allocLoop (len : Nat) : List BumpAllocator → Option Nat × List BumpAllocator
  | [] => (none, [])
  | region :: rest =>
    match region.alloc len minPageSize with
    | (some addr, region') => (some addr, region' :: rest)
    | (none, region') => ((allocLoop len rest).1, region' :: (allocLoop len rest).2)

theorem length_allocLoop (len : Nat) :
    ∀ regions : List BumpAllocator, (allocLoop len regions).2.length = regions.length
  | [] => rfl
  | region :: rest => by
    rw [allocLoop]
    split <;> simp [length_allocLoop len rest]

/-- `alloc(len, page_type)`: the address of the block, the allocator after it, and the memory
after `Zeroed` pages are cleared. -/
def alloc (pa : PageAllocator) (mem : ByteMem) (len : Nat) (pageType : PageType) :
    Option Nat × PageAllocator × ByteMem :=
  let r := allocLoop len pa.regions.asSlice
  let pa' : PageAllocator :=
    ⟨pa.regions.setSlice r.2 ((length_allocLoop len _).trans (ArrayVec.asSlice_length _))⟩
  match r.1, pageType with
  | some paddr, .zeroed => (some paddr, pa', mem.fill paddr len 0)
  | r, _ => (r, pa', mem)

variable {pa : PageAllocator} {mem : ByteMem} {len : Nat}

theorem alloc_fst (pa : PageAllocator) (mem : ByteMem) (len : Nat) (pageType : PageType) :
    (pa.alloc mem len pageType).1 = (allocLoop len pa.regions.asSlice).1 := by
  unfold alloc
  dsimp only
  split
  · rename_i heq
    exact heq.symm
  · rfl

theorem asSlice_alloc (pa : PageAllocator) (mem : ByteMem) (len : Nat) (pageType : PageType) :
    (pa.alloc mem len pageType).2.1.regions.asSlice = (allocLoop len pa.regions.asSlice).2 := by
  unfold alloc
  dsimp only
  split <;> simp only [ArrayVec.asSlice_setSlice]

theorem alloc_mem_of_zeroed {paddr : Nat} (h : (pa.alloc mem len .zeroed).1 = some paddr) :
    (pa.alloc mem len .zeroed).2.2 = mem.fill paddr len 0 := by
  rw [alloc_fst] at h
  unfold alloc
  dsimp only
  simp only [h]

/-! ### What one allocation does -/

theorem allocLoop_of_none :
    ∀ {regions : List BumpAllocator}, (allocLoop len regions).1 = none →
      (allocLoop len regions).2 = regions
  | [], _ => rfl
  | region :: rest, h => by
    rcases hr : region.alloc len minPageSize with ⟨_ | addr, region'⟩
    · have hsame : region' = region := by
        have := BumpAllocator.alloc_snd_of_fst_eq_none (b := region) (by rw [hr])
        rwa [hr] at this
      simp only [allocLoop, hr] at h ⊢
      rw [hsame, allocLoop_of_none h]
    · simp [allocLoop, hr] at h

/-- A successful allocation is served by one region, and changes only that region. -/
theorem allocLoop_of_some {a : Nat} :
    ∀ {regions : List BumpAllocator}, (allocLoop len regions).1 = some a →
      ∃ pre region post, regions = pre ++ region :: post ∧
        (region.alloc len minPageSize).1 = some a ∧
        (allocLoop len regions).2 = pre ++ (region.alloc len minPageSize).2 :: post
  | [], h => by cases h
  | region :: rest, h => by
    rcases hr : region.alloc len minPageSize with ⟨_ | addr, region'⟩
    · have hsame : region' = region := by
        have := BumpAllocator.alloc_snd_of_fst_eq_none (b := region) (by rw [hr])
        rwa [hr] at this
      simp only [allocLoop, hr] at h ⊢
      obtain ⟨pre, r, post, rfl, hra, hres⟩ := allocLoop_of_some h
      exact ⟨region :: pre, r, post, rfl, hra, by rw [hres, hsame, List.cons_append]⟩
    · simp only [allocLoop, hr, Option.some.injEq] at h ⊢
      subst h
      exact ⟨[], region, rest, rfl, by rw [hr], by rw [hr, List.nil_append]⟩

end PageAllocator

open PageAllocator

/-! ### Replacing one element of a list -/

section Replace

variable {α : Type*} {R : α → α → Prop} {pre post : List α} {b b' : α}

theorem mem_replace {x : α} (hx : x ∈ pre ++ b' :: post) : x ∈ pre ∨ x = b' ∨ x ∈ post := by
  simpa [List.mem_append, List.mem_cons, or_assoc] using hx

/-- The element between `pre` and `post` of a pairwise list, against any other element. -/
theorem Pairwise.middle (hR : ∀ {x y}, R x y → R y x) (h : (pre ++ b :: post).Pairwise R) {c : α}
    (hc : c ∈ pre ∨ c ∈ post) : R b c := by
  obtain ⟨-, hmid, hcross⟩ := List.pairwise_append.mp h
  rcases hc with hc | hc
  · exact hR (hcross c hc b List.mem_cons_self)
  · exact (List.pairwise_cons.mp hmid).1 c hc

/-- Replacing an element by one that relates to no fewer elements keeps a list pairwise. -/
theorem Pairwise.replace (h : (pre ++ b :: post).Pairwise R) (hl : ∀ c, R c b → R c b')
    (hr : ∀ c, R b c → R b' c) : (pre ++ b' :: post).Pairwise R := by
  obtain ⟨hpre, hmid, hcross⟩ := List.pairwise_append.mp h
  obtain ⟨hb, hpost⟩ := List.pairwise_cons.mp hmid
  refine List.pairwise_append.mpr ⟨hpre, List.pairwise_cons.mpr ⟨fun c hc => hr c (hb c hc),
    hpost⟩, fun x hx y hy => ?_⟩
  rcases List.mem_cons.mp hy with rfl | hy
  · exact hl x (hcross x hx _ List.mem_cons_self)
  · exact hcross x hx y (List.mem_cons_of_mem _ hy)

end Replace

/-! ### The invariant of a run -/

section Invariant

variable (P : Nat → Nat → Prop)

/-- What a run of allocations keeps, for the ranges that `P` calls usable; `blocks` are the
blocks handed out so far. -/
structure Inv (regions : List BumpAllocator) (blocks : List Range) : Prop where
  free_usable : ∀ b ∈ regions, P b.start b.next
  next_lt : ∀ b ∈ regions, b.next < 2 ^ 64
  free_pairwise : regions.Pairwise fun b c => Disjoint b.free c.free
  block_usable : ∀ x ∈ blocks, P x.start x.end_ ∧ x.start % minPageSize = 0
  block_not_free : ∀ x ∈ blocks, ∀ b ∈ regions, Disjoint x.ico b.free
  block_pairwise : blocks.Pairwise fun x y => Disjoint x.ico y.ico

variable {P}

/-- The block an allocation of `len` bytes hands out, if any. -/
def block (len : Nat) (r : Option Nat) : List Range :=
  (r.map fun a => (⟨a, a + len⟩ : Range)).toList

/-- One allocation keeps the invariant, when usable ranges stay usable as they shrink. -/
theorem inv_allocLoop {regions : List BumpAllocator} {blocks : List Range}
    (hinv : Inv P regions blocks)
    (hP : ∀ {a b a' b'}, P a b → a ≤ a' → b' ≤ b → P a' b') (len : Nat) :
    Inv P (allocLoop len regions).2 (blocks ++ block len (allocLoop len regions).1) := by
  rcases hr : (allocLoop len regions).1 with _ | a
  · rw [allocLoop_of_none hr]
    simpa [block] using hinv
  obtain ⟨pre, b, post, rfl, hb, hres⟩ := allocLoop_of_some hr
  rw [hres]
  have hbmem : b ∈ pre ++ b :: post := by simp
  have hnext := hinv.next_lt b hbmem
  rw [minPageSize_eq] at hb ⊢
  obtain ⟨hb', hstart, hend, halign⟩ := BumpAllocator.alloc_of_fst_eq_some (by norm_num) hnext hb
  obtain ⟨hblock, hshrink, hsplit⟩ := BumpAllocator.alloc_split (by norm_num) hnext hb
  set b' := (b.alloc len (2 ^ 12)).2
  have hb'start : b'.start = b.start := by rw [hb']
  have hb'next : b'.next = a := by rw [hb']
  have hother : ∀ c, c ∈ pre ∨ c ∈ post → Disjoint b.free c.free :=
    fun c hc => Pairwise.middle (fun h => h.symm) hinv.free_pairwise hc
  have hold : ∀ c, c ∈ pre ∨ c ∈ post → c ∈ pre ++ b :: post := by
    rintro c (hc | hc) <;> simp [hc]
  refine ⟨?_, ?_, ?_, ?_, ?_, ?_⟩
  · intro c hc
    rcases mem_replace hc with hc | rfl | hc
    · exact hinv.free_usable c (hold c (.inl hc))
    · rw [hb'start, hb'next]
      exact hP (hinv.free_usable b hbmem) le_rfl (by omega)
    · exact hinv.free_usable c (hold c (.inr hc))
  · intro c hc
    rcases mem_replace hc with hc | rfl | hc
    · exact hinv.next_lt c (hold c (.inl hc))
    · rw [hb'next]
      omega
    · exact hinv.next_lt c (hold c (.inr hc))
  · exact Pairwise.replace hinv.free_pairwise (fun c h => h.mono_right hshrink)
      (fun c h => h.mono_left hshrink)
  · intro x hx
    rcases List.mem_append.mp hx with hx | hx
    · exact hinv.block_usable x hx
    · obtain rfl : x = ⟨a, a + len⟩ := by simpa [block] using hx
      exact ⟨hP (hinv.free_usable b hbmem) hstart hend, halign⟩
  · intro x hx c hc
    rcases List.mem_append.mp hx with hx | hx
    · rcases mem_replace hc with hc | rfl | hc
      · exact hinv.block_not_free x hx c (hold c (.inl hc))
      · exact (hinv.block_not_free x hx b hbmem).mono_right hshrink
      · exact hinv.block_not_free x hx c (hold c (.inr hc))
    · obtain rfl : x = ⟨a, a + len⟩ := by simpa [block] using hx
      rcases mem_replace hc with hc | rfl | hc
      · exact (hother c (.inl hc)).mono_left hblock
      · exact hsplit
      · exact (hother c (.inr hc)).mono_left hblock
  · refine List.pairwise_append.mpr ⟨hinv.block_pairwise, by simp [block], ?_⟩
    intro x hx y hy
    obtain rfl : y = ⟨a, a + len⟩ := by simpa [block] using hy
    exact (hinv.block_not_free x hx b hbmem).mono_right hblock

end Invariant

/-! ### Runs of allocations -/

/-- A run of `alloc` calls, each with its length and page type: the addresses returned. -/
def allocRun (pa : PageAllocator) (mem : ByteMem) : List (Nat × PageType) → List (Option Nat)
  | [] => []
  | (len, pageType) :: reqs =>
    (pa.alloc mem len pageType).1 ::
      allocRun (pa.alloc mem len pageType).2.1 (pa.alloc mem len pageType).2.2 reqs

/-- The blocks a run handed out, in the order of the calls. -/
def handedOut : List (Nat × PageType) → List (Option Nat) → List Range
  | (len, _) :: reqs, r :: rs => block len r ++ handedOut reqs rs
  | _, _ => []

/-- Every run keeps the invariant, and the blocks it hands out join those handed out before. -/
theorem inv_allocRun {P : Nat → Nat → Prop}
    (hP : ∀ {a b a' b'}, P a b → a ≤ a' → b' ≤ b → P a' b') :
    ∀ (reqs : List (Nat × PageType)) {pa : PageAllocator} {blocks : List Range}
      (mem : ByteMem), Inv P pa.regions.asSlice blocks →
      ∃ regions, Inv P regions (blocks ++ handedOut reqs (allocRun pa mem reqs))
  | [], _, blocks, _, hinv => ⟨_, by simpa [allocRun, handedOut] using hinv⟩
  | (len, pageType) :: reqs, pa, blocks, mem, hinv => by
    have hstep := inv_allocLoop hinv hP len
    rw [← asSlice_alloc pa mem len pageType, ← alloc_fst pa mem len pageType] at hstep
    obtain ⟨regions, hrun⟩ := inv_allocRun hP reqs _ hstep
    exact ⟨regions, by simpa [allocRun, handedOut, List.append_assoc] using hrun⟩

/-! ### `memory::init` -/

/-- The loop pushing the module ranges: `expect` panics when the array is full. -/
def pushModules :
    ArrayVec Range (numModulesMax + 1) → List Module → Option (ArrayVec Range (numModulesMax + 1))
  | v, [] => some v
  | v, m :: ms =>
    match v.tryPush ⟨m.start, m.end_⟩ with
    | (.ok (), v') => pushModules v' ms
    | (.error _, _) => none

/-- The reserved regions: the kernel image and the modules, sorted by start. -/
def reservedRegions (kernelReservedRange : Range) (bootinfo : BootInfo) :
    Option (ArrayVec Range (numModulesMax + 1)) :=
  match (ArrayVec.new : ArrayVec Range (numModulesMax + 1)).tryPush kernelReservedRange with
  | (.error _, _) => none
  | (.ok (), v) => (pushModules v bootinfo.modules.asSlice).map fun v =>
    v.setSlice (bubbleSort (fun a b => decide (a.start > b.start)) v.asSlice)
      ((length_bubbleSort _ _).trans (ArrayVec.asSlice_length v))

/-- One free RAM region: its gaps around the reserved regions go to `add_region`. -/
def addFreeRam (reserved : List Range) (pa : PageAllocator) (ram : FreeRam) : PageAllocator :=
  match Word.checkedAdd 64 ram.addr ram.size with
  | none => pa
  | some end_ =>
    (visitUnusedRegions ram.addr end_ reserved).foldl (fun pa r => pa.addRegion r.start r.end_) pa

/-- `memory::init(bootinfo)`, from the page allocator `pa`; the kernel image range
`get_kernel_reserved_range()` comes from the linker script and is a parameter. -/
def init (kernelReservedRange : Range) (bootinfo : BootInfo) (pa : PageAllocator) :
    Option PageAllocator :=
  (reservedRegions kernelReservedRange bootinfo).map fun reserved =>
    bootinfo.freeRams.asSlice.foldl (addFreeRam reserved.asSlice) pa

/-! ### What `init` builds -/

/-- The gaps of one free RAM region around the reserved regions; none when `addr + size`
overflows. -/
def ramRegions (reserved : List Range) (ram : FreeRam) : List Range :=
  match Word.checkedAdd 64 ram.addr ram.size with
  | none => []
  | some end_ => visitUnusedRegions ram.addr end_ reserved

theorem addFreeRam_eq (reserved : List Range) (pa : PageAllocator) (ram : FreeRam) :
    addFreeRam reserved pa ram =
      (ramRegions reserved ram).foldl (fun pa r => pa.addRegion r.start r.end_) pa := by
  unfold addFreeRam ramRegions
  split <;> rfl

/-- The regions `add_region` keeps are some of those it is given, in order. -/
theorem asSlice_foldl_addRegion_sublist :
    ∀ (l : List Range) (pa : PageAllocator),
      (l.foldl (fun pa r => pa.addRegion r.start r.end_) pa).regions.asSlice.Sublist
        (pa.regions.asSlice ++ l.map fun r => BumpAllocator.new r.start r.end_)
  | [], pa => by simp
  | r :: l, pa => by
    rw [List.foldl_cons, List.map_cons, ← List.singleton_append, ← List.append_assoc]
    exact (asSlice_foldl_addRegion_sublist l _).trans
      ((ArrayVec.asSlice_tryPush_sublist _ _).append_right _)

theorem pushModules_eq : ∀ (v : ArrayVec Range (numModulesMax + 1)) (ms : List Module),
    v.len + ms.length ≤ numModulesMax + 1 → ∃ v', pushModules v ms = some v' ∧
      v'.asSlice = v.asSlice ++ ms.map fun m => (⟨m.start, m.end_⟩ : Range)
  | v, [], _ => ⟨v, rfl, by simp⟩
  | v, m :: ms, h => by
    have hlt : v.len < numModulesMax + 1 := by
      rw [List.length_cons] at h
      omega
    have hpush := ArrayVec.asSlice_tryPush_of_lt hlt ⟨m.start, m.end_⟩
    have hlen : (v.tryPush ⟨m.start, m.end_⟩).2.len = v.len + 1 := by
      rw [← ArrayVec.asSlice_length, hpush, List.length_append, ArrayVec.asSlice_length,
        List.length_singleton]
    obtain ⟨v', hv', hslice⟩ := pushModules_eq _ ms (by rw [hlen, List.length_cons] at *; omega)
    have hok : v.tryPush ⟨m.start, m.end_⟩ = (.ok (), (v.tryPush ⟨m.start, m.end_⟩).2) :=
      Prod.ext (ArrayVec.tryPush_fst_of_lt hlt _) rfl
    refine ⟨v', ?_, ?_⟩
    · rw [pushModules, hok]
      exact hv'
    · rw [hslice, hpush, List.map_cons, List.append_assoc, List.singleton_append]

/-- Nothing panics: the kernel image and at most eight modules fit in nine slots. The reserved
regions are the kernel image and the modules, sorted by start. -/
theorem reservedRegions_eq (kernelReservedRange : Range) (bootinfo : BootInfo) :
    ∃ v, reservedRegions kernelReservedRange bootinfo = some v ∧
      v.asSlice = bubbleSort (fun a b => decide (a.start > b.start))
        (kernelReservedRange :: bootinfo.modules.asSlice.map fun m => ⟨m.start, m.end_⟩) := by
  have hlt : (ArrayVec.new : ArrayVec Range (numModulesMax + 1)).len < numModulesMax + 1 := by
    decide
  have hpush := ArrayVec.asSlice_tryPush_of_lt hlt kernelReservedRange
  rw [ArrayVec.asSlice_new, List.nil_append] at hpush
  have hmods : bootinfo.modules.asSlice.length ≤ numModulesMax := by
    rw [ArrayVec.asSlice_length]
    exact bootinfo.modules.len_le
  have hlen : ((ArrayVec.new : ArrayVec Range (numModulesMax + 1)).tryPush kernelReservedRange).2.len +
      bootinfo.modules.asSlice.length ≤ numModulesMax + 1 := by
    rw [← ArrayVec.asSlice_length, hpush, List.length_singleton]
    omega
  obtain ⟨v, hv, hslice⟩ := pushModules_eq _ _ hlen
  have hok : (ArrayVec.new : ArrayVec Range (numModulesMax + 1)).tryPush kernelReservedRange =
      (.ok (), (ArrayVec.new.tryPush kernelReservedRange).2) :=
    Prod.ext (ArrayVec.tryPush_fst_of_lt hlt _) rfl
  refine ⟨_, by rw [reservedRegions, hok]; dsimp only; rw [hv]; rfl, ?_⟩
  rw [ArrayVec.asSlice_setSlice, hslice, hpush, List.singleton_append]

/-- The addresses `start .. end` may be handed out: they lie in one free RAM region, below
`DIRECT_MAP_END`, and miss the kernel image and every boot module. -/
structure Usable (kernelReservedRange : Range) (bootinfo : BootInfo) (start end_ : Nat) :
    Prop where
  in_ram : ∃ ram ∈ bootinfo.freeRams.asSlice,
    Set.Ico start end_ ⊆ Set.Ico ram.addr (ram.addr + ram.size)
  le_directMapEnd : end_ ≤ directMapEnd
  not_kernel : Disjoint (Set.Ico start end_) kernelReservedRange.ico
  not_module : ∀ m ∈ bootinfo.modules.asSlice, Disjoint (Set.Ico start end_) (Set.Ico m.start m.end_)

theorem Usable.mono {kernelReservedRange : Range} {bootinfo : BootInfo} {a b a' b' : Nat}
    (h : Usable kernelReservedRange bootinfo a b) (ha : a ≤ a') (hb : b' ≤ b) :
    Usable kernelReservedRange bootinfo a' b' where
  in_ram := by
    obtain ⟨ram, hram, hsub⟩ := h.in_ram
    exact ⟨ram, hram, (Set.Ico_subset_Ico ha hb).trans hsub⟩
  le_directMapEnd := hb.trans h.le_directMapEnd
  not_kernel := h.not_kernel.mono_left (Set.Ico_subset_Ico ha hb)
  not_module m hm := (h.not_module m hm).mono_left (Set.Ico_subset_Ico ha hb)

section Init

variable {kernelReservedRange : Range} {bootinfo : BootInfo} {reserved : List Range}

/-- A gap of a free RAM region that misses every reserved region is usable. -/
theorem usable_of_mem_ramRegions
    (hsorted : reserved.Pairwise fun r r' => r.start ≤ r'.start)
    (hkernel : kernelReservedRange ∈ reserved)
    (hmodule : ∀ m ∈ bootinfo.modules.asSlice, (⟨m.start, m.end_⟩ : Range) ∈ reserved)
    {ram : FreeRam} (hram : ram ∈ bootinfo.freeRams.asSlice) {x : Range}
    (hx : x ∈ ramRegions reserved ram) :
    Usable kernelReservedRange bootinfo x.start x.end_ ∧ x.ico ⊆ Set.Ico ram.addr (ram.addr + ram.size) := by
  unfold ramRegions at hx
  split at hx
  · cases hx
  rename_i end_ hend
  obtain ⟨-, rfl⟩ := Word.checkedAdd_eq_some.mp hend
  obtain ⟨haddr, -, hend, hdme, hdisj⟩ := mem_visitUnusedRegions hsorted hx
  have hsub : x.ico ⊆ Set.Ico ram.addr (ram.addr + ram.size) := Set.Ico_subset_Ico haddr hend
  exact ⟨⟨⟨ram, hram, hsub⟩, hdme, hdisj _ hkernel, fun m hm => hdisj _ (hmodule m hm)⟩, hsub⟩

/-- The gaps of all free RAM regions are pairwise disjoint, when the RAM regions are and no
reserved region is reversed. -/
theorem pairwise_flatMap_ramRegions
    (hsorted : reserved.Pairwise fun r r' => r.start ≤ r'.start)
    (hvalid : ∀ r ∈ reserved, r.start ≤ r.end_) {rams : List FreeRam}
    (hrams : rams.Pairwise fun a b =>
      Disjoint (Set.Ico a.addr (a.addr + a.size)) (Set.Ico b.addr (b.addr + b.size))) :
    (rams.flatMap (ramRegions reserved)).Pairwise fun x y => Disjoint x.ico y.ico := by
  have hin : ∀ ram, ∀ x ∈ ramRegions reserved ram, x.ico ⊆ Set.Ico ram.addr (ram.addr + ram.size) := by
    intro ram x hx
    unfold ramRegions at hx
    split at hx
    · cases hx
    rename_i end_ hend
    obtain ⟨-, rfl⟩ := Word.checkedAdd_eq_some.mp hend
    obtain ⟨haddr, -, hend, -⟩ := mem_visitUnusedRegions hsorted hx
    exact Set.Ico_subset_Ico haddr hend
  refine List.pairwise_flatMap.mpr ⟨fun ram _ => ?_, hrams.imp fun hd x hx y hy =>
    hd.mono (hin _ x hx) (hin _ y hy)⟩
  unfold ramRegions
  split
  · exact List.Pairwise.nil
  · exact (visitUnusedRegions_pairwise hsorted hvalid).imp Range.disjoint_ico_of_end_le

end Init

/-- `memory::init` does not panic, and the allocator it builds keeps the invariant for usable
ranges, with nothing handed out yet. -/
theorem inv_init {kernelReservedRange : Range} {bootinfo : BootInfo}
    (hk : kernelReservedRange.start ≤ kernelReservedRange.end_)
    (hmods : ∀ m ∈ bootinfo.modules.asSlice, m.start ≤ m.end_)
    (hrams : bootinfo.freeRams.asSlice.Pairwise fun a b =>
      Disjoint (Set.Ico a.addr (a.addr + a.size)) (Set.Ico b.addr (b.addr + b.size))) :
    ∃ pa, init kernelReservedRange bootinfo PageAllocator.new = some pa ∧
      Inv (Usable kernelReservedRange bootinfo) pa.regions.asSlice [] := by
  obtain ⟨v, hv, hslice⟩ := reservedRegions_eq kernelReservedRange bootinfo
  set reserved := v.asSlice
  have hperm := bubbleSort_perm (fun a b => decide (a.start > b.start))
    (kernelReservedRange :: bootinfo.modules.asSlice.map fun m => (⟨m.start, m.end_⟩ : Range))
  rw [← hslice] at hperm
  have hsorted : reserved.Pairwise fun r r' => r.start ≤ r'.start := by
    rw [hslice]
    exact bubbleSort_sorted Range.start _
  have hkernel : kernelReservedRange ∈ reserved := hperm.symm.subset List.mem_cons_self
  have hmodule : ∀ m ∈ bootinfo.modules.asSlice, (⟨m.start, m.end_⟩ : Range) ∈ reserved :=
    fun m hm => hperm.symm.subset (List.mem_cons_of_mem _ (List.mem_map_of_mem hm))
  have hvalid : ∀ r ∈ reserved, r.start ≤ r.end_ := by
    intro r hr
    rcases List.mem_cons.mp (hperm.subset hr) with rfl | hr
    · exact hk
    · obtain ⟨m, hm, rfl⟩ := List.mem_map.mp hr
      exact hmods m hm
  set gaps := bootinfo.freeRams.asSlice.flatMap (ramRegions reserved)
  have hfold : bootinfo.freeRams.asSlice.foldl (addFreeRam reserved) PageAllocator.new =
      gaps.foldl (fun pa r => pa.addRegion r.start r.end_) PageAllocator.new := by
    rw [List.foldl_flatMap]
    congr 1
    funext pa ram
    exact addFreeRam_eq reserved pa ram
  have hsub := asSlice_foldl_addRegion_sublist gaps PageAllocator.new
  rw [show PageAllocator.new.regions.asSlice = [] from ArrayVec.asSlice_new, List.nil_append]
    at hsub
  have husable : ∀ x ∈ gaps, Usable kernelReservedRange bootinfo x.start x.end_ := by
    intro x hx
    obtain ⟨ram, hram, hx⟩ := List.mem_flatMap.mp hx
    exact (usable_of_mem_ramRegions hsorted hkernel hmodule hram hx).1
  refine ⟨gaps.foldl (fun pa r => pa.addRegion r.start r.end_) PageAllocator.new,
    by rw [init, hv, ← hfold]; rfl, ?_⟩
  refine ⟨fun b hb => ?_, fun b hb => ?_, ?_, by simp, by simp, List.Pairwise.nil⟩
  · obtain ⟨x, hx, rfl⟩ := List.mem_map.mp (hsub.subset hb)
    exact husable x hx
  · obtain ⟨x, hx, rfl⟩ := List.mem_map.mp (hsub.subset hb)
    exact lt_of_le_of_lt (husable x hx).le_directMapEnd directMapEnd_lt
  · have hfree : (gaps.map fun r => BumpAllocator.new r.start r.end_).Pairwise
        fun b c => Disjoint b.free c.free :=
      List.pairwise_map.mpr (pairwise_flatMap_ramRegions hsorted hvalid hrams)
    exact hfree.sublist hsub

/-! ### Physical pages are handed out once -/

/-- Every run of allocations from `pa` hands out blocks that are aligned to `MIN_PAGE_SIZE`,
usable, and disjoint from every block handed out before. -/
def AllocationsSafe (kernelReservedRange : Range) (bootinfo : BootInfo) (pa : PageAllocator) :
    Prop :=
  ∀ (mem : ByteMem) (reqs : List (Nat × PageType)),
    (handedOut reqs (allocRun pa mem reqs)).Pairwise (fun x y => Disjoint x.ico y.ico) ∧
    ∀ x ∈ handedOut reqs (allocRun pa mem reqs),
      x.start % minPageSize = 0 ∧ Usable kernelReservedRange bootinfo x.start x.end_

/-- An allocator that keeps the invariant for usable ranges, with nothing handed out yet, hands
out safe blocks on every run. -/
theorem allocationsSafe_of_inv {kernelReservedRange : Range} {bootinfo : BootInfo}
    {pa : PageAllocator} (hinv : Inv (Usable kernelReservedRange bootinfo) pa.regions.asSlice []) :
    AllocationsSafe kernelReservedRange bootinfo pa := by
  intro mem reqs
  obtain ⟨regions, hrun⟩ := inv_allocRun (fun h ha hb => h.mono ha hb) reqs mem hinv
  rw [List.nil_append] at hrun
  exact ⟨hrun.block_pairwise, fun x hx => (hrun.block_usable x hx).symm⟩

theorem init_allocationsSafe (kernelReservedRange : Range) (bootinfo : BootInfo)
    (hk : kernelReservedRange.start ≤ kernelReservedRange.end_)
    (hmods : ∀ m ∈ bootinfo.modules.asSlice, m.start ≤ m.end_)
    (hrams : bootinfo.freeRams.asSlice.Pairwise fun a b =>
      Disjoint (Set.Ico a.addr (a.addr + a.size)) (Set.Ico b.addr (b.addr + b.size))) :
    ∃ pa, init kernelReservedRange bootinfo PageAllocator.new = some pa ∧
      AllocationsSafe kernelReservedRange bootinfo pa := by
  obtain ⟨pa, hpa, hinv⟩ := inv_init hk hmods hrams
  exact ⟨pa, hpa, allocationsSafe_of_inv hinv⟩

/-- A boot with two free RAM regions, the 636 KiB below the VGA hole and the 255 MiB from
`0x10_0000`, and the initfs module at `[0x30_0000, 0x31_0000)`; the kernel's image, at
`[0x10_0000, 0x20_0000)`, lies in the second region too. -/
def twoRamBootInfo : BootInfo :=
  ⟨((ArrayVec.new : ArrayVec Module numModulesMax).tryPush ⟨0x30_0000, 0x31_0000⟩).2,
    ((((ArrayVec.new : ArrayVec FreeRam 8).tryPush ⟨0, 0x9_f000⟩).2).tryPush
      ⟨0x10_0000, 0xff0_0000⟩).2⟩

theorem init_allocationsSafe_twoRam :
    ∃ pa, init ⟨0x10_0000, 0x20_0000⟩ twoRamBootInfo PageAllocator.new = some pa ∧
      AllocationsSafe ⟨0x10_0000, 0x20_0000⟩ twoRamBootInfo pa := by
  have hmods : twoRamBootInfo.modules.asSlice = [⟨0x30_0000, 0x31_0000⟩] := by
    rw [twoRamBootInfo, ArrayVec.asSlice_tryPush_of_lt (by decide), ArrayVec.asSlice_new,
      List.nil_append]
  have hrams : twoRamBootInfo.freeRams.asSlice = [⟨0, 0x9_f000⟩, ⟨0x10_0000, 0xff0_0000⟩] := by
    rw [twoRamBootInfo, ArrayVec.asSlice_tryPush_of_lt (by decide),
      ArrayVec.asSlice_tryPush_of_lt (by decide), ArrayVec.asSlice_new]
    rfl
  refine init_allocationsSafe _ _ (by decide) (by simp [hmods]) ?_
  rw [hrams]
  simp [Set.Ico_disjoint_Ico]

end Ftl.Memory

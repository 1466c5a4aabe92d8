import Mathlib
import Ftl.Api.Types
import Ftl.Kernel.Memory.PageAllocator

/-!
# Physical memory and the source of pages

The kernel objects that own memory (VM areas, page tables) live in one `Machine`: physical memory
and the state of `PAGE_ALLOCATOR`. The kernel reaches physical memory through the direct map
(`paddr2vaddr`), which the model reads and writes as the physical bytes themselves.

Those objects ask for pages with `PAGE_ALLOCATOR.alloc(MIN_PAGE_SIZE, PageType::Zeroed)`. The
models of their code are written for any allocation function `allocPage` of the allocator's state
and memory; what the proofs need of it is `FreshPages`: under an invariant of the allocator, a
page it returns is zero-filled, is taken from the addresses still available, and is no longer
available afterwards; a failed allocation changes no byte.

The page allocator of `memory.rs` is such a source (`freshPages_pageAllocator`): its available
addresses are the free parts of its bump allocators, and its invariant is the one every run of
allocations keeps.

A run that must not fail counts the pages it may take: `Supplies` gives the source a capacity,
the pages it returns while some are left; and a page that a page-table entry names must fit in
the entry (`PageAddrs`). `windowPages` is a source with all three properties: the pages of a
window of memory, handed out upwards.

## Main definitions

* `Ftl.Machine`, `Ftl.FreshPages`, `Ftl.Supplies`, `Ftl.PageAddrs`.
* `Ftl.kernelAllocPage`: `PAGE_ALLOCATOR.alloc(MIN_PAGE_SIZE, PageType::Zeroed)`.
* `Ftl.windowPages`: the pages of a window, upwards.

## Main results

* `Ftl.freshPages_pageAllocator`.
-/

namespace Ftl

/-- Physical memory and the state `pa` of the page allocator. -/
structure Machine (σ : Type) where
  pa : σ
  mem : ByteMem

/-- What the kernel needs of its page source: under the invariant `inv`, a page returned is
zero-filled, comes from the addresses `avail` and leaves them; a failed allocation changes no
byte; and no allocation makes addresses available again. -/
structure FreshPages {σ : Type} (allocPage : σ → ByteMem → Option Nat × σ × ByteMem)
    (inv : σ → Prop) (avail : σ → Set Nat) : Prop where
  inv_alloc : ∀ s mem, inv s → inv (allocPage s mem).2.1
  zeroed : ∀ s mem p, inv s → (allocPage s mem).1 = some p →
    (allocPage s mem).2.2 = mem.fill p minPageSize 0
  mem_of_none : ∀ s mem, inv s → (allocPage s mem).1 = none → (allocPage s mem).2.2 = mem
  fresh : ∀ s mem p, inv s → (allocPage s mem).1 = some p →
    Set.Ico p (p + minPageSize) ⊆ avail s
  avail_alloc : ∀ s mem, inv s → avail (allocPage s mem).2.1 ⊆ avail s
  taken : ∀ s mem p, inv s → (allocPage s mem).1 = some p →
    Disjoint (Set.Ico p (p + minPageSize)) (avail (allocPage s mem).2.1)

/-- A page source with `capacity s` pages left under `inv`: it returns a page while one is left,
and an allocation uses up at most one. -/
structure Supplies {σ : Type} (allocPage : σ → ByteMem → Option Nat × σ × ByteMem)
    (inv : σ → Prop) (capacity : σ → Nat) : Prop where
  returns : ∀ s mem, inv s → 0 < capacity s → ((allocPage s mem).1).isSome
  capacity_alloc : ∀ s mem, inv s → capacity s ≤ capacity (allocPage s mem).2.1 + 1

/-- The pages a source returns fit in a page-table entry: page-aligned, and below `2 ^ 52`, the
physical addresses an entry's bits `12 .. 51` can name. -/
def PageAddrs {σ : Type} (allocPage : σ → ByteMem → Option Nat × σ × ByteMem) (inv : σ → Prop) :
    Prop :=
  ∀ s mem p, inv s → (allocPage s mem).1 = some p → p % minPageSize = 0 ∧ p < 2 ^ 52

/-- Every source supplies no page. -/
theorem supplies_zero {σ : Type} (allocPage : σ → ByteMem → Option Nat × σ × ByteMem)
    (inv : σ → Prop) : Supplies allocPage inv fun _ => 0 :=
  ⟨fun _ _ _ h => absurd h (Nat.lt_irrefl 0), fun _ _ _ => Nat.zero_le _⟩

/-- A fresh page source that returned the page `p`: the page is zeroed, was free and is no longer,
nothing else became free, and the invariant holds on. -/
theorem FreshPages.of_alloc {σ : Type} {allocPage : σ → ByteMem → Option Nat × σ × ByteMem}
    {inv : σ → Prop} {avail : σ → Set Nat} (hfresh : FreshPages allocPage inv avail) {s s' : σ}
    {mem mem' : ByteMem} {p : Nat} (hs : inv s) (hal : allocPage s mem = (some p, s', mem')) :
    mem' = mem.fill p minPageSize 0 ∧ Set.Ico p (p + minPageSize) ⊆ avail s ∧
      Disjoint (Set.Ico p (p + minPageSize)) (avail s') ∧ avail s' ⊆ avail s ∧ inv s' := by
  have hzero := hfresh.zeroed s mem p hs (by rw [hal])
  have htaken := hfresh.taken s mem p hs (by rw [hal])
  have hshrink := hfresh.avail_alloc s mem hs
  have hinv := hfresh.inv_alloc s mem hs
  rw [hal] at hzero htaken hshrink hinv
  exact ⟨hzero, hfresh.fresh s mem p hs (by rw [hal]), htaken, hshrink, hinv⟩

open Memory

/-- `PAGE_ALLOCATOR.alloc(MIN_PAGE_SIZE, PageType::Zeroed)`. -/
def kernelAllocPage (pa : PageAllocator) (mem : ByteMem) : Option Nat × PageAllocator × ByteMem :=
  pa.alloc mem minPageSize .zeroed

/-- The addresses the page allocator may still hand out: the free parts of its regions. -/
def Memory.PageAllocator.avail (pa : PageAllocator) : Set Nat :=
  {a | ∃ b ∈ pa.regions.asSlice, a ∈ b.free}

/-- The invariant of the page allocator that `FreshPages` rests on: its regions are words and
their free parts pairwise disjoint. -/
def Memory.PageAllocator.Ok (pa : PageAllocator) : Prop :=
  Inv (fun _ _ => True) pa.regions.asSlice []

theorem Memory.Inv.forget_blocks {P : Nat → Nat → Prop} {regions : List BumpAllocator}
    {blocks : List Range} (h : Inv P regions blocks) : Inv P regions [] :=
  ⟨h.free_usable, h.next_lt, h.free_pairwise, by simp, by simp, List.Pairwise.nil⟩

theorem Memory.PageAllocator.alloc_mem_of_none {pa : PageAllocator} {mem : ByteMem} {len : Nat}
    {pageType : PageType} (h : (pa.alloc mem len pageType).1 = none) :
    (pa.alloc mem len pageType).2.2 = mem := by
  rw [PageAllocator.alloc_fst] at h
  unfold PageAllocator.alloc
  dsimp only
  simp only [h]

/-- One zeroed page from `PAGE_ALLOCATOR`, as the run invariant of `memory.rs` sees it: the
regions after it keep the invariant, with the page as the one block handed out. -/
theorem Memory.PageAllocator.Ok.inv_kernelAllocPage {pa : PageAllocator} (hok : pa.Ok)
    (mem : ByteMem) :
    Inv (fun _ _ => True) (kernelAllocPage pa mem).2.1.regions.asSlice
      ([] ++ block minPageSize (kernelAllocPage pa mem).1) := by
  have h := inv_allocLoop hok (fun _ _ _ => trivial) minPageSize
  rwa [← PageAllocator.asSlice_alloc pa mem minPageSize .zeroed,
    ← PageAllocator.alloc_fst pa mem minPageSize .zeroed] at h

/-- The free parts of the regions only shrink: the region that serves the page keeps what is
below it, and every other region is untouched. -/
theorem Memory.PageAllocator.Ok.avail_kernelAllocPage {pa : PageAllocator} (hok : pa.Ok)
    (mem : ByteMem) : (kernelAllocPage pa mem).2.1.avail ⊆ pa.avail := by
  intro a ⟨b', hb', ha⟩
  simp only [kernelAllocPage, PageAllocator.asSlice_alloc] at hb'
  rcases hr : (PageAllocator.allocLoop minPageSize pa.regions.asSlice).1 with _ | p
  · rw [PageAllocator.allocLoop_of_none hr] at hb'
    exact ⟨b', hb', ha⟩
  · obtain ⟨pre, b, post, hregions, hb, hres⟩ := PageAllocator.allocLoop_of_some hr
    rw [hres] at hb'
    have hbmem : b ∈ pa.regions.asSlice := by simp [hregions]
    have hold : ∀ c, c ∈ pre ∨ c ∈ post → c ∈ pa.regions.asSlice := by
      rintro c (hc | hc) <;> simp [hregions, hc]
    rw [minPageSize_eq] at hb hb'
    rcases mem_replace hb' with hc | rfl | hc
    · exact ⟨b', hold b' (.inl hc), ha⟩
    · exact ⟨b, hbmem, (BumpAllocator.alloc_split (by norm_num) (hok.next_lt b hbmem) hb).2.1 ha⟩
    · exact ⟨b', hold b' (.inr hc), ha⟩

/-- The page is the top of the free part of the region that served it. -/
theorem Memory.PageAllocator.Ok.mem_avail_of_kernelAllocPage {pa : PageAllocator} (hok : pa.Ok)
    {mem : ByteMem} {p : Nat} (h : (kernelAllocPage pa mem).1 = some p) :
    Set.Ico p (p + minPageSize) ⊆ pa.avail := by
  simp only [kernelAllocPage, PageAllocator.alloc_fst] at h
  obtain ⟨pre, b, post, hregions, hb, -⟩ := PageAllocator.allocLoop_of_some h
  have hbmem : b ∈ pa.regions.asSlice := by simp [hregions]
  rw [minPageSize_eq] at hb ⊢
  intro a ha
  exact ⟨b, hbmem, (BumpAllocator.alloc_split (by norm_num) (hok.next_lt b hbmem) hb).1 ha⟩

/-- The page allocator of `memory.rs`, under its run invariant, is a source of fresh zeroed
pages: the results stated for any `FreshPages` source hold for the kernel's own. -/
theorem freshPages_pageAllocator :
    FreshPages kernelAllocPage PageAllocator.Ok PageAllocator.avail := by
  refine ⟨fun pa mem hok => (hok.inv_kernelAllocPage mem).forget_blocks,
    fun pa mem p _ h => PageAllocator.alloc_mem_of_zeroed h,
    fun pa mem _ h => PageAllocator.alloc_mem_of_none h,
    fun pa mem p hok h => hok.mem_avail_of_kernelAllocPage h,
    fun pa mem hok => hok.avail_kernelAllocPage mem, fun pa mem p hok h => ?_⟩
  rw [Set.disjoint_right]
  rintro a ⟨b, hb, hab⟩ hap
  have hblock := (hok.inv_kernelAllocPage mem).block_not_free ⟨p, p + minPageSize⟩
    (by simp [block, h]) b hb
  exact Set.disjoint_left.mp hblock hap hab

/-- The pages of the window below `limit`, handed out upwards from `next` and zero-filled. -/
def windowPages (limit next : Nat) (mem : ByteMem) : Option Nat × Nat × ByteMem :=
  if next + minPageSize ≤ limit then (some next, next + minPageSize, mem.fill next minPageSize 0)
  else (none, next, mem)

section Window

variable {limit next : Nat} {mem : ByteMem}

theorem windowPages_of_le (h : next + minPageSize ≤ limit) :
    windowPages limit next mem = (some next, next + minPageSize, mem.fill next minPageSize 0) :=
  if_pos h

theorem windowPages_of_lt (h : limit < next + minPageSize) :
    windowPages limit next mem = (none, next, mem) :=
  if_neg (Nat.not_le.mpr h)

variable (limit)

/-- The window is a source of fresh zeroed pages: when it is full nothing changes, and otherwise it
hands out its page at `next`, which it then leaves. -/
theorem freshPages_windowPages :
    FreshPages (windowPages limit) (fun next => next % minPageSize = 0)
      (fun next => Set.Ico next limit) := by
  have hm : minPageSize = 4096 := rfl
  refine ⟨fun next mem hal => ?invAlloc, fun next mem p _ h => ?zeroed, fun next mem _ h => ?memOfNone,
    fun next mem p _ h => ?fresh, fun next mem _ => ?availAlloc, fun next mem p _ h => ?taken⟩
  case invAlloc =>
    rcases Nat.lt_or_ge limit (next + minPageSize) with hfull | hfit
    · rwa [windowPages_of_lt hfull]
    · rw [windowPages_of_le hfit]
      simp only [hm] at hal ⊢
      omega
  case zeroed =>
    rcases Nat.lt_or_ge limit (next + minPageSize) with hfull | hfit
    · rw [windowPages_of_lt hfull] at h
      cases h
    · rw [windowPages_of_le hfit] at h ⊢
      cases h
      rfl
  case memOfNone =>
    rcases Nat.lt_or_ge limit (next + minPageSize) with hfull | hfit
    · rw [windowPages_of_lt hfull]
    · rw [windowPages_of_le hfit] at h
      cases h
  case fresh =>
    rcases Nat.lt_or_ge limit (next + minPageSize) with hfull | hfit
    · rw [windowPages_of_lt hfull] at h
      cases h
    · rw [windowPages_of_le hfit] at h
      cases h
      exact Set.Ico_subset_Ico_right hfit
  case availAlloc =>
    rcases Nat.lt_or_ge limit (next + minPageSize) with hfull | hfit
    · rw [windowPages_of_lt hfull]
    · rw [windowPages_of_le hfit]
      exact Set.Ico_subset_Ico_left (Nat.le_add_right _ _)
  case taken =>
    rcases Nat.lt_or_ge limit (next + minPageSize) with hfull | hfit
    · rw [windowPages_of_lt hfull] at h
      cases h
    · rw [windowPages_of_le hfit] at h ⊢
      cases h
      exact Set.Ico_disjoint_Ico_same.mono_right (Set.Ico_subset_Ico_right le_rfl)

theorem supplies_windowPages :
    Supplies (windowPages limit) (fun next => next % minPageSize = 0)
      fun next => (limit - next) / minPageSize := by
  have hm : minPageSize = 4096 := rfl
  refine ⟨fun next mem _ hpos => ?_, fun next mem _ => ?_⟩
  · rw [windowPages_of_le (by rw [hm] at hpos ⊢; omega)]
    rfl
  · rcases Nat.lt_or_ge limit (next + minPageSize) with hfull | hfit
    · rw [windowPages_of_lt hfull]
      exact Nat.le_succ _
    · rw [windowPages_of_le hfit]
      simp only [hm] at hfit ⊢
      omega

theorem pageAddrs_windowPages (hlimit : limit ≤ 2 ^ 52) :
    PageAddrs (windowPages limit) fun next => next % minPageSize = 0 := by
  intro next mem p hal h
  rcases Nat.lt_or_ge limit (next + minPageSize) with hfull | hfit
  · rw [windowPages_of_lt hfull] at h
    cases h
  · rw [windowPages_of_le hfit] at h
    cases h
    have hm : minPageSize = 4096 := rfl
    rw [hm] at hfit hal ⊢
    omega

end Window

end Ftl

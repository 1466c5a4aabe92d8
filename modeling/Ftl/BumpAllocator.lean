import Mathlib
import Ftl.Utils.Alignment
import Ftl.Lib.Run

/-!
# The bump allocator

`libs/rust/ftl_bump_allocator/src/lib.rs`. A `BumpAllocator` owns the region `start .. end` and
hands out blocks from the top down: `next` starts at `end`, and each allocation moves it down to
the aligned start of the new block. What is below `next` (and above `start`) is still free, what
is above it has been handed out.

`alloc` computes `next - size` with `checked_sub` and rounds it down with `align_down`; it fails
and changes nothing when the subtraction underflows or when the block would start below `start`.

## Main definitions

* `Ftl.BumpAllocator`, `Ftl.BumpAllocator.new`, `Ftl.BumpAllocator.alloc`.

## Main results

* `Ftl.BumpAllocator.alloc_snd_of_fst_eq_none`: a failed allocation changes nothing.
* `Ftl.BumpAllocator.alloc_of_fst_eq_some`: a block is aligned, lies in `start .. next`, and
  becomes the new `next`.
* `Ftl.BumpAllocator.not_exists_of_alloc_fst_eq_none`: a failed allocation had no room.
* `Ftl.BumpAllocator.alloc_run_law`: along every run, each block misses those returned before.
-/

namespace Ftl

/-- `BumpAllocator`: the start of its region, and the next address to allocate below. -/
structure BumpAllocator where
  start : Nat
  next : Nat
  deriving DecidableEq, Repr

namespace BumpAllocator

/-- `BumpAllocator::new(start, end)`. -/
def new (start end_ : Nat) : BumpAllocator := ⟨start, end_⟩

/-- `alloc(size, align)`: the address of the block and the allocator after it. -/
def alloc (b : BumpAllocator) (size align : Nat) : Option Nat × BumpAllocator :=
  match Word.checkedSub b.next size with
  | none => (none, b)
  | some addr =>
    let alignedAddr := alignDown addr align
    if alignedAddr < b.start then (none, b) else (some alignedAddr, { b with next := alignedAddr })

/-- The addresses still free, `start .. next`. -/
def free (b : BumpAllocator) : Set Nat := Set.Ico b.start b.next

variable {b : BumpAllocator} {size align a : Nat}

theorem alloc_snd_of_fst_eq_none (h : (b.alloc size align).1 = none) :
    (b.alloc size align).2 = b := by
  rcases hsub : Word.checkedSub b.next size with _ | addr
  · simp only [alloc, hsub]
  · by_cases hlt : alignDown addr align < b.start
    · simp only [alloc, hsub, if_pos hlt]
    · simp only [alloc, hsub, if_neg hlt] at h
      cases h

/-- A block of `size` bytes at `a`, with `a` aligned, between `start` and the old `next`; the
new `next` is `a`. -/
theorem alloc_of_fst_eq_some {k : Nat} (hk : k ≤ 64) (hnext : b.next < 2 ^ 64)
    (h : (b.alloc size (2 ^ k)).1 = some a) :
    (b.alloc size (2 ^ k)).2 = ⟨b.start, a⟩ ∧ b.start ≤ a ∧ a + size ≤ b.next ∧ a % 2 ^ k = 0 := by
  rcases hsub : Word.checkedSub b.next size with _ | addr
  · simp only [alloc, hsub] at h
    cases h
  · obtain ⟨hle, rfl⟩ := Word.checkedSub_eq_some.mp hsub
    have hv : b.next - size < 2 ^ 64 := by omega
    have hdown := alignDown_le hk hv
    by_cases hlt : alignDown (b.next - size) (2 ^ k) < b.start
    · simp only [alloc, hsub, if_pos hlt] at h
      cases h
    · simp only [alloc, hsub, if_neg hlt, Option.some.injEq] at h ⊢
      subst h
      exact ⟨rfl, Nat.le_of_not_lt hlt, by omega, alignDown_mod hk hv⟩

/-- A successful allocation splits the free addresses: the block is taken from their top, and
the rest stays free. -/
theorem alloc_split {k : Nat} (hk : k ≤ 64) (hnext : b.next < 2 ^ 64)
    (h : (b.alloc size (2 ^ k)).1 = some a) :
    Set.Ico a (a + size) ⊆ b.free ∧ (b.alloc size (2 ^ k)).2.free ⊆ b.free ∧
      Disjoint (Set.Ico a (a + size)) (b.alloc size (2 ^ k)).2.free := by
  obtain ⟨hb', hstart, hend, -⟩ := alloc_of_fst_eq_some hk hnext h
  rw [hb']
  simp only [free]
  refine ⟨Set.Ico_subset_Ico hstart hend, Set.Ico_subset_Ico le_rfl (by omega), ?_⟩
  rw [Set.Ico_disjoint_Ico]
  omega

example : (new 0x1000 0x2000).alloc 0x100 0x100 = (some 0x1f00, ⟨0x1000, 0x1f00⟩) := by decide

/-- A failed allocation had no room: no multiple of the alignment between `start` and the
current `next` has `size` bytes free above it. -/
theorem not_exists_of_alloc_fst_eq_none {k : Nat} (hk : k ≤ 64) (hnext : b.next < 2 ^ 64)
    (h : (b.alloc size (2 ^ k)).1 = none) :
    ¬ ∃ a, a % 2 ^ k = 0 ∧ b.start ≤ a ∧ a + size ≤ b.next := by
  rintro ⟨a, ha, hstart, hend⟩
  rcases hsub : Word.checkedSub b.next size with _ | addr
  · rw [Word.checkedSub_eq_none] at hsub
    omega
  · obtain ⟨-, rfl⟩ := Word.checkedSub_eq_some.mp hsub
    have hle : a ≤ alignDown (b.next - size) (2 ^ k) := le_alignDown hk (by omega) ha (by omega)
    have hlt : alignDown (b.next - size) (2 ^ k) < b.start := by
      by_contra hge
      simp only [alloc, hsub, if_neg hge] at h
      cases h
    omega

/-! ### Runs of allocations -/

/-- One call `alloc(size, align)` of a run, with `align` a power of two that is a `usize`: the
allocator after it, and the blocks returned so far, as `(address, size)`, with the new one. -/
def Step (s : BumpAllocator × List (Nat × Nat)) (req : Nat × Nat)
    (s' : BumpAllocator × List (Nat × Nat)) : Prop :=
  (∃ k < 64, req.2 = 2 ^ k) ∧
    s' = ((s.1.alloc req.1 req.2).2, s.2 ++ ((s.1.alloc req.1 req.2).1.map fun a => (a, req.1)).toList)

/-- What a run from `new(start, end)` keeps: the start, a `next` that only goes down, and every
block returned so far at or above `next`. -/
structure RunInv (start end_ : Nat) (s : BumpAllocator × List (Nat × Nat)) : Prop where
  start_eq : s.1.start = start
  next_le : s.1.next ≤ end_
  above : ∀ blk ∈ s.2, s.1.next ≤ blk.1

/-- One allocation keeps the run invariant: the block is taken from just below `next`, which moves
down to its start. -/
theorem RunInv.step {start end_ : Nat} (hend : end_ < 2 ^ 64)
    {s s' : BumpAllocator × List (Nat × Nat)} {req : Nat × Nat} (hI : RunInv start end_ s)
    (hs : Step s req s') : RunInv start end_ s' := by
  obtain ⟨⟨k, hk, halign⟩, rfl⟩ := hs
  rw [halign]
  cases hr : (s.1.alloc req.1 (2 ^ k)).1 with
  | none =>
    rw [alloc_snd_of_fst_eq_none hr]
    simpa using hI
  | some a =>
    obtain ⟨hs', -, hend', -⟩ := alloc_of_fst_eq_some (by omega) (by have := hI.next_le; omega) hr
    rw [hs']
    refine ⟨hI.start_eq, by have := hI.next_le; dsimp only; omega, fun blk hblk => ?_⟩
    simp only [Option.map_some, Option.toList_some, List.mem_append, List.mem_singleton] at hblk
    rcases hblk with hblk | rfl
    · have := hI.above blk hblk
      dsimp only
      omega
    · exact le_rfl

theorem RunInv.of_reach {start end_ : Nat} (hend : end_ < 2 ^ 64)
    {s : BumpAllocator × List (Nat × Nat)} (h : Reach Step (new start end_, []) s) :
    RunInv start end_ s :=
  Reach.invariant ⟨rfl, le_rfl, by simp⟩ (fun _ _ _ _ hI hs => hI.step hend hs) h

/-- Every call of every run of allocations from `new(start, end)`: a block it returns is aligned,
lies between `start` and the `next` before the call, and misses every block returned before; a
call that fails changes nothing, and fails only when no aligned block fits. -/
theorem alloc_run_law {start end_ : Nat} (hend : end_ < 2 ^ 64)
    {s : BumpAllocator × List (Nat × Nat)} (hs : Reach Step (new start end_, []) s)
    {size k : Nat} (hk : k < 64) :
    (∀ a, (s.1.alloc size (2 ^ k)).1 = some a → a % 2 ^ k = 0 ∧ start ≤ a ∧ a + size ≤ s.1.next ∧
      ∀ blk ∈ s.2, Disjoint (Set.Ico a (a + size)) (Set.Ico blk.1 (blk.1 + blk.2))) ∧
    ((s.1.alloc size (2 ^ k)).1 = none → (s.1.alloc size (2 ^ k)).2 = s.1 ∧
      ¬ ∃ a, a % 2 ^ k = 0 ∧ start ≤ a ∧ a + size ≤ s.1.next) := by
  have hI := RunInv.of_reach hend hs
  have hnext : s.1.next < 2 ^ 64 := by have := hI.next_le; omega
  refine ⟨fun a ha => ?_, fun ha => ⟨alloc_snd_of_fst_eq_none ha, ?_⟩⟩
  · obtain ⟨-, hstart, hle, hmod⟩ := alloc_of_fst_eq_some (by omega) hnext ha
    refine ⟨hmod, hI.start_eq ▸ hstart, hle, fun blk hblk => ?_⟩
    have := hI.above blk hblk
    rw [Set.Ico_disjoint_Ico]
    omega
  · rw [← hI.start_eq]
    exact not_exists_of_alloc_fst_eq_none (by omega) hnext ha

/-- `test_alignment`: from `new(0, 0x2000)`, two calls `alloc(0x5, 0x10)` return `0x1ff0` and
`0x1fe0`, and the third, `alloc(0x1000, 0x1000)`, returns `0`, below and apart from both. -/
theorem alloc_run_law_test_alignment :
    ∃ s, Reach Step (new 0 0x2000, []) s ∧ s.2 = [(0x1ff0, 5), (0x1fe0, 5)] ∧
      (s.1.alloc 0x1000 (2 ^ 12)).1 = some 0 ∧
      ((∀ a, (s.1.alloc 0x1000 (2 ^ 12)).1 = some a → a % 2 ^ 12 = 0 ∧ 0 ≤ a ∧
          a + 0x1000 ≤ s.1.next ∧
          ∀ blk ∈ s.2, Disjoint (Set.Ico a (a + 0x1000)) (Set.Ico blk.1 (blk.1 + blk.2))) ∧
        ((s.1.alloc 0x1000 (2 ^ 12)).1 = none → (s.1.alloc 0x1000 (2 ^ 12)).2 = s.1 ∧
          ¬ ∃ a, a % 2 ^ 12 = 0 ∧ 0 ≤ a ∧ a + 0x1000 ≤ s.1.next)) := by
  obtain ⟨s, hs, hblocks, hthird⟩ : ∃ s, Reach Step (new 0 0x2000, []) s ∧
      s.2 = [(0x1ff0, 5), (0x1fe0, 5)] ∧ (s.1.alloc 0x1000 (2 ^ 12)).1 = some 0 :=
    ⟨_, ⟨[(5, 0x10), (5, 0x10)],
      .snoc (.snoc .nil ⟨⟨4, by decide, rfl⟩, rfl⟩) ⟨⟨4, by decide, rfl⟩, rfl⟩⟩, by decide, by decide⟩
  exact ⟨s, hs, hblocks, hthird, alloc_run_law (by decide) hs (by decide)⟩

end BumpAllocator

end Ftl

import Mathlib
import Ftl.Kernel.Boot

/-!
# Sorting the reserved regions and walking around them

Two helpers of `kernel/src/memory.rs` that `memory::init` runs before it fills the page
allocator. `bubble_sort` sorts the reserved physical ranges (the kernel image and the boot
modules) by their start. `visit_unused_regions` walks a free RAM region with a cursor, skipping
the reserved ranges, and calls `f` on each gap; the model returns the ranges passed to `f`, in
order.

A pass of the inner loop of `bubble_sort` compares the element carried so far with the next one
and swaps them when `f` says so; `bubblePass` carries the element instead of indexing, which is
the same computation. After `i` passes the last `i` elements are the largest, in order
(`bubbleSort_sorted`).

`visit_unused_regions` requires its reserved ranges sorted by start. Then every range it passes
to `f` lies in the free region, below `DIRECT_MAP_END`, and misses every reserved range
(`mem_visitUnusedRegions`); when the reserved ranges are not reversed, the ranges passed to `f`
come in increasing order and do not overlap (`visitUnusedRegions_pairwise`). Together with the
converse, that every free address outside the reserved ranges is passed to `f`, the ranges are
exactly the free region less the reserved ranges (`visitUnusedRegions_exact`).

## Main definitions

* `Ftl.Memory.bubblePass`, `Ftl.Memory.bubbleSort`.
* `Ftl.Memory.visitLoop`, `Ftl.Memory.visitUnusedRegions`.

## Main results

* `Ftl.Memory.bubbleSort_perm`, `Ftl.Memory.bubbleSort_sorted`,
  `Ftl.Memory.bubbleSort_total_preorder`: any strict "greater than" of a total preorder sorts.
* `Ftl.Memory.mem_visitUnusedRegions`, `Ftl.Memory.visitUnusedRegions_pairwise`,
  `Ftl.Memory.visitUnusedRegions_exact`.
-/

namespace Ftl.Memory

/-! ### `bubble_sort` -/

section BubbleSort

variable {α : Type*} (f : α → α → Bool)

/-- The inner loop `for j in 0..n`: the element at `j` is compared with the one at `j + 1`, and
the two are swapped when `f` holds of them; the larger one is carried to the next step. -/
def bubblePass : Nat → List α → List α
  | n + 1, a :: b :: rest =>
    if f a b then b :: bubblePass n (a :: rest) else a :: bubblePass n (b :: rest)
  | _, l => l

/-- `bubble_sort(slice, f)`: pass `i` runs the inner loop `len - i - 1` times. -/
def bubbleSort (slice : List α) : List α :=
  let len := slice.length
  (List.range len).foldl (fun s i => bubblePass f (len - i - 1) s) slice

@[simp] theorem bubblePass_zero (l : List α) : bubblePass f 0 l = l := by
  rcases l with _ | ⟨a, _ | ⟨b, rest⟩⟩ <;> rfl

theorem bubblePass_cons_cons (n : Nat) (a b : α) (rest : List α) :
    bubblePass f (n + 1) (a :: b :: rest) =
      if f a b then b :: bubblePass f n (a :: rest) else a :: bubblePass f n (b :: rest) := rfl

theorem bubblePass_perm : ∀ (n : Nat) (l : List α), (bubblePass f n l).Perm l
  | 0, l => by rw [bubblePass_zero]
  | _ + 1, [] => List.Perm.refl _
  | _ + 1, [_] => List.Perm.refl _
  | n + 1, a :: b :: rest => by
    rw [bubblePass_cons_cons]
    split
    · exact ((bubblePass_perm n (a :: rest)).cons b).trans (List.Perm.swap a b rest)
    · exact (bubblePass_perm n (b :: rest)).cons a

/-- A pass of `n` steps reads only the first `n + 1` elements. -/
theorem bubblePass_append : ∀ (n : Nat) (u s : List α), n < u.length →
    bubblePass f n (u ++ s) = bubblePass f n u ++ s
  | 0, u, s, _ => by rw [bubblePass_zero, bubblePass_zero]
  | n + 1, a :: b :: rest, s, h => by
    have hlen : n < (a :: rest).length := by simp at h ⊢; omega
    rw [List.cons_append, List.cons_append, bubblePass_cons_cons, bubblePass_cons_cons]
    split
    · rw [← List.cons_append, bubblePass_append n (a :: rest) s hlen, List.cons_append]
    · rw [← List.cons_append, bubblePass_append n (b :: rest) s hlen, List.cons_append]
  | _ + 1, [], _, h => absurd h (by simp)
  | _ + 1, [_], _, h => absurd h (by simp)

/-- Every run of passes permutes the slice. -/
theorem foldl_bubblePass_perm (g : Nat → Nat) : ∀ (is : List Nat) (s : List α),
    (is.foldl (fun s i => bubblePass f (g i) s) s).Perm s
  | [], s => List.Perm.refl s
  | i :: is, s => (foldl_bubblePass_perm g is _).trans (bubblePass_perm f (g i) s)

theorem bubbleSort_perm (slice : List α) : (bubbleSort f slice).Perm slice :=
  foldl_bubblePass_perm f _ _ slice

theorem length_bubbleSort (slice : List α) : (bubbleSort f slice).length = slice.length :=
  (bubbleSort_perm f slice).length_eq

end BubbleSort

section Sorted

variable {α β : Type*} [LinearOrder β] (key : α → β)

/-- A pass over a list of `n + 1` elements ends with a largest one. -/
theorem bubblePass_max : ∀ (n : Nat) (u : List α), u.length = n + 1 →
    ∃ init m, bubblePass (fun a b => decide (key a > key b)) n u = init ++ [m] ∧
      ∀ x ∈ u, key x ≤ key m
  | 0, [m], _ => ⟨[], m, rfl, fun x hx => by rw [List.mem_singleton.mp hx]⟩
  | n + 1, a :: b :: rest, h => by
    have hlen : (a :: rest).length = n + 1 := by simp at h ⊢; omega
    rw [bubblePass_cons_cons]
    by_cases hab : key a > key b
    · obtain ⟨init, m, heq, hmax⟩ := bubblePass_max n (a :: rest) hlen
      refine ⟨b :: init, m, by rw [if_pos (decide_eq_true hab), heq, List.cons_append], ?_⟩
      have ham : key a ≤ key m := hmax a List.mem_cons_self
      intro x hx
      rcases List.mem_cons.mp hx with rfl | hx
      · exact ham
      rcases List.mem_cons.mp hx with rfl | hx
      · exact (le_of_lt hab).trans ham
      · exact hmax x (List.mem_cons_of_mem a hx)
    · obtain ⟨init, m, heq, hmax⟩ := bubblePass_max n (b :: rest) hlen
      refine ⟨a :: init, m, by rw [if_neg (by simpa using hab), heq, List.cons_append], ?_⟩
      have hbm : key b ≤ key m := hmax b List.mem_cons_self
      intro x hx
      rcases List.mem_cons.mp hx with rfl | hx
      · exact (le_of_not_gt hab).trans hbm
      · exact hmax x hx

/-- The invariant of the outer loop after `i` passes: the last `i` elements are sorted and no
smaller than any element before them. -/
def SortedSuffix (s : List α) (i : Nat) : Prop :=
  ∃ u t, s = u ++ t ∧ t.length = i ∧ t.Pairwise (fun a b => key a ≤ key b) ∧
    ∀ x ∈ u, ∀ y ∈ t, key x ≤ key y

/-- One pass moves a largest element of the unsorted part in front of the sorted suffix. -/
theorem sortedSuffix_bubblePass {s : List α} {i : Nat} (hs : SortedSuffix key s i)
    (hi : i < s.length) :
    SortedSuffix key (bubblePass (fun a b => decide (key a > key b)) (s.length - i - 1) s)
      (i + 1) := by
  obtain ⟨u, t, rfl, hlen, hsorted, hbound⟩ := hs
  have hu : u.length = (u ++ t).length - i - 1 + 1 := by
    rw [List.length_append] at hi ⊢
    omega
  obtain ⟨init, m, heq, hmax⟩ := bubblePass_max key _ u hu
  have hperm : (init ++ [m]).Perm u := heq ▸ bubblePass_perm _ _ u
  have hmu : m ∈ u := hperm.subset (by simp)
  refine ⟨init, m :: t, ?_, by rw [List.length_cons, hlen], ?_, ?_⟩
  · rw [bubblePass_append _ _ u t (by omega), heq, List.append_assoc, List.singleton_append]
  · exact List.Pairwise.cons (fun y hy => hbound m hmu y hy) hsorted
  · intro x hx y hy
    have hxu : x ∈ u := hperm.subset (List.mem_append_left _ hx)
    rcases List.mem_cons.mp hy with rfl | hy
    · exact hmax x hxu
    · exact hbound x hxu y hy

/-- `bubble_sort(slice, |a, b| key(a) > key(b))` sorts by `key`. -/
theorem bubbleSort_sorted (slice : List α) :
    (bubbleSort (fun a b => decide (key a > key b)) slice).Pairwise
      (fun a b => key a ≤ key b) := by
  have hstep : ∀ i ≤ slice.length, SortedSuffix key
      ((List.range i).foldl (fun s j =>
        bubblePass (fun a b => decide (key a > key b)) (slice.length - j - 1) s) slice) i := by
    intro i
    induction i with
    | zero => exact fun _ => ⟨slice, [], by simp, rfl, List.Pairwise.nil, by simp⟩
    | succ i ih =>
      intro hi
      rw [List.range_succ, List.foldl_append, List.foldl_cons, List.foldl_nil]
      have hs := (foldl_bubblePass_perm (fun a b => decide (key a > key b))
        (fun j => slice.length - j - 1) (List.range i) slice).length_eq
      have h := sortedSuffix_bubblePass key (ih (by omega)) (by omega)
      rwa [hs] at h
  obtain ⟨u, t, heq, hlen, hsorted, -⟩ := hstep slice.length le_rfl
  have hsum : (u ++ t).length = slice.length := by
    rw [← heq]
    exact (foldl_bubblePass_perm (fun a b => decide (key a > key b))
      (fun j => slice.length - j - 1) _ slice).length_eq
  rw [List.length_append, hlen] at hsum
  rw [List.eq_nil_of_length_eq_zero (by omega : u.length = 0), List.nil_append] at heq
  show ((List.range slice.length).foldl _ slice).Pairwise _
  rw [heq]
  exact hsorted

end Sorted

/-- `bubble_sort(slice, f)` for a comparator `f` that is the strict "greater than" of a total
preorder `r` leaves a permutation of the slice in non-decreasing order for `r`. The classes of `r`
form a linear order (Mathlib's `Antisymmetrization`), and `f` compares the classes, so this is
`bubbleSort_sorted` with the class of an element as its key. -/
theorem bubbleSort_total_preorder {α : Type*} (r : α → α → Prop) [Std.Total r] [IsTrans α r]
    (f : α → α → Bool) (hf : ∀ a b, f a b = true ↔ r b a ∧ ¬ r a b) (slice : List α) :
    (bubbleSort f slice).Perm slice ∧ (bubbleSort f slice).Pairwise r := by
  classical
  let _ : Preorder α :=
    { le := r
      le_refl := fun a => (total_of r a a).elim id id
      le_trans := fun _ _ _ => trans_of r }
  have : @Std.Total α (· ≤ ·) := ‹Std.Total r›
  have hf' : f = fun a b => decide (toAntisymmetrization (· ≤ ·) a >
      toAntisymmetrization (α := α) (· ≤ ·) b) := by
    funext a b
    rw [Bool.eq_iff_iff, hf, decide_eq_true_iff]
    exact Iff.rfl
  have hsorted := bubbleSort_sorted (toAntisymmetrization (α := α) (· ≤ ·)) slice
  rw [hf']
  exact ⟨bubbleSort_perm _ slice, hsorted⟩

/-- The comparator of `memory::init`, `|a, b| a.start > b.start`, on two reserved ranges. -/
theorem bubbleSort_total_preorder_reserved :
    (bubbleSort (fun a b : Range => decide (a.start > b.start))
        [⟨0x20_0000, 0x30_0000⟩, ⟨0x10_0000, 0x18_0000⟩]).Perm
        [⟨0x20_0000, 0x30_0000⟩, ⟨0x10_0000, 0x18_0000⟩] ∧
      (bubbleSort (fun a b : Range => decide (a.start > b.start))
        [⟨0x20_0000, 0x30_0000⟩, ⟨0x10_0000, 0x18_0000⟩]).Pairwise
        (fun a b => a.start ≤ b.start) :=
  @bubbleSort_total_preorder Range (fun a b => a.start ≤ b.start) ⟨fun a b => le_total _ _⟩
    ⟨fun _ _ _ => le_trans⟩ _ (fun a b => by rw [decide_eq_true_iff]; omega) _

/-! ### `visit_unused_regions` -/

section Visit

/-- The free region after the last reserved range considered, `cursor .. end`, if not empty. -/
def visitTail (cursor end_ : Nat) : List Range :=
  if cursor < end_ then [⟨cursor, end_⟩] else []

/-- The loop of `visit_unused_regions` from `cursor` over the reserved ranges not yet
considered: the ranges passed to `f`, in order. -/
def visitLoop (end_ : Nat) (cursor : Nat) : List Range → List Range
  | [] => visitTail cursor end_
  | reserved :: rest =>
    -- the cursor is past the end of the RAM region: `return`
    if cursor ≥ end_ then []
    -- the reserved range is before the cursor: `continue`
    else if reserved.end_ ≤ cursor then visitLoop end_ cursor rest
    -- the reserved range is after the RAM region: `break`
    else if reserved.start ≥ end_ then visitTail cursor end_
    else (if cursor < reserved.start then [⟨cursor, reserved.start⟩] else []) ++
      visitLoop end_ reserved.end_ rest

/-- `visit_unused_regions(addr, end, reserved_regions, f)`: the ranges passed to `f`. -/
def visitUnusedRegions (addr end_ : Nat) (reservedRegions : List Range) : List Range :=
  visitLoop (min end_ directMapEnd) addr reservedRegions

variable {E : Nat}

theorem mem_visitTail {c : Nat} {x : Range} (hx : x ∈ visitTail c E) : x = ⟨c, E⟩ ∧ c < E := by
  unfold visitTail at hx
  split_ifs at hx with h
  · exact ⟨List.mem_singleton.mp hx, h⟩
  · cases hx

/-- Every range passed to `f` starts at or after the cursor, is not empty, ends by `end`, and
misses every reserved range still to be considered. The ranges already passed over end at or
before the cursor, so it misses those too. -/
theorem mem_visitLoop : ∀ {c : Nat} {rs : List Range},
    rs.Pairwise (fun r r' => r.start ≤ r'.start) → ∀ {x : Range}, x ∈ visitLoop E c rs →
      c ≤ x.start ∧ x.start < x.end_ ∧ x.end_ ≤ E ∧ ∀ r ∈ rs, Disjoint x.ico r.ico
  | c, [], _, x, hx => by
    obtain ⟨rfl, hlt⟩ := mem_visitTail hx
    exact ⟨le_rfl, hlt, le_rfl, by simp⟩
  | c, r :: rest, hsorted, x, hx => by
    obtain ⟨hafter, hrest⟩ := List.pairwise_cons.mp hsorted
    have hlater : x.end_ ≤ r.start → ∀ r' ∈ r :: rest, Disjoint x.ico r'.ico := by
      intro hx' r' hr'
      rcases List.mem_cons.mp hr' with rfl | hr'
      · exact Range.disjoint_ico_of_end_le hx'
      · exact Range.disjoint_ico_of_end_le (hx'.trans (hafter r' hr'))
    have hmoved : ∀ c', r.end_ ≤ c' → c ≤ c' → x ∈ visitLoop E c' rest →
        c ≤ x.start ∧ x.start < x.end_ ∧ x.end_ ≤ E ∧ ∀ r' ∈ r :: rest, Disjoint x.ico r'.ico := by
      intro c' hrc hcc hx
      obtain ⟨hc, hne, hE, hdisj⟩ := mem_visitLoop hrest hx
      refine ⟨hcc.trans hc, hne, hE, fun r' hr' => ?_⟩
      rcases List.mem_cons.mp hr' with rfl | hr'
      · exact (Range.disjoint_ico_of_end_le (hrc.trans hc)).symm
      · exact hdisj r' hr'
    rw [visitLoop] at hx
    split_ifs at hx with hend hbefore hpast hgap
    · cases hx
    · exact hmoved c hbefore le_rfl hx
    · obtain ⟨rfl, hlt⟩ := mem_visitTail hx
      exact ⟨le_rfl, hlt, le_rfl, hlater (by dsimp only; omega)⟩
    · rcases List.mem_append.mp hx with hx | hx
      · obtain rfl := List.mem_singleton.mp hx
        exact ⟨le_rfl, hgap, by dsimp only; omega, hlater le_rfl⟩
      · exact hmoved r.end_ le_rfl (by omega) hx
    · rw [List.nil_append] at hx
      exact hmoved r.end_ le_rfl (by omega) hx

/-- With no reversed reserved range, the ranges passed to `f` come in increasing order. -/
theorem visitLoop_pairwise : ∀ {c : Nat} {rs : List Range},
    rs.Pairwise (fun r r' => r.start ≤ r'.start) → (∀ r ∈ rs, r.start ≤ r.end_) →
      (visitLoop E c rs).Pairwise (fun x y => x.end_ ≤ y.start)
  | c, [], _, _ => by
    unfold visitLoop visitTail
    split_ifs <;> simp
  | c, r :: rest, hsorted, hvalid => by
    have hrest := (List.pairwise_cons.mp hsorted).2
    have hvalid' : ∀ r' ∈ rest, r'.start ≤ r'.end_ := fun r' hr' => hvalid r' (by simp [hr'])
    have hr : r.start ≤ r.end_ := hvalid r List.mem_cons_self
    rw [visitLoop]
    split_ifs with hend hbefore hpast hgap
    · exact List.Pairwise.nil
    · exact visitLoop_pairwise hrest hvalid'
    · unfold visitTail
      split_ifs <;> simp
    · refine List.pairwise_append.mpr ⟨List.pairwise_singleton _ _,
        visitLoop_pairwise hrest hvalid', ?_⟩
      intro x hx y hy
      obtain rfl := List.mem_singleton.mp hx
      exact hr.trans (mem_visitLoop hrest hy).1
    · rw [List.nil_append]
      exact visitLoop_pairwise hrest hvalid'

/-- A range passed to `f` lies in `addr .. end`, below `DIRECT_MAP_END`, is not empty, and
misses every reserved range. -/
theorem mem_visitUnusedRegions {addr end_ : Nat} {rs : List Range}
    (hsorted : rs.Pairwise (fun r r' => r.start ≤ r'.start)) {x : Range}
    (hx : x ∈ visitUnusedRegions addr end_ rs) :
    addr ≤ x.start ∧ x.start < x.end_ ∧ x.end_ ≤ end_ ∧ x.end_ ≤ directMapEnd ∧
      ∀ r ∈ rs, Disjoint x.ico r.ico := by
  obtain ⟨hc, hne, hE, hdisj⟩ := mem_visitLoop hsorted hx
  exact ⟨hc, hne, hE.trans (min_le_left _ _), hE.trans (min_le_right _ _), hdisj⟩

/-- Every address from the cursor on, below `end` and in no reserved range still to be
considered, lies in a range the loop passes to `f`. The order of the reserved ranges plays no
part here. -/
theorem visitLoop_complete : ∀ {c : Nat} {rs : List Range} {p : Nat}, c ≤ p → p < E →
    (∀ r ∈ rs, p ∉ r.ico) → ∃ x ∈ visitLoop E c rs, p ∈ x.ico
  | c, [], p, hc, hp, _ => ⟨⟨c, E⟩, by simp [visitLoop, visitTail, show c < E by omega],
      Range.mem_ico.mpr ⟨hc, hp⟩⟩
  | c, r :: rest, p, hc, hp, hfree => by
    have hr : ¬ (r.start ≤ p ∧ p < r.end_) := fun h => hfree r List.mem_cons_self (Range.mem_ico.mpr h)
    have hrest : ∀ r' ∈ rest, p ∉ r'.ico := fun r' hr' => hfree r' (List.mem_cons_of_mem r hr')
    rw [visitLoop]
    split_ifs with hend hbefore hpast hgap
    · omega
    · exact visitLoop_complete hc hp hrest
    · exact ⟨⟨c, E⟩, by simp [visitTail, show c < E by omega], Range.mem_ico.mpr ⟨hc, hp⟩⟩
    · by_cases hlt : p < r.start
      · exact ⟨⟨c, r.start⟩, List.mem_append_left _ (List.mem_singleton_self _),
          Range.mem_ico.mpr ⟨hc, hlt⟩⟩
      · obtain ⟨x, hx, hpx⟩ := visitLoop_complete (c := r.end_) (by omega) hp hrest
        exact ⟨x, List.mem_append_right _ hx, hpx⟩
    · obtain ⟨x, hx, hpx⟩ := visitLoop_complete (c := r.end_) (by omega) hp hrest
      exact ⟨x, by rw [List.nil_append]; exact hx, hpx⟩

theorem visitUnusedRegions_pairwise {addr end_ : Nat} {rs : List Range}
    (hsorted : rs.Pairwise (fun r r' => r.start ≤ r'.start)) (hvalid : ∀ r ∈ rs, r.start ≤ r.end_) :
    (visitUnusedRegions addr end_ rs).Pairwise (fun x y => x.end_ ≤ y.start) :=
  visitLoop_pairwise hsorted hvalid

/-- `visit_unused_regions` passes to `f` non-empty ranges, in increasing order and disjoint,
whose union is the free region `addr .. min(end, DIRECT_MAP_END)` less the reserved ranges. -/
theorem visitUnusedRegions_exact {addr end_ : Nat} {rs : List Range}
    (hsorted : rs.Pairwise (fun r r' => r.start ≤ r'.start)) (hvalid : ∀ r ∈ rs, r.start ≤ r.end_) :
    (∀ x ∈ visitUnusedRegions addr end_ rs, x.start < x.end_) ∧
      (visitUnusedRegions addr end_ rs).Pairwise (fun x y => x.end_ ≤ y.start) ∧
      ∀ p, (∃ x ∈ visitUnusedRegions addr end_ rs, p ∈ x.ico) ↔
        addr ≤ p ∧ p < min end_ directMapEnd ∧ ∀ r ∈ rs, p ∉ r.ico := by
  refine ⟨fun x hx => (mem_visitUnusedRegions hsorted hx).2.1,
    visitUnusedRegions_pairwise hsorted hvalid, fun p => ⟨?_, ?_⟩⟩
  · rintro ⟨x, hx, hpx⟩
    obtain ⟨hstart, -, hend, hdm, hdisj⟩ := mem_visitUnusedRegions hsorted hx
    have hp := Range.mem_ico.mp hpx
    exact ⟨by omega, lt_min (by omega) (by omega),
      fun r hr hpr => Set.disjoint_left.mp (hdisj r hr) hpx hpr⟩
  · rintro ⟨hstart, hend, hfree⟩
    exact visitLoop_complete hstart hend hfree

/-- Reserved ranges that overlap and nest, around the free region `0x1000 .. 0x8000`. -/
theorem visitUnusedRegions_exact_nested :
    let rs : List Range := [⟨0x800, 0x1800⟩, ⟨0x2000, 0x5000⟩, ⟨0x3000, 0x4000⟩, ⟨0x4800, 0x6000⟩]
    (∀ x ∈ visitUnusedRegions 0x1000 0x8000 rs, x.start < x.end_) ∧
      (visitUnusedRegions 0x1000 0x8000 rs).Pairwise (fun x y => x.end_ ≤ y.start) ∧
      ∀ p, (∃ x ∈ visitUnusedRegions 0x1000 0x8000 rs, p ∈ x.ico) ↔
        0x1000 ≤ p ∧ p < min 0x8000 directMapEnd ∧ ∀ r ∈ rs, p ∉ r.ico :=
  visitUnusedRegions_exact (by decide) (by decide)

end Visit

end Ftl.Memory

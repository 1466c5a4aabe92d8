import Mathlib
import Ftl.Kernel.VmSpace
import Ftl.Kernel.Arch.Tables
import Ftl.Lib.Intervals

/-!
# The contents of an address space

What a program sees of its address space is a partial map from addresses to bytes, `contents`:
an address covered by a mapping shows the byte of the mapping's area at the address's offset in
it, and any other address shows nothing. This module proves that the code keeps that view: `map`
of an area over a free range adds the area's bytes over the range and changes nothing else
(`map_spec`), and `read_bytes` inside one mapping returns the contents (`readBytes_spec`).

Both rest on an invariant of the space, `SpaceOk`: the mappings are sorted, apart, within the
user half and as long as their areas; every area is valid, holds all its pages and owns pages apart
from the others' and from the page tables; and the page tables (a tree of `Ftl.Arch.TablesOk`)
map exactly the pages of the mappings. The space, with its tables and areas, is one object of the
machine: `map` writes only its own pages and pages it takes from the source (`Grows`).

## Main definitions

* `Ftl.VmSpace.contents`: the abstract view of a space.
* `Ftl.VmSpace.SpaceOk`: the invariant.

## Main results

* `Ftl.VmSpace.mapPages_spec`: the loop of `map`.
* `Ftl.VmSpace.map_spec`, `Ftl.VmSpace.readBytes_spec`.
-/

namespace Ftl.VmSpace

open Arch EStateM VmArea

variable {σ : Type} {allocPage : σ → ByteMem → Option Nat × σ × ByteMem} {inv : σ → Prop}
  {avail : σ → Set Nat} {capacity : σ → Nat}

/-! ### The view of a space -/

/-- The pages the mappings of `vs` cover, by number. -/
def mappedPages (vs : VmSpace) : Set Nat :=
  {v | ∃ m ∈ vs.mappings, m.start ≤ v * minPageSize ∧ v * minPageSize < m.end_}

/-- The mapping of `vs` that holds `uaddr`, the first one in the list. -/
def mappingAt (vs : VmSpace) (uaddr : Nat) : Option Mapping :=
  vs.mappings.find? (Intervals.covers Mapping.start Mapping.end_ uaddr)

/-- What a program sees at `uaddr`: the byte of the mapped area at the address's offset in its
mapping, or nothing where no mapping is. -/
def contents (vs : VmSpace) (o : Objects σ) (uaddr : Nat) : Option UInt8 :=
  (mappingAt vs uaddr).map fun m => byteAt (o.areas m.vmarea) o.machine.mem (uaddr - m.start)

/-- The pages of the areas `vs` maps. -/
def areaPages (vs : VmSpace) (o : Objects σ) : Set Nat :=
  {a | ∃ m ∈ vs.mappings, a ∈ VmArea.footprint (o.areas m.vmarea)}

/-- The pages a space owns: its page tables, at `addr`, and the pages of the areas it maps. -/
def footprint (vs : VmSpace) (o : Objects σ) (addr : List Nat → Option Nat) : Set Nat :=
  tablePages addr ∪ areaPages vs o

theorem contents_eq_none {vs : VmSpace} {o : Objects σ} {uaddr : Nat}
    (h : ∀ m ∈ vs.mappings, ¬ (m.start ≤ uaddr ∧ uaddr < m.end_)) : contents vs o uaddr = none := by
  rw [contents, mappingAt, List.find?_eq_none.mpr fun m hm hcov => h m hm (Intervals.covers_iff.mp hcov)]
  rfl

theorem subset_areaPages {vs : VmSpace} {o : Objects σ} {m : Mapping} (hm : m ∈ vs.mappings) :
    VmArea.footprint (o.areas m.vmarea) ⊆ areaPages vs o :=
  fun _ ha => ⟨m, hm, ha⟩

theorem areaPages_congr {vs : VmSpace} {o o' : Objects σ}
    (h : ∀ m ∈ vs.mappings, o'.areas m.vmarea = o.areas m.vmarea) : areaPages vs o' = areaPages vs o := by
  ext a
  simp only [areaPages, Set.mem_ofPred_eq]
  constructor
  · rintro ⟨m, hm, ha⟩
    exact ⟨m, hm, h m hm ▸ ha⟩
  · rintro ⟨m, hm, ha⟩
    exact ⟨m, hm, (h m hm).symm ▸ ha⟩

/-! ### The invariant -/

section Invariant

variable (inv avail)

/-- The invariant of a space among its objects, with its page tables at `addr`: the mappings are
sorted and apart, page-aligned, as long as their areas and in the lower half; the areas are valid,
hold all their pages and, when they are different areas, different pages; and the page tables map
exactly the pages of the mappings and own pages apart from the source's and the areas'. -/
structure SpaceOk (vs : VmSpace) (o : Objects σ) (addr : List Nat → Option Nat) : Prop where
  sorted : Intervals.Sorted Mapping.start Mapping.end_ vs.mappings
  inv_pa : inv o.machine.pa
  aligned : ∀ m ∈ vs.mappings, m.start % minPageSize = 0
  nonempty : ∀ m ∈ vs.mappings, m.start < m.end_
  end_eq : ∀ m ∈ vs.mappings, m.end_ = m.start + (o.areas m.vmarea).len
  below : ∀ m ∈ vs.mappings, m.end_ ≤ 2 ^ 47
  valid : ∀ m ∈ vs.mappings, Valid inv avail (o.areas m.vmarea) o.machine
  full : ∀ m ∈ vs.mappings, ∀ i < (o.areas m.vmarea).pages.length,
    ∃ p, (o.areas m.vmarea).pages[i]? = some (some p)
  apart : ∀ m ∈ vs.mappings, ∀ m' ∈ vs.mappings, m.vmarea ≠ m'.vmarea →
    Disjoint (VmArea.footprint (o.areas m.vmarea)) (VmArea.footprint (o.areas m'.vmarea))
  root : addr [] = some vs.arch.pml4
  tables : TablesOk addr o.machine.mem (mappedPages vs)
  tables_avail : Disjoint (tablePages addr) (avail o.machine.pa)
  tables_apart : Disjoint (tablePages addr) (areaPages vs o)

variable {inv avail}

namespace SpaceOk

variable {vs : VmSpace} {o : Objects σ} {addr : List Nat → Option Nat}

/-- The pages of a space are not free. -/
theorem disjoint_avail (hok : SpaceOk inv avail vs o addr) :
    Disjoint (VmSpace.footprint vs o addr) (avail o.machine.pa) := by
  refine Disjoint.union_left hok.tables_avail ?_
  rw [Set.disjoint_left]
  rintro a ⟨m, hm, ha⟩ hav
  exact Set.disjoint_left.mp (hok.valid m hm).disjoint_footprint ha hav

/-- Inside a mapping, a space shows the bytes of its area. -/
theorem contents_of_mem (hok : SpaceOk inv avail vs o addr) {m : Mapping} (hm : m ∈ vs.mappings)
    {uaddr : Nat} (hu : m.start ≤ uaddr ∧ uaddr < m.end_) :
    contents vs o uaddr = some (byteAt (o.areas m.vmarea) o.machine.mem (uaddr - m.start)) := by
  rw [contents, mappingAt, Intervals.find?_covers hok.sorted hok.nonempty hm hu]
  rfl

/-- The frame rule of a space: an operation on other objects, which writes outside the space and
takes pages only from the free ones, and leaves the space's areas as they are, keeps the
invariant, the contents and the footprint of the space. -/
theorem frame (hok : SpaceOk inv avail vs o addr) {o' : Objects σ} {F F' : Set Nat}
    (hgrow : Grows (avail o.machine.pa) (avail o'.machine.pa) F F' o.machine.mem o'.machine.mem)
    (hF : Disjoint (VmSpace.footprint vs o addr) F) (hinv : inv o'.machine.pa)
    (hareas : ∀ m ∈ vs.mappings, o'.areas m.vmarea = o.areas m.vmarea) :
    SpaceOk inv avail vs o' addr ∧ (∀ u, contents vs o' u = contents vs o u) ∧
      VmSpace.footprint vs o' addr = VmSpace.footprint vs o addr ∧
      Disjoint (VmSpace.footprint vs o addr) F' := by
  obtain ⟨heq, hF', hA'⟩ := hgrow.frame hF hok.disjoint_avail
  have hpages := areaPages_congr hareas
  have hbytes : ∀ m ∈ vs.mappings, ∀ off,
      byteAt (o'.areas m.vmarea) o'.machine.mem off = byteAt (o.areas m.vmarea) o.machine.mem off := by
    intro m hm off
    rw [hareas m hm]
    exact byteAt_of_eqOn (fun a ha => heq (Or.inr (subset_areaPages hm ha))) off
  refine ⟨⟨hok.sorted, hinv, hok.aligned, hok.nonempty, fun m hm => ?_, hok.below, fun m hm => ?_,
    fun m hm => ?_, fun m hm m' hm' hne => ?_, hok.root, hok.tables.of_eqOn
      (fun a ha => heq (Or.inl ha)), hA'.mono_left Set.subset_union_left, ?_⟩,
    fun u => ?_, by rw [VmSpace.footprint, VmSpace.footprint, hpages], hF'⟩
  · rw [hareas m hm]
    exact hok.end_eq m hm
  · rw [hareas m hm]
    exact (hok.valid m hm).of_avail hinv hgrow.avail_subset
  · rw [hareas m hm]
    exact hok.full m hm
  · rw [hareas m hm, hareas m' hm']
    exact hok.apart m hm m' hm' hne
  · rw [hpages]
    exact hok.tables_apart
  · rw [contents, contents]
    rcases hat : mappingAt vs u with _ | m
    · rfl
    · have hm : m ∈ vs.mappings := List.mem_of_find?_eq_some hat
      simp only [Option.map_some, hbytes m hm]

end SpaceOk

end Invariant

/-! ### `new` -/

/-- `VmSpace::new()` with a page left: a space without mappings, whose tables are its new
PML4. -/
theorem new_spec (hfresh : FreshPages allocPage inv avail) (hsup : Supplies allocPage inv capacity)
    (haddrs : PageAddrs allocPage inv) {m : Machine σ} (areas : Nat → VmArea) (hinv : inv m.pa)
    (hcap : 0 < capacity m.pa) {bootPdpt : Nat} (hboot : bootPdpt % minPageSize = 0) :
    ∃ vs m', (VmSpace.new allocPage bootPdpt).run m = .ok vs m' ∧ vs.mappings = [] ∧
      SpaceOk inv avail vs ⟨m', areas⟩ (rootOnly vs.arch.pml4) ∧
      Grows (avail m.pa) (avail m'.pa) ∅ (VmSpace.footprint vs ⟨m', areas⟩ (rootOnly vs.arch.pml4))
        m.mem m'.mem ∧
      capacity m.pa ≤ capacity m'.pa + 1 := by
  obtain ⟨arch, m', hrun, htables, -, hgrow, hinv', hcap'⟩ :=
    Arch.VmSpace.new_spec hfresh hsup haddrs hinv hcap hboot
  have hpages : areaPages ⟨arch, []⟩ ⟨m', areas⟩ = ∅ := by
    ext a
    simp [areaPages]
  have hfoot : VmSpace.footprint ⟨arch, []⟩ ⟨m', areas⟩ (rootOnly arch.pml4) =
      tablePages (rootOnly arch.pml4) := by
    rw [VmSpace.footprint, hpages, Set.union_empty]
  refine ⟨⟨arch, []⟩, m', ?_, rfl, ⟨List.Pairwise.nil, hinv', by simp, by simp, by simp, by simp,
    by simp, by simp, by simp, Function.update_self _ _ _, htables.mono (Set.empty_subset _),
    hgrow.disjoint, by rw [hpages]; exact Set.disjoint_empty _⟩, by rw [hfoot]; exact hgrow, hcap'⟩
  simp only [VmSpace.new, run_bind, hrun]
  rfl

/-! ### The loop of `map` -/

/-- One turn of the loop: the page of the area, its entry, and the next address. -/
theorem run_mapPages_cons {vmarea : Nat} {attrs : PageAttrs} {index : Nat} {indices : List Nat}
    {uaddr uaddr' paddr : Nat} {vs : VmSpace} {o : Objects σ} {area : VmArea} {m₁ m₂ : Machine σ}
    (h₁ : (VmArea.ensurePage allocPage index).run (o.areas vmarea, o.machine) = .ok paddr (area, m₁))
    (h₂ : (vs.arch.map allocPage uaddr paddr minPageSize attrs).run m₁ = .ok () m₂)
    (h₃ : Word.checkedAdd 64 uaddr minPageSize = some uaddr') :
    (mapPages allocPage vmarea attrs (index :: indices) uaddr).run (vs, o) =
      (mapPages allocPage vmarea attrs indices uaddr').run
        (vs, ⟨m₂, Function.update o.areas vmarea area⟩) := by
  change (EStateM.focus (areaLens vmarea) (VmArea.ensurePage allocPage index) >>= _).run (vs, o) = _
  rw [run_bind_of_ok (run_focus_of_ok (l := areaLens vmarea) h₁)]
  simp only [run_bind, run_get, areaLens]
  rw [run_focus_of_ok (l := machineLens) (t := (vs, ⟨m₁, Function.update o.areas vmarea area⟩)) h₂]
  simp only [h₃]
  rfl

/-- The pages `j .. j + k` of the area `vmarea`, from `base + MIN_PAGE_SIZE * j` on: each is
allocated if it is not yet and mapped, with three pages left for the tables of each. The area
keeps its bytes and its pages, the tables gain the pages, and both write only their own pages and
the ones they take from the source. -/
theorem mapPages_spec (hfresh : FreshPages allocPage inv avail)
    (hsup : Supplies allocPage inv capacity) (haddrs : PageAddrs allocPage inv) (vs : VmSpace)
    (vmarea : Nat) (attrs : PageAttrs) (base : Nat) (hbase : base % minPageSize = 0) :
    ∀ (k j : Nat) (addr : List Nat → Option Nat) (o : Objects σ) (mapped : Set Nat),
      Valid inv avail (o.areas vmarea) o.machine → PagesAligned (o.areas vmarea) →
      j + k ≤ (o.areas vmarea).pages.length →
      base + minPageSize * (o.areas vmarea).pages.length ≤ 2 ^ 47 →
      TablesOk addr o.machine.mem mapped → addr [] = some vs.arch.pml4 →
      Disjoint (tablePages addr) (avail o.machine.pa) →
      Disjoint (tablePages addr) (VmArea.footprint (o.areas vmarea)) →
      (∀ i, j ≤ i → i < j + k → base / minPageSize + i ∉ mapped) →
      emptySlots (o.areas vmarea) + 3 * k ≤ capacity o.machine.pa →
      ∃ addr' area' m',
        (mapPages allocPage vmarea attrs (List.range' j k) (base + minPageSize * j)).run (vs, o) =
          .ok () (vs, ⟨m', Function.update o.areas vmarea area'⟩) ∧
        Valid inv avail area' m' ∧ PagesAligned area' ∧ area'.len = (o.areas vmarea).len ∧
        area'.pages.length = (o.areas vmarea).pages.length ∧
        (∀ (i p : Nat), (o.areas vmarea).pages[i]? = some (some p) →
          area'.pages[i]? = some (some p)) ∧
        (∀ (i : Nat), j ≤ i → i < j + k → ∃ p, area'.pages[i]? = some (some p)) ∧
        (∀ off, byteAt area' m'.mem off = byteAt (o.areas vmarea) o.machine.mem off) ∧
        TablesOk addr' m'.mem (mapped ∪ {v | ∃ i, j ≤ i ∧ i < j + k ∧ v = base / minPageSize + i}) ∧
        (∀ p u, addr p = some u → addr' p = some u) ∧
        Disjoint (tablePages addr') (VmArea.footprint area') ∧
        Grows (avail o.machine.pa) (avail m'.pa)
          (tablePages addr ∪ VmArea.footprint (o.areas vmarea))
          (tablePages addr' ∪ VmArea.footprint area') o.machine.mem m'.mem ∧
        capacity o.machine.pa + emptySlots area' ≤
          capacity m'.pa + emptySlots (o.areas vmarea) + 3 * k := by
  have hm : minPageSize = 4096 := rfl
  intro k
  induction k with
  | zero =>
    intro j addr o mapped hv hal _ _ hok _ hdisj hapart _ _
    refine ⟨addr, o.areas vmarea, o.machine, ?_, hv, hal, rfl, rfl, fun _ _ h => h,
      fun i hj hi => absurd hi (by omega), fun _ => rfl, ?_, fun _ _ h => h, hapart,
      .refl (Disjoint.union_left hdisj hv.disjoint_footprint) _, by omega⟩
    · rw [List.range'_zero, Function.update_eq_self]
      rfl
    · exact hok.mono fun v hv => .inl hv
  | succ k ih =>
    intro j addr o mapped hv hal hjk htop hok hroot hdisj hapart hfree hcap
    have hj : j < (o.areas vmarea).pages.length := by omega
    obtain ⟨paddr, area₁, m₁, hrun₁, hstep₁, hp₁, hbyte₁⟩ :=
      ensurePage_step hfresh hsup hv hj (by omega)
    have hal₁ := hstep₁.pagesAligned haddrs hal
    have hcap₁ := hstep₁.capacity_le
    obtain ⟨heq₁, hapart₁, hdisj₁⟩ := hstep₁.grows.frame hapart hdisj
    have huaddr : base + minPageSize * j < 2 ^ 47 := by
      rw [hm] at htop ⊢
      omega
    have hnotmapped : (base + minPageSize * j) / minPageSize ∉ mapped := by
      have h := hfree j le_rfl (by omega)
      rwa [show base / minPageSize + j = (base + minPageSize * j) / minPageSize by
        rw [hm] at hbase ⊢; omega] at h
    obtain ⟨addr₂, m₂, hrun₂, hok₂, hext₂, hgrow₂, hinv₂, hcap₂⟩ :=
      Arch.VmSpace.map_spec hfresh hsup haddrs (hok.of_eqOn heq₁) hroot hstep₁.valid.inv_pa hdisj₁
        (by omega) huaddr (by rw [hm] at hbase ⊢; omega) (hal₁ j paddr hp₁) hnotmapped attrs
    obtain ⟨heq₂, hapart₂, -⟩ := hgrow₂.frame hapart₁.symm hstep₁.valid.disjoint_footprint
    have hupd : (⟨m₂, Function.update o.areas vmarea area₁⟩ : Objects σ).areas vmarea = area₁ :=
      Function.update_self _ _ _
    obtain ⟨addr', area', m', hrun', hv', hal', hlen', hplen', hkeeps', hfill', hbyte', hok',
        hext', hapart', hgrow', hcap'⟩ :=
      ih (j + 1) addr₂ ⟨m₂, Function.update o.areas vmarea area₁⟩
        (insert ((base + minPageSize * j) / minPageSize) mapped)
        (by rw [hupd]; exact hstep₁.valid.of_avail hinv₂ hgrow₂.avail_subset)
        (by rw [hupd]; exact hal₁)
        (by rw [hupd, hstep₁.length_pages]; omega)
        (by rw [hupd, hstep₁.length_pages]; exact htop)
        hok₂ (hext₂ [] _ hroot) hgrow₂.disjoint (by rw [hupd]; exact hapart₂.symm)
        (fun i hi hik => by
          rw [Set.mem_insert_iff, not_or]
          refine ⟨fun h => ?_, hfree i (by omega) (by omega)⟩
          rw [hm] at h hbase
          omega)
        (by rw [hupd]; dsimp only; omega)
    rw [hupd] at hlen' hplen' hkeeps' hbyte' hcap' hgrow'
    dsimp only at hcap'
    refine ⟨addr', area', m', ?_, hv', hal', hlen'.trans hstep₁.len_eq,
      hplen'.trans hstep₁.length_pages, fun i p h => hkeeps' i p (hstep₁.keeps i p h),
      fun i hi hik => ?_, fun off => ?_, ?_, fun p u h => hext' p u (hext₂ p u h), hapart', ?_, ?_⟩
    · have hnext : Word.checkedAdd 64 (base + minPageSize * j) minPageSize =
          some (base + minPageSize * (j + 1)) := by
        rw [Word.checkedAdd_eq_some]
        refine ⟨?_, by ring⟩
        simp only [Word.MAX, hm] at huaddr ⊢
        omega
      rw [List.range'_succ, run_mapPages_cons hrun₁ hrun₂ hnext, hrun', Function.update_idem]
    · by_cases hij : i = j
      · subst hij
        exact ⟨paddr, hkeeps' i paddr hp₁⟩
      · exact hfill' i (by omega) (by omega)
    · rw [hbyte', byteAt_of_eqOn heq₂, hbyte₁]
    · refine hok'.mono fun v hv => ?_
      rcases hv with hv | ⟨i, hi, hik, rfl⟩
      · rcases Set.mem_insert_iff.mp hv with rfl | hv
        · refine .inr ⟨j, le_rfl, by omega, ?_⟩
          rw [hm] at hbase ⊢
          omega
        · exact .inl hv
      · exact .inr ⟨i, by omega, by omega, rfl⟩
    · have hg₁ := hstep₁.grows.union_left (G := tablePages addr) hdisj
      have hg₂ := hgrow₂.union_left (G := VmArea.footprint area₁) hstep₁.valid.disjoint_footprint
      rw [Set.union_comm (VmArea.footprint area₁), Set.union_comm (VmArea.footprint area₁)] at hg₂
      exact hg₁.trans (hg₂.trans hgrow')
    · omega

/-! ### `map` -/

/-- `map` over a free range runs its loop and inserts the mapping after those that start below
it. -/
theorem run_map {vmarea uaddr : Nat} {attrs : PageAttrs} {vs : VmSpace} {o o' : Objects σ}
    (hual : uaddr % minPageSize = 0) (hend : uaddr + (o.areas vmarea).len ≤ Word.MAX 64)
    (hfree : ∀ m ∈ vs.mappings, m.end_ ≤ uaddr ∨ uaddr + (o.areas vmarea).len ≤ m.start)
    (hrun : (mapPages allocPage vmarea attrs (List.range ((o.areas vmarea).len / minPageSize))
      uaddr).run (vs, o) = .ok () (vs, o')) :
    (map allocPage vmarea uaddr attrs).run (vs, o) =
      .ok () ({ vs with mappings := (vs.mappings.insertIdx
        (vs.mappings.takeWhile fun m => decide (m.start < uaddr)).length
        ⟨uaddr, uaddr + (o.areas vmarea).len, vmarea, attrs⟩) }, o') := by
  have hal : isAligned uaddr minPageSize = true := by
    rw [show minPageSize = 2 ^ 12 from rfl, isAligned_iff]
    exact hual
  have hadd : Word.checkedAdd 64 uaddr (o.areas vmarea).len = some (uaddr + (o.areas vmarea).len) :=
    Word.checkedAdd_eq_some.mpr ⟨hend, rfl⟩
  have hany : (vs.mappings.any fun m => m.overlapsWith uaddr (uaddr + (o.areas vmarea).len)) =
      false := by
    rw [List.any_eq_false]
    intro m hm hov
    simp only [Mapping.overlapsWith, Bool.and_eq_true, decide_eq_true_eq] at hov
    rcases hfree m hm with h | h <;> omega
  simp only [map, hal, Bool.not_true, Bool.false_eq_true, if_false, run_bind, run_get, hadd, hany]
  rw [hrun]
  rfl

/-- `map` of an area that no mapping of the space holds, over a free range in the lower half,
with pages left for the area's empty slots and three tables a page: it returns, the space keeps its
invariant with new tables, and it shows the area's bytes over the range and what it showed before
everywhere else. The other areas are left as they are, and the space with the area takes new pages
only from the free ones and writes only its own. -/
theorem map_spec (hfresh : FreshPages allocPage inv avail) (hsup : Supplies allocPage inv capacity)
    (haddrs : PageAddrs allocPage inv) {vs : VmSpace} {o : Objects σ}
    {addr : List Nat → Option Nat} (hok : SpaceOk inv avail vs o addr) {vmarea uaddr : Nat}
    (attrs : PageAttrs) (hv : Valid inv avail (o.areas vmarea) o.machine)
    (hal : PagesAligned (o.areas vmarea)) (hnew : ∀ m ∈ vs.mappings, m.vmarea ≠ vmarea)
    (hapart : Disjoint (VmSpace.footprint vs o addr) (VmArea.footprint (o.areas vmarea)))
    (hpos : 0 < (o.areas vmarea).len) (hual : uaddr % minPageSize = 0)
    (hend : uaddr + (o.areas vmarea).len ≤ 2 ^ 47)
    (hfree : ∀ m ∈ vs.mappings, m.end_ ≤ uaddr ∨ uaddr + (o.areas vmarea).len ≤ m.start)
    (hcap : emptySlots (o.areas vmarea) + 3 * (o.areas vmarea).pages.length ≤
      capacity o.machine.pa) :
    ∃ vs' o' addr', (map allocPage vmarea uaddr attrs).run (vs, o) = .ok () (vs', o') ∧
      SpaceOk inv avail vs' o' addr' ∧ vs'.arch = vs.arch ∧
      (∀ m, m ∈ vs'.mappings ↔
        m = ⟨uaddr, uaddr + (o.areas vmarea).len, vmarea, attrs⟩ ∨ m ∈ vs.mappings) ∧
      (∀ u, contents vs' o' u = if uaddr ≤ u ∧ u < uaddr + (o.areas vmarea).len
        then some (byteAt (o.areas vmarea) o.machine.mem (u - uaddr)) else contents vs o u) ∧
      (∀ r, r ≠ vmarea → o'.areas r = o.areas r) ∧
      Grows (avail o.machine.pa) (avail o'.machine.pa)
        (VmSpace.footprint vs o addr ∪ VmArea.footprint (o.areas vmarea))
        (VmSpace.footprint vs' o' addr') o.machine.mem o'.machine.mem ∧
      capacity o.machine.pa ≤
        capacity o'.machine.pa + emptySlots (o.areas vmarea) + 3 * (o.areas vmarea).pages.length := by
  have hm : minPageSize = 4096 := rfl
  have hlen := hv.len_eq
  have hunmapped : ∀ i, 0 ≤ i → i < 0 + (o.areas vmarea).pages.length →
      uaddr / minPageSize + i ∉ mappedPages vs := by
    rintro i - hi ⟨m, hm', h₁, h₂⟩
    rw [hm] at hual hlen h₁ h₂
    rcases hfree m hm' with h | h
    · omega
    · rw [hlen] at h
      omega
  obtain ⟨addr', area', m', hrun, hv', hal', hlen', hplen', hkeeps', hfill', hbyte', htables',
      hext', hapart', hgrow', hcap'⟩ :=
    mapPages_spec hfresh hsup haddrs vs vmarea attrs uaddr hual (o.areas vmarea).pages.length 0
      addr o (mappedPages vs) hv hal (by omega) (by rw [hlen] at hend; linarith) hok.tables hok.root
      hok.tables_avail (hapart.mono_left Set.subset_union_left) hunmapped (by omega)
  rw [Nat.mul_zero, Nat.add_zero, ← List.range_eq_range'] at hrun
  set x : Mapping := ⟨uaddr, uaddr + (o.areas vmarea).len, vmarea, attrs⟩ with hx
  set vs' : VmSpace := { vs with mappings := (vs.mappings.insertIdx
    (vs.mappings.takeWhile fun m => decide (m.start < uaddr)).length x) } with hvs'
  set o' : Objects σ := ⟨m', Function.update o.areas vmarea area'⟩ with ho'
  have hmem : ∀ m, m ∈ vs'.mappings ↔ m = x ∨ m ∈ vs.mappings :=
    fun m => List.mem_insertIdx (List.takeWhile_sublist _).length_le
  have hforall {P : Mapping → Prop} (hxP : P x) (holdP : ∀ m ∈ vs.mappings, P m) :
      ∀ m ∈ vs'.mappings, P m := fun m hm' =>
    ((hmem m).mp hm').elim (fun h => h ▸ hxP) (holdP m)
  have hareas : ∀ m ∈ vs.mappings, o'.areas m.vmarea = o.areas m.vmarea :=
    fun m hm' => Function.update_of_ne (hnew m hm') _ _
  have harea' : o'.areas vmarea = area' := Function.update_self _ _ _
  obtain ⟨heq, hold', -⟩ := hgrow'.frame (G := areaPages vs o)
    (Disjoint.union_right hok.tables_apart.symm
      (hapart.mono_left Set.subset_union_right))
    (hok.disjoint_avail.mono_left Set.subset_union_right)
  have hpages' : areaPages vs' o' = areaPages vs o ∪ VmArea.footprint area' := by
    ext a
    simp only [areaPages, Set.mem_union, Set.mem_ofPred_eq, hmem]
    constructor
    · rintro ⟨m, rfl | hm', ha⟩
      · exact .inr (harea' ▸ ha)
      · exact .inl ⟨m, hm', hareas m hm' ▸ ha⟩
    · rintro (⟨m, hm', ha⟩ | ha)
      · exact ⟨m, .inr hm', (hareas m hm').symm ▸ ha⟩
      · exact ⟨x, .inl rfl, harea'.symm ▸ ha⟩
  have hok' : SpaceOk inv avail vs' o' addr' := by
    refine ⟨?sorted, hv'.inv_pa, ?aligned, ?nonempty, ?end_eq, ?below, ?valid, ?full, ?apart,
      hext' [] _ hok.root, htables'.mono ?mapped, (hgrow'.disjoint.mono_left Set.subset_union_left),
      ?tables_apart⟩
    case sorted =>
      refine Intervals.sorted_insertIdx hok.sorted hok.nonempty (by simp [hx]; omega) ?_
      intro m hm' hov
      rcases hfree m hm' with h | h <;> simp only [hx] at hov <;> omega
    case aligned => exact hforall hual hok.aligned
    case nonempty => exact hforall (show uaddr < uaddr + (o.areas vmarea).len by omega) hok.nonempty
    case end_eq =>
      refine hforall (show x.end_ = x.start + (o'.areas vmarea).len by rw [harea', hlen'])
        fun m hm' => ?_
      rw [hareas m hm']
      exact hok.end_eq m hm'
    case below => exact hforall hend hok.below
    case valid =>
      refine hforall (show Valid inv avail (o'.areas vmarea) o'.machine by rw [harea']; exact hv')
        fun m hm' => ?_
      rw [hareas m hm']
      exact (hok.valid m hm').of_avail hv'.inv_pa hgrow'.avail_subset
    case full =>
      refine hforall (fun i hi => ?_) fun m hm' i hi => ?_
      · change i < (o'.areas vmarea).pages.length at hi
        rw [harea'] at hi ⊢
        exact hfill' i (Nat.zero_le i) (by omega)
      · rw [hareas m hm'] at hi ⊢
        exact hok.full m hm' i hi
    case apart =>
      have hnewApart : ∀ m ∈ vs.mappings,
          Disjoint (VmArea.footprint (o.areas m.vmarea)) (VmArea.footprint area') :=
        fun m hm' => (hold'.mono_right Set.subset_union_right).mono_left (subset_areaPages hm')
      intro m hm' m₂ hm₂ hne
      rcases (hmem m).mp hm' with rfl | hm' <;> rcases (hmem m₂).mp hm₂ with rfl | hm₂
      · exact absurd rfl hne
      · rw [harea', hareas m₂ hm₂]
        exact (hnewApart m₂ hm₂).symm
      · rw [harea', hareas m hm']
        exact hnewApart m hm'
      · rw [hareas m hm', hareas m₂ hm₂]
        exact hok.apart m hm' m₂ hm₂ hne
    case mapped =>
      rintro v (⟨m, hm', hv₁⟩ | ⟨i, -, hi, rfl⟩)
      · exact ⟨m, (hmem m).mpr (.inr hm'), hv₁⟩
      · refine ⟨x, (hmem x).mpr (.inl rfl), ?_⟩
        simp only [hx]
        rw [hm] at hual ⊢
        rw [hlen, hm]
        omega
    case tables_apart =>
      rw [hpages']
      exact Disjoint.union_right (hold'.mono_right Set.subset_union_left).symm hapart'
  refine ⟨vs', o', addr', run_map hual (by simp only [Word.MAX]; omega) hfree
    (by rw [hlen, Nat.mul_div_cancel _ (by decide : 0 < minPageSize)]; exact hrun), hok', rfl,
    hmem, fun u => ?_, fun r hr => Function.update_of_ne hr _ _, ?_,
    by rw [show o'.machine = m' from rfl]; omega⟩
  · split_ifs with hu
    · rw [hok'.contents_of_mem ((hmem x).mpr (.inl rfl)) hu, harea', hbyte']
    · by_cases hcov : ∃ m ∈ vs.mappings, m.start ≤ u ∧ u < m.end_
      · obtain ⟨m, hm', hcov⟩ := hcov
        rw [hok'.contents_of_mem ((hmem m).mpr (.inr hm')) hcov, hok.contents_of_mem hm' hcov,
          hareas m hm']
        exact congrArg some (byteAt_of_eqOn (fun a ha => heq (subset_areaPages hm' ha)) _)
      · simp only [not_exists, not_and, not_lt] at hcov
        rw [@contents_eq_none σ vs' o' u (fun m hm' hu' => ?_),
          @contents_eq_none σ vs o u (fun m hm' hu' => ?_)]
        · exact absurd hu'.2 (not_lt.mpr (hcov m hm' hu'.1))
        · rcases (hmem m).mp hm' with rfl | hm'
          · exact hu hu'
          · exact absurd hu'.2 (not_lt.mpr (hcov m hm' hu'.1))
  · have hgrow := hgrow'.union_left (G := areaPages vs o)
      (hok.disjoint_avail.mono_left Set.subset_union_right)
    have hF : areaPages vs o ∪ (tablePages addr ∪ VmArea.footprint (o.areas vmarea)) =
        VmSpace.footprint vs o addr ∪ VmArea.footprint (o.areas vmarea) := by
      rw [VmSpace.footprint, ← Set.union_assoc, Set.union_comm (areaPages vs o)]
    have hF' : areaPages vs o ∪ (tablePages addr' ∪ VmArea.footprint area') =
        VmSpace.footprint vs' o' addr' := by
      rw [VmSpace.footprint, hpages', Set.union_left_comm]
    rw [hF, hF'] at hgrow
    exact hgrow

/-! ### `read_bytes` -/

/-- A read of an area all of whose slots hold a page returns its bytes, and takes no page. -/
theorem read_of_full (hfresh : FreshPages allocPage inv avail) {area : VmArea} {m : Machine σ}
    (hv : Valid inv avail area m)
    (hfull : ∀ i < area.pages.length, ∃ p, area.pages[i]? = some (some p)) {offset : Nat}
    {buf : List UInt8} (hfit : offset + buf.length ≤ area.len) (hL : area.len ≤ Word.MAX 64) :
    ∃ s, (VmArea.read allocPage offset buf).run (area, m) =
      .ok ((List.range buf.length).map fun j => byteAt area m.mem (offset + j)) s := by
  obtain ⟨area', m', hrun, -⟩ := readLoop_step hfresh (supplies_zero allocPage inv) buf.length
    offset area m hv hfit (by rw [emptySlots_eq_zero hfull])
  exact ⟨(area', m'), by rw [read_run hL, if_pos hfit, hrun]⟩

/-- `read_bytes` of a nonempty buffer inside one mapping returns the bytes of its area there. -/
theorem readBytes_spec (hfresh : FreshPages allocPage inv avail) {vs : VmSpace} {o : Objects σ}
    {addr : List Nat → Option Nat} (hok : SpaceOk inv avail vs o addr) {m : Mapping}
    (hm : m ∈ vs.mappings) {uaddr : Nat} {buf : List UInt8} (hbuf : buf ≠ [])
    (hin : m.start ≤ uaddr ∧ uaddr + buf.length ≤ m.end_) :
    ∃ s, (readBytes allocPage uaddr buf).run (vs, o) = .ok ((List.range buf.length).map
      fun j => byteAt (o.areas m.vmarea) o.machine.mem (uaddr - m.start + j)) s := by
  have hlen : 0 < buf.length := List.length_pos_iff.mpr hbuf
  have hend := hok.end_eq m hm
  have hbelow := hok.below m hm
  have hadd : ∀ n, n ≤ buf.length → Word.checkedAdd 64 uaddr n = some (uaddr + n) := fun n hn =>
    Word.checkedAdd_eq_some.mpr ⟨by simp only [Word.MAX]; omega, rfl⟩
  obtain ⟨k, rest, hk, hdrop⟩ := Intervals.drop_takeWhile_le hok.sorted hok.nonempty hm
    ⟨hin.1, by omega⟩
  have hsub : Word.checkedSub (vs.mappings.takeWhile fun m => decide (m.start ≤ uaddr)).length 1 =
      some k := Word.checkedSub_eq_some.mpr ⟨by omega, by omega⟩
  obtain ⟨s, hread⟩ : ∃ s, (VmArea.read allocPage (uaddr - m.start) buf).run
      (o.areas m.vmarea, o.machine) = .ok ((List.range buf.length).map
        fun j => byteAt (o.areas m.vmarea) o.machine.mem (uaddr - m.start + j)) s :=
    read_of_full hfresh (hok.valid m hm) (hok.full m hm) (by omega) (by simp only [Word.MAX]; omega)
  have hcopy : min buf.length (m.end_ - uaddr) = buf.length := by omega
  obtain ⟨b, bs, rfl⟩ := List.exists_cons_of_ne_nil hbuf
  refine ⟨(vs, ⟨s.2, Function.update o.areas m.vmarea s.1⟩), ?_⟩
  simp only [readBytes, List.isEmpty_cons, Bool.false_eq_true, if_false, run_bind, run_get,
    hadd _ le_rfl, hsub, hdrop, readBytesLoop]
  rw [if_neg (by simp only [Bool.not_eq_true', decide_eq_false_iff_not, not_not]; omega), hcopy,
    List.take_length, run_bind_of_ok (run_focus_of_ok (l := areaLens m.vmarea) hread)]
  simp only [hadd _ le_rfl, List.drop_length, run_bind, readBytesLoop, run_pure, List.append_nil]
  rfl

/-- `read_bytes` of a nonempty buffer inside one mapping returns what the space shows there. -/
theorem readBytes_eq_contents (hfresh : FreshPages allocPage inv avail) {vs : VmSpace}
    {o : Objects σ} {addr : List Nat → Option Nat} (hok : SpaceOk inv avail vs o addr)
    {m : Mapping} (hm : m ∈ vs.mappings) {uaddr : Nat} {buf bytes : List UInt8} (hbuf : buf ≠ [])
    (hin : m.start ≤ uaddr ∧ uaddr + buf.length ≤ m.end_) (hlen : bytes.length = buf.length)
    (hbytes : ∀ j < buf.length, contents vs o (uaddr + j) = bytes[j]?) :
    ∃ s, (readBytes allocPage uaddr buf).run (vs, o) = .ok bytes s := by
  obtain ⟨s, hrun⟩ := readBytes_spec hfresh hok hm hbuf hin
  refine ⟨s, ?_⟩
  rw [hrun]
  congr 1
  apply List.ext_getElem?
  intro j
  by_cases hj : j < buf.length
  · rw [List.getElem?_map, List.getElem?_range hj, Option.map_some, ← hbytes j hj,
      hok.contents_of_mem hm ⟨by omega, by omega⟩, show uaddr + j - m.start = uaddr - m.start + j by omega]
  · rw [List.getElem?_eq_none (by rw [List.length_map, List.length_range]; omega),
      List.getElem?_eq_none (by omega)]

/-- Reading one byte where a space shows one returns it. -/
theorem readBytes_of_contents (hfresh : FreshPages allocPage inv avail) {vs : VmSpace}
    {o : Objects σ} {addr : List Nat → Option Nat} (hok : SpaceOk inv avail vs o addr)
    {uaddr : Nat} {b : UInt8} (h : contents vs o uaddr = some b) (x : UInt8) :
    ∃ s, (readBytes allocPage uaddr [x]).run (vs, o) = .ok [b] s := by
  obtain ⟨m, hat, -⟩ := Option.map_eq_some_iff.mp h
  have hm := List.mem_of_find?_eq_some hat
  have hu := Intervals.covers_iff.mp (List.find?_some hat)
  refine readBytes_eq_contents hfresh hok hm (List.cons_ne_nil x [])
    ⟨hu.1, by simp only [List.length_singleton]; omega⟩ rfl fun j hj => ?_
  obtain rfl : j = 0 := by simpa using hj
  rw [Nat.add_zero, h]
  rfl

end Ftl.VmSpace

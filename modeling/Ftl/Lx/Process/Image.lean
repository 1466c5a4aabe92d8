import Mathlib
import Ftl.Lx.Process

/-!
# The image of a loaded program

What `Process::create` leaves in the program's address space. Each `PT_LOAD` segment `p` shows,
at `p_vaddr + i` for `i < p_memsz`, the byte `p_offset + i` of the file while `i < p_filesz` and
zero after it (`segmentByte`), when the segments are well formed and their page-rounded ranges
are apart and below the stack (`SegmentOk`, `Apart`), and the page source has the pages `create`
asks for (`createPages`). The address `AT_PHDR` gives is where the first segment holding the
program headers put them.

For each segment, and for the stack, `create` allocates an area, writes bytes into it and maps it
over a free range (`placeArea_spec`): the space is framed past the write, which touches only the
new area, and `VmSpace.map_spec` adds the area's bytes over the new range. The loop over the
segments keeps `Loaded`: the space is in its invariant, its mappings are the page-rounded ranges
of the segments loaded so far, and it shows their images. The stack comes last, above every
segment; the initial stack at its top holds `AT_PHDR` at `atPhdrSlot`.

## Main definitions

* `Ftl.Lx.loads`, `Ftl.Lx.pageStart`, `Ftl.Lx.pageEnd`, `Ftl.Lx.segmentByte`,
  `Ftl.Lx.phdrAddr`: the image a program's headers describe.
* `Ftl.Lx.Loaded`: the invariant of the loop.

## Main results

* `Ftl.Lx.placeArea_spec`: an area allocated, written and mapped.
* `Ftl.Lx.loadSegment_spec`, `Ftl.Lx.loadSegments_spec`: one turn and the whole loop.
* `Ftl.Lx.create_spec`: `create` returns, and the space shows every segment's image and the
  program headers where `AT_PHDR` says.
-/

namespace Ftl.Lx

open EStateM VmArea VmSpace Arch MemKernel

/-! ### The image the headers describe -/

/-- The segments `create` loads. -/
def loads (phdrs : List Elf.Phdr) : List Elf.Phdr :=
  phdrs.filter fun p => p.type = Elf.PhdrType.load.toNat

/-- The start of a segment's first page, `align_down(p_vaddr, 4096)`. -/
def pageStart (p : Elf.Phdr) : Nat := p.vaddr / pageSize * pageSize

/-- The end of a segment's last page, `align_up(p_vaddr + p_memsz, 4096)` in exact arithmetic. -/
def pageEnd (p : Elf.Phdr) : Nat := (p.vaddr + p.memsz + pageSize - 1) / pageSize * pageSize

/-- The page-rounded ranges of two segments are apart. -/
def Apart (p q : Elf.Phdr) : Prop := pageEnd p ≤ pageStart q ∨ pageEnd q ≤ pageStart p

/-- A segment with memory, whose file bytes lie in the file and fit in its memory, and whose pages
lie below the stack. -/
structure SegmentOk (elfFile : List UInt8) (p : Elf.Phdr) : Prop where
  memsz_pos : 0 < p.memsz
  filesz_le : p.filesz ≤ p.memsz
  file_le : p.offset + p.filesz ≤ elfFile.length
  below : pageEnd p ≤ stackBase

/-- The byte at offset `i` of a segment's image: the file's, then zeros. -/
def segmentByte (elfFile : List UInt8) (p : Elf.Phdr) (i : Nat) : UInt8 :=
  if i < p.filesz then (elfFile[p.offset + i]?).getD 0 else 0

/-- The segment's file range holds the byte at `phoff`. -/
def holdsPhdrs (phoff : Nat) (p : Elf.Phdr) : Bool := p.offset ≤ phoff && phoff < p.offset + p.filesz

/-- Where the first of the segments `ps` that holds the program headers puts them. -/
def phdrAddr (phoff : Nat) (ps : List Elf.Phdr) : Option Nat :=
  (ps.find? (holdsPhdrs phoff)).map fun p => p.vaddr + (phoff - p.offset)

/-- The pages of a segment's area. -/
def segmentPages (p : Elf.Phdr) : Nat := (pageEnd p - pageStart p) / pageSize

/-- The pages `create` takes at most: the PML4, and for each segment and for the stack a page for
each page of its area and three tables for each. -/
def createPages (phdrs : List Elf.Phdr) : Nat :=
  1 + 4 * ((loads phdrs).map segmentPages).sum + 4 * (stackSize / pageSize)

theorem phdrAddr_append_singleton (phoff : Nat) (ps : List Elf.Phdr) (p : Elf.Phdr) :
    phdrAddr phoff (ps ++ [p]) = (phdrAddr phoff ps).or
      (if holdsPhdrs phoff p then some (p.vaddr + (phoff - p.offset)) else none) := by
  rw [phdrAddr, phdrAddr, List.find?_append]
  cases ps.find? (holdsPhdrs phoff) with
  | some q => rfl
  | none =>
    by_cases h : holdsPhdrs phoff p <;> simp [h]

/-! ### One segment -/

section Segment

variable {σ : Type}

theorem pageSize_eq : pageSize = 4096 := rfl

/-- The address `AT_PHDR` gives, after one more segment. -/
theorem run_findPhdrUaddr {phoff : Nat} {p : Elf.Phdr} (hfile : p.offset + p.filesz < 2 ^ 64)
    (hvaddr : p.vaddr + p.filesz < 2 ^ 64) (ps : List Elf.Phdr) (k : MemKernel σ) :
    (findPhdrUaddr phoff p (phdrAddr phoff ps)).run k = .ok (phdrAddr phoff (ps ++ [p])) k := by
  rw [phdrAddr_append_singleton, findPhdrUaddr]
  cases hps : phdrAddr phoff ps with
  | some a => rfl
  | none =>
    have hend : Word.checkedAdd 64 p.offset p.filesz = some (p.offset + p.filesz) :=
      Word.checkedAdd_eq_some.mpr ⟨by simp only [Word.MAX]; omega, rfl⟩
    by_cases ho : p.offset ≤ phoff
    · by_cases hin : phoff < p.offset + p.filesz
      · have hadd : Word.checkedAdd 64 p.vaddr (phoff - p.offset) =
            some (p.vaddr + (phoff - p.offset)) :=
          Word.checkedAdd_eq_some.mpr ⟨by simp only [Word.MAX]; omega, rfl⟩
        simp [ho, hin, hend, hadd, holdsPhdrs]
      · simp [ho, hin, hend, holdsPhdrs]
    · simp [ho, holdsPhdrs]

/-- The arithmetic of the loop on a segment below the stack: the page it starts in, its offset in
that page, and the length of its area, the pages of its range. -/
theorem segment_arith {p : Elf.Phdr} (hbelow : pageEnd p ≤ stackBase) :
    alignDown p.vaddr pageSize = pageStart p ∧
      Word.checkedAdd 64 (p.vaddr - pageStart p) p.memsz = some (p.vaddr - pageStart p + p.memsz) ∧
      alignUp (p.vaddr - pageStart p + p.memsz) pageSize = some (pageEnd p - pageStart p) := by
  have hsb : stackBase = 0x7000_0000_0000 := rfl
  have hps : pageSize = 2 ^ 12 := rfl
  simp only [pageEnd, pageStart, hps] at hbelow ⊢
  have hv : p.vaddr + p.memsz < 2 ^ 47 := by omega
  refine ⟨alignDown_eq (by decide) (by omega), Word.checkedAdd_eq_some.mpr ⟨?_, rfl⟩, ?_⟩
  · simp only [Word.MAX]
    omega
  · rw [alignUp_of_le (by simp only [Word.MAX]; omega), alignUpNat_eq (by decide) (by omega),
      Option.some.injEq]
    omega

/-- The area of a segment with memory is a nonzero number of pages, `segmentPages`. -/
theorem segment_len {p : Elf.Phdr} (hpos : 0 < p.memsz) :
    0 < pageEnd p - pageStart p ∧ (pageEnd p - pageStart p) % minPageSize = 0 ∧
      pageEnd p - pageStart p = segmentPages p * minPageSize := by
  have hm : minPageSize = 4096 := rfl
  simp only [segmentPages, pageEnd, pageStart, pageSize_eq, hm]
  omega

variable {allocPage : σ → ByteMem → Option Nat × σ × ByteMem}

/-- One turn of the loop, from the calls it makes: the area of the segment's pages is allocated at
the next address, written with the file's bytes of the segment and mapped. -/
theorem run_loadSegment {vmspace : Handle} {elfFile : List UInt8} {phoff : Nat} {p : Elf.Phdr}
    {ps : List Elf.Phdr} {k k₁ k₂ : MemKernel σ} (hp : SegmentOk elfFile p)
    (hfile : elfFile.length < 2 ^ 64)
    (hwrite : (vmareaWrite allocPage (SharedRef.intoHandle k.next .vmArea Kernel.vmRight)
      (p.vaddr - pageStart p) ((elfFile.drop p.offset).take p.filesz)).run
        ⟨⟨k.objs.machine, Function.update k.objs.areas k.next
          ⟨List.replicate ((pageEnd p - pageStart p) / minPageSize) none, pageEnd p - pageStart p⟩⟩,
          k.spaces, k.next + 1⟩ = .ok () k₁)
    (hmap : (vmspaceMap allocPage vmspace (SharedRef.intoHandle k.next .vmArea Kernel.vmRight)
      (pageStart p) (segmentAttrs p)).run k₁ = .ok () k₂) :
    (loadSegment allocPage vmspace elfFile phoff p (phdrAddr phoff ps)).run k =
      .ok (phdrAddr phoff (ps ++ [p])) k₂ := by
  obtain ⟨hdown, hsize, hlen⟩ := segment_arith hp.below
  obtain ⟨hpos, hal, -⟩ := segment_len hp.memsz_pos
  have hbelow := hp.below
  have hsb : stackBase = 0x7000_0000_0000 := rfl
  simp only [pageEnd, pageSize_eq] at hbelow
  have hfind := @run_findPhdrUaddr σ phoff p
    (by have := hp.file_le; omega) (by have := hp.filesz_le; omega) ps k
  have hslice : Word.checkedAdd 64 p.offset p.filesz = some (p.offset + p.filesz) :=
    Word.checkedAdd_eq_some.mpr ⟨by simp only [Word.MAX]; have := hp.file_le; omega, rfl⟩
  rw [loadSegment, run_bind_of_ok hfind]
  simp only [hdown, hsize, hlen, hslice, if_pos hp.file_le, run_bind, run_pure,
    vmareaAllocate_spec hpos hal k, hwrite, hmap]

end Segment

/-! ### The loop -/

section Loop

variable {σ : Type} {allocPage : σ → ByteMem → Option Nat × σ × ByteMem} {inv : σ → Prop}
  {avail : σ → Set Nat} {capacity : σ → Nat}

/-- What the loop has done once it loaded the segments `done` into the space at `s`, with its
tables at `addr`: the space is in its invariant, it and its areas are below the next address, its
mappings are the page-rounded ranges of the segments, and it shows their images. -/
structure Loaded (inv : σ → Prop) (avail : σ → Set Nat) (elfFile : List UInt8) (s : Nat)
    (done : List Elf.Phdr) (k : MemKernel σ) (addr : List Nat → Option Nat) : Prop where
  space : SpaceOk inv avail (k.spaces s) k.objs addr
  space_lt : s < k.next
  areas_lt : ∀ m ∈ (k.spaces s).mappings, m.vmarea < k.next
  mappings : ∀ m ∈ (k.spaces s).mappings, ∃ p ∈ done, m.start = pageStart p ∧ m.end_ = pageEnd p
  image : ∀ p ∈ done, ∀ i < p.memsz,
    contents (k.spaces s) k.objs (p.vaddr + i) = some (segmentByte elfFile p i)

/-- A space with no mapping yet, below the next address, has loaded no segment. -/
theorem Loaded.nil {elfFile : List UInt8} {s : Nat} {k : MemKernel σ}
    {addr : List Nat → Option Nat} (hok : SpaceOk inv avail (k.spaces s) k.objs addr)
    (hs : s < k.next) (hnil : (k.spaces s).mappings = []) : Loaded inv avail elfFile s [] k addr where
  space := hok
  space_lt := hs
  areas_lt _ hm := absurd (hnil ▸ hm) List.not_mem_nil
  mappings _ hm := absurd (hnil ▸ hm) List.not_mem_nil
  image _ hp := absurd hp List.not_mem_nil

/-- The address of a segment's byte lies in its page-rounded range. -/
theorem mem_pageRange {p : Elf.Phdr} {i : Nat} (hi : i < p.memsz) :
    pageStart p ≤ p.vaddr + i ∧ p.vaddr + i < pageEnd p := by
  simp only [pageStart, pageEnd, pageSize_eq]
  omega

/-- What the write of a segment's file bytes from its offset in its first page leaves at the
segment's byte `i`: the file's byte while `i < p_filesz`, and zero after. -/
theorem placed_segment {elfFile : List UInt8} {p : Elf.Phdr} (hp : SegmentOk elfFile p) (i : Nat) :
    (if p.vaddr - pageStart p ≤ p.vaddr + i - pageStart p ∧ p.vaddr + i - pageStart p <
        p.vaddr - pageStart p + ((elfFile.drop p.offset).take p.filesz).length
      then (((elfFile.drop p.offset).take p.filesz)[p.vaddr + i - pageStart p -
        (p.vaddr - pageStart p)]?).getD 0
      else 0) = segmentByte elfFile p i := by
  have hps : pageStart p ≤ p.vaddr := by simp only [pageStart, pageSize_eq]; omega
  have hlen : ((elfFile.drop p.offset).take p.filesz).length = p.filesz := by
    have := hp.file_le
    simp only [List.length_take, List.length_drop]
    omega
  rw [hlen, segmentByte]
  by_cases hin : i < p.filesz
  · rw [if_pos ⟨by omega, by omega⟩, if_pos hin, show p.vaddr + i - pageStart p -
      (p.vaddr - pageStart p) = i by omega, List.getElem?_take_of_lt hin, List.getElem?_drop]
  · rw [if_neg (by omega), if_neg hin]

/-- A segment's range starts on a page. -/
theorem pageStart_mod (p : Elf.Phdr) : pageStart p % minPageSize = 0 := by
  rw [pageStart, pageSize_eq, show minPageSize = 4096 from rfl]
  exact Nat.mul_mod_left _ _

/-- A segment apart from the loaded ones is apart from every mapping of the space. -/
theorem Loaded.free {elfFile : List UInt8} {s : Nat} {done : List Elf.Phdr} {k : MemKernel σ}
    {addr : List Nat → Option Nat} (hl : Loaded inv avail elfFile s done k addr) {p : Elf.Phdr}
    (hapart : ∀ q ∈ done, Apart p q) :
    ∀ m ∈ (k.spaces s).mappings, m.end_ ≤ pageStart p ∨ pageEnd p ≤ m.start := by
  intro m hm
  obtain ⟨q, hq, hstart, hend⟩ := hl.mappings m hm
  rw [hstart, hend]
  exact (hapart q hq).symm

/-- What `create` does for a segment and for the stack: an area of `len` bytes is allocated,
`data` is written into it at `offset`, and it is mapped at `uaddr` into the space at `s`, over a
free range. Both calls after the allocation return, and the space then shows the written bytes
and zeros over the range, and what it showed before everywhere else; four pages a page of the
area suffice. -/
theorem placeArea_spec (hfresh : FreshPages allocPage inv avail)
    (hsup : Supplies allocPage inv capacity) (haddrs : PageAddrs allocPage inv) {k : MemKernel σ}
    {s : Nat} {addr : List Nat → Option Nat} (hok : SpaceOk inv avail (k.spaces s) k.objs addr)
    (hlt : ∀ m ∈ (k.spaces s).mappings, m.vmarea < k.next) {len offset uaddr : Nat}
    {data : List UInt8} (attrs : PageAttrs) (hpos : 0 < len) (hal : len % minPageSize = 0)
    (hfit : offset + data.length ≤ len) (hual : uaddr % minPageSize = 0)
    (hend : uaddr + len ≤ 2 ^ 47)
    (hfree : ∀ m ∈ (k.spaces s).mappings, m.end_ ≤ uaddr ∨ uaddr + len ≤ m.start) {R : Nat}
    (hcap : 4 * (len / minPageSize) + R ≤ capacity k.objs.machine.pa) :
    ∃ k₁ o' vs' addr',
      (vmareaWrite allocPage (SharedRef.intoHandle k.next .vmArea Kernel.vmRight) offset data).run
          ⟨⟨k.objs.machine, Function.update k.objs.areas k.next
            ⟨List.replicate (len / minPageSize) none, len⟩⟩, k.spaces, k.next + 1⟩ = .ok () k₁ ∧
      (vmspaceMap allocPage (SharedRef.intoHandle s .vmSpace Kernel.vmRight)
          (SharedRef.intoHandle k.next .vmArea Kernel.vmRight) uaddr attrs).run k₁ =
        .ok () ⟨o', Function.update k.spaces s vs', k.next + 1⟩ ∧
      SpaceOk inv avail vs' o' addr' ∧
      (∀ m, m ∈ vs'.mappings ↔ m = ⟨uaddr, uaddr + len, k.next, attrs⟩ ∨ m ∈ (k.spaces s).mappings) ∧
      (∀ u, contents vs' o' u = if uaddr ≤ u ∧ u < uaddr + len
        then some (if offset ≤ u - uaddr ∧ u - uaddr < offset + data.length
          then (data[u - uaddr - offset]?).getD 0 else 0)
        else contents (k.spaces s) k.objs u) ∧
      R ≤ capacity o'.machine.pa := by
  have hv₀ : Valid inv avail ⟨List.replicate (len / minPageSize) none, len⟩ k.objs.machine := by
    have hv : Valid inv avail ⟨List.replicate (len / minPageSize) none,
        len / minPageSize * minPageSize⟩ k.objs.machine := valid_replicate_none hok.inv_pa _
    rwa [Nat.div_mul_cancel (Nat.dvd_of_mod_eq_zero hal)] at hv
  have hempty : emptySlots ⟨List.replicate (len / minPageSize) none, len⟩ = len / minPageSize :=
    List.count_replicate_self
  have hL : (⟨List.replicate (len / minPageSize) none, len⟩ : VmArea).len ≤ Word.MAX 64 := by
    show len ≤ _
    simp only [Word.MAX]
    omega
  obtain ⟨area₁, m₁, hrun₁, hstep, hbyte⟩ :=
    writeLoop_step hfresh hsup _ offset data _ k.objs.machine rfl hv₀ hfit (by rw [hempty]; omega)
  have hwrite : (VmArea.write allocPage offset data).run
      (⟨List.replicate (len / minPageSize) none, len⟩, k.objs.machine) = .ok () (area₁, m₁) := by
    rw [write_run hL, if_pos hfit, hrun₁]
  set o₁ : Objects σ := ⟨m₁, Function.update (Function.update k.objs.areas k.next
    ⟨List.replicate (len / minPageSize) none, len⟩) k.next area₁⟩ with ho₁
  have hne : ∀ m ∈ (k.spaces s).mappings, m.vmarea ≠ k.next := fun m hm => Nat.ne_of_lt (hlt m hm)
  have hareas : ∀ m ∈ (k.spaces s).mappings, o₁.areas m.vmarea = k.objs.areas m.vmarea := by
    intro m hm
    simp only [ho₁, Function.update_of_ne (hne m hm)]
  have hgrow₁ : Grows (avail k.objs.machine.pa) (avail o₁.machine.pa)
      (VmArea.footprint ⟨List.replicate (len / minPageSize) none, len⟩) (VmArea.footprint area₁)
      k.objs.machine.mem o₁.machine.mem := hstep.grows
  obtain ⟨hok₁, hcont₁, hfoot₁, hdisj₁⟩ := hok.frame hgrow₁
    (by rw [footprint_replicate_none]; exact Set.disjoint_empty _) hstep.valid.inv_pa hareas
  have harea₁ : o₁.areas k.next = area₁ := Function.update_self _ _ _
  have hm₁ : o₁.machine = m₁ := rfl
  have hlen₁ : area₁.len = len := hstep.len_eq
  have hpages₁ : area₁.pages.length = len / minPageSize :=
    hstep.length_pages.trans List.length_replicate
  have hv₁ : Valid inv avail (o₁.areas k.next) o₁.machine := by
    rw [harea₁]
    exact hstep.valid
  have hal₁ : PagesAligned (o₁.areas k.next) := by
    rw [harea₁]
    refine hstep.pagesAligned haddrs fun i q hq => ?_
    simp [List.getElem?_replicate] at hq
  have hcap₁ := hstep.capacity_le
  rw [hempty] at hcap₁
  obtain ⟨vs', o', addr', hmap, hok', -, hmem', hcont', -, -, hcap'⟩ :=
    map_spec hfresh hsup haddrs hok₁ attrs hv₁ hal₁ hne (by rw [harea₁, hfoot₁]; exact hdisj₁)
      (by rw [harea₁, hlen₁]; exact hpos) hual (by rw [harea₁, hlen₁]; exact hend)
      (by rw [harea₁, hlen₁]; exact hfree) (by rw [harea₁, hpages₁, hm₁]; omega)
  have hnew : (⟨⟨k.objs.machine, Function.update k.objs.areas k.next
      ⟨List.replicate (len / minPageSize) none, len⟩⟩, k.spaces, k.next + 1⟩ :
      MemKernel σ).objs.areas k.next = ⟨List.replicate (len / minPageSize) none, len⟩ :=
    Function.update_self _ _ _
  refine ⟨⟨o₁, k.spaces, k.next + 1⟩, o', vs', addr', run_vmareaWrite (r := k.next)
    (by rw [hnew]; exact hwrite), run_vmspaceMap (s := s) hmap, hok', fun m => ?_, fun u => ?_, ?_⟩
  · rw [hmem', harea₁, hlen₁]
  · have hzero : ∀ o, byteAt ⟨List.replicate (len / minPageSize) none, len⟩ k.objs.machine.mem o = 0 :=
      byteAt_replicate_none _ _ _
    rw [hcont', harea₁, hlen₁, hm₁, hbyte, hzero, hcont₁]
  · rw [harea₁, hpages₁, hm₁] at hcap'
    omega

/-- One turn of the loop on a segment apart from those loaded, with four pages a page of its
range left: it returns the new `phdr_uaddr`, and the space shows the segment's image too. -/
theorem loadSegment_spec (hfresh : FreshPages allocPage inv avail)
    (hsup : Supplies allocPage inv capacity) (haddrs : PageAddrs allocPage inv)
    {elfFile : List UInt8} (hfile : elfFile.length < 2 ^ 64) (phoff : Nat) {p : Elf.Phdr}
    (hp : SegmentOk elfFile p) {s : Nat} {done : List Elf.Phdr} {k : MemKernel σ}
    {addr : List Nat → Option Nat} (hl : Loaded inv avail elfFile s done k addr)
    (hapart : ∀ q ∈ done, Apart p q) {R : Nat}
    (hcap : 4 * segmentPages p + R ≤ capacity k.objs.machine.pa) :
    ∃ k' addr', (loadSegment allocPage (SharedRef.intoHandle s .vmSpace Kernel.vmRight) elfFile
        phoff p (phdrAddr phoff done)).run k = .ok (phdrAddr phoff (done ++ [p])) k' ∧
      Loaded inv avail elfFile s (done ++ [p]) k' addr' ∧ R ≤ capacity k'.objs.machine.pa := by
  obtain ⟨hlpos, hlal, -⟩ := segment_len hp.memsz_pos
  have hbelow : pageEnd p ≤ 0x7000_0000_0000 := hp.below
  have hrange := mem_pageRange hp.memsz_pos
  have hend : p.vaddr + p.memsz ≤ pageEnd p := by
    simp only [pageEnd, pageSize_eq]
    omega
  have hfit : p.vaddr - pageStart p + ((elfFile.drop p.offset).take p.filesz).length ≤
      pageEnd p - pageStart p := by
    have := hp.file_le
    have := hp.filesz_le
    simp only [List.length_take, List.length_drop]
    omega
  obtain ⟨k₁, o', vs', addr', hwrite, hmap, hok', hmem', hcont', hcap'⟩ :=
    placeArea_spec hfresh hsup haddrs hl.space hl.areas_lt (segmentAttrs p) hlpos hlal hfit
      (pageStart_mod p) (by omega) (fun m hm => by have := hl.free hapart m hm; omega) hcap
  have hrun : (loadSegment allocPage (SharedRef.intoHandle s .vmSpace Kernel.vmRight) elfFile
      phoff p (phdrAddr phoff done)).run k =
      .ok (phdrAddr phoff (done ++ [p])) ⟨o', Function.update k.spaces s vs', k.next + 1⟩ :=
    run_loadSegment hp hfile hwrite hmap
  have hsp : (Function.update k.spaces s vs') s = vs' := Function.update_self _ _ _
  refine ⟨⟨o', Function.update k.spaces s vs', k.next + 1⟩, addr', hrun, ⟨?_, ?_, ?_, ?_, ?_⟩,
    hcap'⟩ <;> dsimp only
  · rw [hsp]
    exact hok'
  · exact Nat.lt_succ_of_lt hl.space_lt
  · intro m hm
    rw [hsp] at hm
    rcases (hmem' m).mp hm with rfl | hm
    · exact Nat.lt_succ_self _
    · exact Nat.lt_succ_of_lt (hl.areas_lt m hm)
  · intro m hm
    rw [hsp] at hm
    rcases (hmem' m).mp hm with rfl | hm
    · exact ⟨p, List.mem_append_right _ (List.mem_singleton_self p), rfl, by dsimp only; omega⟩
    · obtain ⟨q, hq, h⟩ := hl.mappings m hm
      exact ⟨q, List.mem_append_left _ hq, h⟩
  · intro q hq i hi
    rw [hsp, hcont']
    rcases List.mem_append.mp hq with hq | hq
    · have hq' := mem_pageRange hi
      have hout : ¬(pageStart p ≤ q.vaddr + i ∧ q.vaddr + i < pageStart p + (pageEnd p - pageStart p)) := by
        rcases hapart q hq with h | h <;> omega
      rw [if_neg hout]
      exact hl.image q hq i hi
    · obtain rfl := List.mem_singleton.mp hq
      have hin := mem_pageRange hi
      have hin' : pageStart q ≤ q.vaddr + i ∧ q.vaddr + i < pageStart q + (pageEnd q - pageStart q) :=
        ⟨hin.1, by omega⟩
      rw [if_pos hin', placed_segment hp i]

/-- The whole loop, over program headers whose `PT_LOAD` segments are well formed, apart from
each other and from those loaded, with four pages a page of their ranges left: it returns
`phdr_uaddr` of all the segments, and the space shows all their images. -/
theorem loadSegments_spec (hfresh : FreshPages allocPage inv avail)
    (hsup : Supplies allocPage inv capacity) (haddrs : PageAddrs allocPage inv)
    {elfFile : List UInt8} (hfile : elfFile.length < 2 ^ 64) (phoff s : Nat) :
    ∀ (phdrs done : List Elf.Phdr) (k : MemKernel σ) (addr : List Nat → Option Nat) (R : Nat),
      Loaded inv avail elfFile s done k addr → (∀ p ∈ loads phdrs, SegmentOk elfFile p) →
      (loads phdrs).Pairwise Apart → (∀ p ∈ loads phdrs, ∀ q ∈ done, Apart p q) →
      4 * ((loads phdrs).map segmentPages).sum + R ≤ capacity k.objs.machine.pa →
      ∃ k' addr', (loadSegments allocPage (SharedRef.intoHandle s .vmSpace Kernel.vmRight) elfFile
          phoff phdrs (phdrAddr phoff done)).run k = .ok (phdrAddr phoff (done ++ loads phdrs)) k' ∧
        Loaded inv avail elfFile s (done ++ loads phdrs) k' addr' ∧
        R ≤ capacity k'.objs.machine.pa
  | [], done, k, addr, R, hl, _, _, _, hcap => by
    have hnil : loads ([] : List Elf.Phdr) = [] := rfl
    rw [hnil, List.map_nil, List.sum_nil, Nat.mul_zero, Nat.zero_add] at hcap
    rw [hnil, List.append_nil]
    exact ⟨k, addr, rfl, hl, hcap⟩
  | p :: phdrs, done, k, addr, R, hl, hok, hpair, hapart, hcap => by
    by_cases hload : p.type = Elf.PhdrType.load.toNat
    · have hloads : loads (p :: phdrs) = p :: loads phdrs :=
        List.filter_cons_of_pos (decide_eq_true hload)
      rw [hloads] at hok hpair hapart hcap
      rw [List.map_cons, List.sum_cons] at hcap
      have hp := hok p List.mem_cons_self
      obtain ⟨k₁, addr₁, hrun₁, hl₁, hcap₁⟩ := loadSegment_spec hfresh hsup haddrs hfile phoff hp hl
        (hapart p List.mem_cons_self) (R := 4 * ((loads phdrs).map segmentPages).sum + R)
        (by omega)
      have hapart₁ : ∀ q ∈ loads phdrs, ∀ r ∈ done ++ [p], Apart q r := by
        intro q hq r hr
        rcases List.mem_append.mp hr with hr | hr
        · exact hapart q (List.mem_cons_of_mem p hq) r hr
        · rw [List.mem_singleton.mp hr]
          exact ((List.pairwise_cons.mp hpair).1 q hq).symm
      obtain ⟨k', addr', hrun', hl', hcap'⟩ := loadSegments_spec hfresh hsup haddrs hfile phoff s
        phdrs (done ++ [p]) k₁ addr₁ R hl₁ (fun q hq => hok q (List.mem_cons_of_mem p hq))
        (List.pairwise_cons.mp hpair).2 hapart₁ hcap₁
      refine ⟨k', addr', ?_, ?_, hcap'⟩
      · rw [loadSegments, if_neg (not_not.mpr hload), run_bind_of_ok hrun₁, hrun', hloads,
          List.append_assoc, List.singleton_append]
      · rwa [hloads, ← List.singleton_append, ← List.append_assoc]
    · have hloads : loads (p :: phdrs) = loads phdrs :=
        List.filter_cons_of_neg (by simpa using hload)
      rw [hloads] at hok hpair hapart hcap ⊢
      obtain ⟨k', addr', hrun', hl', hcap'⟩ :=
        loadSegments_spec hfresh hsup haddrs hfile phoff s phdrs done k addr R hl hok hpair hapart hcap
      refine ⟨k', addr', ?_, hl', hcap'⟩
      rw [loadSegments, if_pos hload, hrun']

end Loop

/-! ### The stack and `create` -/

/-- Where the initial stack of `create` at `sp` holds the value of `AT_PHDR`: after `argc`, the
pointer of the one argument and the two nulls come the pairs of the auxiliary vector, and
`AT_PHDR` is its third pair. -/
def atPhdrSlot (sp : Nat) : Nat := sp + 8 * (4 + helloArgv.length + 2 * 2)

theorem stackTotal_hello : stackTotal helloArgv [] = 192 := by decide

/-- The slot of `AT_PHDR` lies 72 bytes into the initial stack of `create`, which fills the top
192 bytes of the stack area. -/
theorem atPhdrSlot_eq : atPhdrSlot (stackLayout helloArgv []).sp = stackBase + stackSize - 192 + 72 := by
  have hsp : (stackLayout helloArgv []).sp = stackBase + stackSize - 192 := by
    show stackBase + stackSize - stackTotal helloArgv [] = _
    rw [stackTotal_hello]
  unfold atPhdrSlot
  rw [hsp, show helloArgv.length = 1 from rfl]

/-- The stack area of `create`, with the initial stack `img` written at its top: its byte `j` at
the slot of `AT_PHDR` is the byte `j` of the word the image holds there. -/
theorem atPhdrSlot_bytes {img w : List UInt8} (himg : img.length = 192)
    (hword : (img.drop (8 * (4 + helloArgv.length + 2 * 2))).take 8 = w)
    {f old : Nat → Option UInt8}
    (hcont : ∀ u, f u = if stackBase ≤ u ∧ u < stackBase + stackSize
      then some (if stackSize - stackTotal helloArgv [] ≤ u - stackBase ∧
          u - stackBase < stackSize - stackTotal helloArgv [] + img.length
        then (img[u - stackBase - (stackSize - stackTotal helloArgv [])]?).getD 0 else 0)
      else old u)
    {j : Nat} (hj : j < 8) : f (atPhdrSlot (stackLayout helloArgv []).sp + j) = w[j]? := by
  have hargc : helloArgv.length = 1 := rfl
  have hsb : stackBase = 0x7000_0000_0000 := rfl
  have hss : stackSize = 65536 := rfl
  have hrange : stackBase ≤ atPhdrSlot (stackLayout helloArgv []).sp + j ∧
      atPhdrSlot (stackLayout helloArgv []).sp + j < stackBase + stackSize := by
    rw [atPhdrSlot_eq]
    omega
  have hin : stackSize - stackTotal helloArgv [] ≤ atPhdrSlot (stackLayout helloArgv []).sp + j -
      stackBase ∧ atPhdrSlot (stackLayout helloArgv []).sp + j - stackBase <
        stackSize - stackTotal helloArgv [] + img.length := by
    rw [atPhdrSlot_eq, stackTotal_hello, himg]
    omega
  have hidx : atPhdrSlot (stackLayout helloArgv []).sp + j - stackBase -
      (stackSize - stackTotal helloArgv []) = 8 * (4 + helloArgv.length + 2 * 2) + j := by
    rw [atPhdrSlot_eq, stackTotal_hello, hargc]
    omega
  have himg' : 8 * (4 + helloArgv.length + 2 * 2) + j < img.length := by
    rw [himg, hargc]
    omega
  rw [hcont, if_pos hrange, if_pos hin, hidx, ← hword, List.getElem?_take_of_lt hj,
    List.getElem?_drop, List.getElem?_eq_getElem himg', Option.getD_some]

/-- The eight bytes of the initial stack of `create` at the slot of `AT_PHDR` hold the address. -/
theorem stackImage_atPhdr (ehdr : Elf.Ehdr) {phdrUaddr : Option Nat}
    (random : List.Vector UInt8 16) (h : phdrUaddr.getD 0 < 2 ^ 64) :
    ((stackImage ehdr helloArgv [] phdrUaddr random).drop (8 * (4 + helloArgv.length + 2 * 2))).take 8 =
      Bytes.ofNatLE 8 (phdrUaddr.getD 0) := by
  have himg := isStackImage_stackImage ehdr phdrUaddr random (by rw [stackTotal_hello]; decide)
  have hword : Bytes.toNatLE (((stackImage ehdr helloArgv [] phdrUaddr random).drop
      (8 * (4 + helloArgv.length + 2 * 2))).take 8) = phdrUaddr.getD 0 % 2 ^ 64 :=
    (himg.auxv_pair 2 (by simp [auxv])).2
  have hlen : (((stackImage ehdr helloArgv [] phdrUaddr random).drop
      (8 * (4 + helloArgv.length + 2 * 2))).take 8).length = 8 := by
    rw [List.length_take, List.length_drop, length_stackImage, stackTotal_hello]
    decide
  rw [← Bytes.ofNatLE_toNatLE (((stackImage ehdr helloArgv [] phdrUaddr random).drop
    (8 * (4 + helloArgv.length + 2 * 2))).take 8), hlen, hword, Nat.mod_eq_of_lt h]

/-- The address `AT_PHDR` gives, when a segment holds the program headers: in the first segment
that holds them. -/
theorem phdrAddr_of_holds {phoff : Nat} {ps : List Elf.Phdr} {q : Elf.Phdr} (hq : q ∈ ps)
    (hh : holdsPhdrs phoff q = true) :
    ∃ q₀ ∈ ps, holdsPhdrs phoff q₀ = true ∧
      phdrAddr phoff ps = some (q₀.vaddr + (phoff - q₀.offset)) := by
  obtain ⟨q₀, hfind⟩ := Option.isSome_iff_exists.mp (List.find?_isSome.mpr ⟨q, hq, hh⟩)
  exact ⟨q₀, List.mem_of_find?_eq_some hfind, List.find?_some hfind, by rw [phdrAddr, hfind]; rfl⟩

section Create

variable {σ : Type} {allocPage : σ → ByteMem → Option Nat × σ × ByteMem} {inv : σ → Prop}
  {avail : σ → Set Nat} {capacity : σ → Nat}

/-- A read through the handle of the space at `s` is the space's `read_bytes`. -/
theorem read_space {vs : VmSpace} {o : Objects σ} {uaddr : Nat} {buf bytes : List UInt8}
    {t : VmSpace × Objects σ} (h : (VmSpace.readBytes allocPage uaddr buf).run (vs, o) = .ok bytes t)
    (spaces : Nat → VmSpace) (s next : Nat) :
    ∃ k'', (vmspaceRead allocPage (SharedRef.intoHandle s .vmSpace Kernel.vmRight) uaddr buf).run
      ⟨o, Function.update spaces s vs, next⟩ = .ok bytes k'' := by
  have h' : (VmSpace.readBytes allocPage uaddr buf).run
      ((⟨o, Function.update spaces s vs, next⟩ : MemKernel σ).spaces s, o) = .ok bytes t := by
    rw [show (⟨o, Function.update spaces s vs, next⟩ : MemKernel σ).spaces s = vs from
      Function.update_self _ _ _]
    exact h
  exact ⟨_, run_vmspaceRead h'⟩

/-- The stack area of `create`, mapped at `STACK_BASE` with the initial stack `img` at its top:
reading the slot of `AT_PHDR` gives the word the image holds there. -/
theorem readBytes_atPhdrSlot (hfresh : FreshPages allocPage inv avail) {vs : VmSpace}
    {o : Objects σ} {addr : List Nat → Option Nat} (hok : SpaceOk inv avail vs o addr)
    {v : Nat} {attrs : PageAttrs} (hm : ⟨stackBase, stackBase + stackSize, v, attrs⟩ ∈ vs.mappings)
    {img : List UInt8} (himg : img.length = 192) {a : Nat}
    (hword : (img.drop (8 * (4 + helloArgv.length + 2 * 2))).take 8 = Bytes.ofNatLE 8 a)
    {old : Nat → Option UInt8}
    (hcont : ∀ u, contents vs o u = if stackBase ≤ u ∧ u < stackBase + stackSize
      then some (if stackSize - stackTotal helloArgv [] ≤ u - stackBase ∧
          u - stackBase < stackSize - stackTotal helloArgv [] + img.length
        then (img[u - stackBase - (stackSize - stackTotal helloArgv [])]?).getD 0 else 0)
      else old u) :
    ∃ t, (VmSpace.readBytes allocPage (atPhdrSlot (stackLayout helloArgv []).sp)
      (List.replicate 8 0)).run (vs, o) = .ok (Bytes.ofNatLE 8 a) t := by
  have hss : stackSize = 65536 := rfl
  have hin : stackBase ≤ atPhdrSlot (stackLayout helloArgv []).sp ∧
      atPhdrSlot (stackLayout helloArgv []).sp + (List.replicate 8 (0 : UInt8)).length ≤
        stackBase + stackSize := by
    rw [atPhdrSlot_eq, List.length_replicate]
    omega
  exact readBytes_eq_contents hfresh hok hm (by decide) hin
    (by rw [Bytes.length_ofNatLE, List.length_replicate])
    fun j hj => atPhdrSlot_bytes himg hword hcont (by simpa using hj)

/-- `Process::create(elf_file)` on an executable that `Elf::parse` accepts, whose `PT_LOAD`
segments are well formed, apart and below the stack, when the page source has the pages
`create` asks for: it returns, and reading the new space at `p_vaddr + i` gives the segment's
image; when a segment holds the program headers, the `AT_PHDR` slot of the initial stack holds an
address where the space shows the file's byte `e_phoff`. -/
theorem create_spec (hfresh : FreshPages allocPage inv avail)
    (hsup : Supplies allocPage inv capacity) (haddrs : PageAddrs allocPage inv) {bootPdpt : Nat}
    (hboot : bootPdpt % minPageSize = 0) {elfFile : List UInt8} (hfile : elfFile.length < 2 ^ 64)
    {elf : Elf} (hparse : Elf.parse elfFile Elf.etExec = some (.ok elf))
    (hsegs : ∀ p ∈ loads elf.phdrs, SegmentOk elfFile p) (hapart : (loads elf.phdrs).Pairwise Apart)
    (k : MemKernel σ) (hinv : inv k.objs.machine.pa)
    (hcap : createPages elf.phdrs ≤ capacity k.objs.machine.pa) :
    ∃ proc regs k', (create allocPage bootPdpt elfFile).run k = .ok (proc, regs) k' ∧
      (∀ p ∈ loads elf.phdrs, ∀ i < p.memsz, ∀ x : UInt8, ∃ k'',
        (vmspaceRead allocPage proc.vmspace (p.vaddr + i) [x]).run k' =
          .ok [segmentByte elfFile p i] k'') ∧
      ∀ q ∈ loads elf.phdrs, holdsPhdrs elf.ehdr.phoff q = true →
        ∃ a b, elfFile[elf.ehdr.phoff]? = some b ∧
          (∃ k'', (vmspaceRead allocPage proc.vmspace (atPhdrSlot regs.sp)
            (List.replicate 8 0)).run k' = .ok (Bytes.ofNatLE 8 a) k'') ∧
          ∀ x : UInt8, ∃ k'', (vmspaceRead allocPage proc.vmspace a [x]).run k' = .ok [b] k'' := by
  have hpages : stackSize / pageSize = 16 := rfl
  have hspg : stackSize / minPageSize = 16 := rfl
  rw [createPages, hpages] at hcap
  obtain ⟨vs₀, m₀, hrun₀, hnil, hok₀, -, hcap₀⟩ :=
    vmspaceCreate_spec hfresh hsup haddrs hboot k hinv (by omega)
  set s := k.next with hs
  have hsp₁ : (Function.update k.spaces s vs₀) s = vs₀ := Function.update_self _ _ _
  have hl₁ : Loaded inv avail elfFile s [] ⟨⟨m₀, k.objs.areas⟩, Function.update k.spaces s vs₀, s + 1⟩
      (rootOnly vs₀.arch.pml4) :=
    Loaded.nil (by dsimp only; rw [hsp₁]; exact hok₀) (Nat.lt_succ_self s)
      (by dsimp only; rw [hsp₁, hnil])
  obtain ⟨k₂, addr₂, hrun₂, hl₂, hcap₂⟩ := loadSegments_spec hfresh hsup haddrs hfile elf.ehdr.phoff s
    elf.phdrs [] _ _ (4 * 16) hl₁ hsegs hapart (fun _ _ q hq => absurd hq List.not_mem_nil)
    (by dsimp only; omega)
  rw [List.nil_append] at hrun₂ hl₂
  set img := stackImage elf.ehdr helloArgv [] (phdrAddr elf.ehdr.phoff (loads elf.phdrs)) fourRandom
    with himg_def
  have himg : img.length = 192 := by rw [himg_def, length_stackImage, stackTotal_hello]
  have hfit : stackSize - stackTotal helloArgv [] + img.length ≤ stackSize := by
    rw [himg, stackTotal_hello]
    decide
  have hfree : ∀ m ∈ (k₂.spaces s).mappings, m.end_ ≤ stackBase ∨ stackBase + stackSize ≤ m.start := by
    intro m hm
    obtain ⟨p, hp, -, hend⟩ := hl₂.mappings m hm
    exact .inl (hend ▸ (hsegs p hp).below)
  obtain ⟨k₃, o', vs', addr', hwrite, hmap, hok', hmem', hcont', -⟩ :=
    placeArea_spec (R := 0) hfresh hsup haddrs hl₂.space hl₂.areas_lt
      (PageAttrs.READ.or PageAttrs.WRITE) (by decide : 0 < stackSize)
      (by decide : stackSize % minPageSize = 0) hfit (by decide : stackBase % minPageSize = 0)
      (by decide : stackBase + stackSize ≤ 2 ^ 47) hfree (by rw [hspg]; omega)
  have hrun₂' : (loadSegments allocPage (SharedRef.intoHandle s .vmSpace Kernel.vmRight) elfFile
      elf.ehdr.phoff elf.phdrs none).run ⟨⟨m₀, k.objs.areas⟩, Function.update k.spaces s vs₀, s + 1⟩ =
      .ok (phdrAddr elf.ehdr.phoff (loads elf.phdrs)) k₂ := hrun₂
  have hemit : emitInitialStack elf.ehdr helloArgv [] (phdrAddr elf.ehdr.phoff (loads elf.phdrs))
      fourRandom = .ok (stackSize - stackTotal helloArgv [], img, (stackLayout helloArgv []).sp) :=
    emitInitialStack_of_fits elf.ehdr _ fourRandom (by unfold Terminated; decide)
      (by unfold Terminated; decide) (by rw [stackTotal_hello]; decide)
  have hrun : (create allocPage bootPdpt elfFile).run k =
      .ok (⟨SharedRef.intoHandle s .vmSpace Kernel.vmRight⟩, ⟨elf.ehdr.entry,
        (stackLayout helloArgv []).sp⟩) ⟨o', Function.update k₂.spaces s vs', k₂.next + 1⟩ := by
    simp only [create, hparse, pure_bind]
    rw [run_bind_of_ok hrun₀, run_bind_of_ok hrun₂',
      run_bind_of_ok (vmareaAllocate_spec (by decide) (by decide) k₂), hemit]
    dsimp only
    rw [run_bind_of_ok (run_tryCatch_of_ok hwrite), run_bind_of_ok hmap, run_pure]
  have hseg : ∀ p ∈ loads elf.phdrs, ∀ i < p.memsz,
      contents vs' o' (p.vaddr + i) = some (segmentByte elfFile p i) := by
    intro p hp i hi
    have hin := mem_pageRange hi
    have hbelow := (hsegs p hp).below
    have hout : ¬(stackBase ≤ p.vaddr + i ∧ p.vaddr + i < stackBase + stackSize) := by omega
    rw [hcont', if_neg hout]
    exact hl₂.image p hp i hi
  refine ⟨_, _, _, hrun, fun p hp i hi x => ?_, fun q hq hh => ?_⟩
  · obtain ⟨t, hread⟩ := readBytes_of_contents hfresh hok' (hseg p hp i hi) x
    exact read_space hread _ _ _
  obtain ⟨q₀, hq₀, hh₀, haddr⟩ := phdrAddr_of_holds hq hh
  have hseg₀ := hsegs q₀ hq₀
  have hhold : q₀.offset ≤ elf.ehdr.phoff ∧ elf.ehdr.phoff < q₀.offset + q₀.filesz := by
    simpa [holdsPhdrs] using hh₀
  have hfile₀ := hseg₀.file_le
  have hfilesz₀ := hseg₀.filesz_le
  have hphoff : elf.ehdr.phoff < elfFile.length := by omega
  refine ⟨q₀.vaddr + (elf.ehdr.phoff - q₀.offset), elfFile[elf.ehdr.phoff],
    List.getElem?_eq_getElem hphoff, ?_, fun x => ?_⟩
  · have ha : (phdrAddr elf.ehdr.phoff (loads elf.phdrs)).getD 0 =
        q₀.vaddr + (elf.ehdr.phoff - q₀.offset) := by
      rw [haddr]
      rfl
    have hlt : q₀.vaddr + (elf.ehdr.phoff - q₀.offset) < 2 ^ 64 := by
      have := (mem_pageRange (show elf.ehdr.phoff - q₀.offset < q₀.memsz by omega)).2
      have := hseg₀.below
      have hsb : stackBase = 0x7000_0000_0000 := rfl
      omega
    have hword := stackImage_atPhdr elf.ehdr fourRandom (ha ▸ hlt)
    rw [← himg_def, ha] at hword
    obtain ⟨t, hread⟩ :=
      readBytes_atPhdrSlot hfresh hok' ((hmem' _).mpr (.inl rfl)) himg hword hcont'
    exact read_space hread _ _ _
  · have hc := hseg q₀ hq₀ (elf.ehdr.phoff - q₀.offset) (by omega)
    rw [segmentByte, if_pos (by omega : elf.ehdr.phoff - q₀.offset < q₀.filesz),
      show q₀.offset + (elf.ehdr.phoff - q₀.offset) = elf.ehdr.phoff by omega,
      List.getElem?_eq_getElem hphoff, Option.getD_some] at hc
    obtain ⟨t, hread⟩ := readBytes_of_contents hfresh hok' hc x
    exact read_space hread _ _ _

/-- A 176-byte `ET_EXEC` file for x86-64: the header, and at `e_phoff = 64` two `PT_LOAD`
segments. The first, from `p_offset = 0`, holds the program headers, at `p_vaddr = 0x40_0010` in
the middle of a page, with `p_filesz = 176` and `p_memsz = 0x1800`; the second, writable, maps
the first 16 bytes of the file at `0x40_3000`, with `p_memsz = 0x2000`. -/
def sampleExec : List UInt8 :=
  [0x7f, 0x45, 0x4c, 0x46, 2, 1, 1, 0, 0, 0, 0, 0, 0, 0, 0, 0] ++ Bytes.ofNatLE 2 Elf.etExec ++
    Bytes.ofNatLE 2 Elf.emNative ++ Bytes.ofNatLE 4 1 ++ Bytes.ofNatLE 8 0x40_0088 ++
    Bytes.ofNatLE 8 Elf.ehdrSize ++ Bytes.ofNatLE 8 0 ++ Bytes.ofNatLE 4 0 ++
    Bytes.ofNatLE 2 Elf.ehdrSize ++ Bytes.ofNatLE 2 Elf.phdrSize ++ Bytes.ofNatLE 2 2 ++
    Bytes.ofNatLE 6 0 ++
    Bytes.ofNatLE 4 Elf.PhdrType.load.toNat ++ Bytes.ofNatLE 4 5 ++ Bytes.ofNatLE 8 0 ++
    Bytes.ofNatLE 8 0x40_0010 ++ Bytes.ofNatLE 8 0x40_0010 ++ Bytes.ofNatLE 8 176 ++
    Bytes.ofNatLE 8 0x1800 ++ Bytes.ofNatLE 8 0x1000 ++
    Bytes.ofNatLE 4 Elf.PhdrType.load.toNat ++ Bytes.ofNatLE 4 6 ++ Bytes.ofNatLE 8 0 ++
    Bytes.ofNatLE 8 0x40_3000 ++ Bytes.ofNatLE 8 0x40_3000 ++ Bytes.ofNatLE 8 16 ++
    Bytes.ofNatLE 8 0x2000 ++ Bytes.ofNatLE 8 0x1000

/-- What `Elf::parse` reads of `sampleExec`. -/
def sampleElf : Elf := ⟨Elf.Ehdr.decode sampleExec, Elf.phdrTable sampleExec Elf.ehdrSize 2⟩

/-- A kernel with no objects yet, whose pages come from the window `[0x10_0000, 0x20_0000)`. -/
def sampleKernel : MemKernel Nat :=
  ⟨⟨⟨0x10_0000, ByteMem.zero⟩, fun _ => ⟨[], 0⟩⟩, fun _ => ⟨⟨0, 0⟩, []⟩, 0⟩

theorem create_spec_sample :
    ∃ proc regs k', (create (windowPages 0x20_0000) 0x1000 sampleExec).run sampleKernel =
        .ok (proc, regs) k' ∧
      (∀ p ∈ loads sampleElf.phdrs, ∀ i < p.memsz, ∀ x : UInt8, ∃ k'',
        (vmspaceRead (windowPages 0x20_0000) proc.vmspace (p.vaddr + i) [x]).run k' =
          .ok [segmentByte sampleExec p i] k'') ∧
      ∀ q ∈ loads sampleElf.phdrs, holdsPhdrs sampleElf.ehdr.phoff q = true →
        ∃ a b, sampleExec[sampleElf.ehdr.phoff]? = some b ∧
          (∃ k'', (vmspaceRead (windowPages 0x20_0000) proc.vmspace (atPhdrSlot regs.sp)
            (List.replicate 8 0)).run k' = .ok (Bytes.ofNatLE 8 a) k'') ∧
          ∀ x : UInt8, ∃ k'', (vmspaceRead (windowPages 0x20_0000) proc.vmspace a [x]).run k' =
            .ok [b] k'' := by
  have hloads : loads sampleElf.phdrs =
      [⟨1, 5, 0, 0x40_0010, 176, 0x1800⟩, ⟨1, 6, 0, 0x40_3000, 16, 0x2000⟩] := by decide +kernel
  have hsegs : ∀ p ∈ loads sampleElf.phdrs, SegmentOk sampleExec p := by
    intro p hp
    simp only [hloads, List.mem_cons, List.not_mem_nil, or_false] at hp
    rcases hp with rfl | rfl <;> exact ⟨by decide, by decide, by decide +kernel, by decide⟩
  have hcap : createPages sampleElf.phdrs ≤ (0x20_0000 - 0x10_0000) / minPageSize := by
    rw [createPages, hloads]
    decide
  exact create_spec (freshPages_windowPages _) (supplies_windowPages _)
    (pageAddrs_windowPages _ (by decide)) (by decide) (by decide +kernel) (by decide +kernel)
    hsegs (by rw [hloads]; exact List.pairwise_pair.mpr (.inl (by decide))) sampleKernel (by decide)
    hcap

end Create

end Ftl.Lx

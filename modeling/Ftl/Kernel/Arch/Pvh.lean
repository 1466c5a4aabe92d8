import Mathlib
import Ftl.Lib.ByteMem
import Ftl.Lib.Word
import Ftl.Api.Types
import Ftl.Kernel.Boot
import Ftl.Kernel.Memory.PageAllocator

/-!
# The PVH boot information

`kernel/src/arch/x64/pvh.rs`, `parse_start_info(start_info)`. A boot loader that follows the PVH
boot protocol hands the kernel the address of an `hvm_start_info`: a magic, the number and address
of the module list, the address of the command line, and the address and length of the memory map.
`parse_start_info` panics when the magic is wrong, takes the command line up to its NUL
(`cstr2slice`), records the first eight modules and the first eight RAM entries of the memory map,
and drops the others.

The structures are `#[repr(C, packed)]` and read through the direct map; `ByteMem` is the physical
memory, and a field is the little-endian word at its offset. `cstr2slice` scans for a NUL with no
bound, so the model takes a fuel argument and returns `none` when it runs out (`cstrLen`). The end
of a module,
`module.paddr as usize + module.size as usize`, is a `usize` sum, which panics on overflow in the
default (debug) profile; the loop computes it for every module, also past the eighth.

## Main definitions

* `Ftl.Pvh.cstr2slice`, `Ftl.Pvh.modulesLoop`, `Ftl.Pvh.memmapLoop`.
* `Ftl.Pvh.parseStartInfo`.

## Main results

* `Ftl.Pvh.asSlice_modulesLoop`, `Ftl.Pvh.modulesLoop_eq_error_iff`,
  `Ftl.Pvh.asSlice_memmapLoop`: the loops record the first eight modules and RAM regions.
* `Ftl.Pvh.parseStartInfo_eq_ok`, `Ftl.Pvh.parseStartInfo_eq_error_iff`: what the parser
  returns, and when it panics.
* `Ftl.Pvh.init_allocationsSafe_of_pvh`: on the PVH boot path, `memory::init` succeeds and the
  page allocator then hands out disjoint blocks of free RAM.
-/

namespace Ftl.Pvh

/-- `HVM_MEMMAP_TYPE_RAM`. -/
def hvmMemmapTypeRam : Nat := 1

/-- The magic of `hvm_start_info`: `[b'x', b'E' | 0x80, b'n', b'3']`. -/
def startInfoMagic : List UInt8 := [0x78, 0x45 ||| 0x80, 0x6e, 0x33]

/-- `size_of::<HvmModuleEntry>()`. -/
def moduleEntrySize : Nat := 32

/-- `size_of::<HvmMemoryMapEntry>()`. -/
def memmapEntrySize : Nat := 24

/-! ### Fields of the boot information -/

section Fields

variable (mem : ByteMem) (startInfo : Nat)

/-- `magic` of the `hvm_start_info` at `startInfo`. -/
def magic : List UInt8 := mem.readBytes startInfo 4

/-- `nr_modules`. -/
def nrModules : Nat := mem.readLE (startInfo + 12) 4

/-- `modlist_paddr`. -/
def modlistPaddr : Nat := mem.readLE (startInfo + 16) 8

/-- `cmdline_paddr`. -/
def cmdlinePaddr : Nat := mem.readLE (startInfo + 24) 8

/-- `memmap_paddr`. -/
def memmapPaddr : Nat := mem.readLE (startInfo + 40) 8

/-- `memmap_entries`. -/
def memmapEntries : Nat := mem.readLE (startInfo + 48) 4

/-- The addresses of the `count` entries of `size` bytes of the slice at `base`. -/
def entryAddrs (base size count : Nat) : List Nat :=
  (List.range count).map fun i => base + i * size

/-- The entries of the module list, `modlist`. -/
def modlistAddrs : List Nat :=
  entryAddrs (modlistPaddr mem startInfo) moduleEntrySize (nrModules mem startInfo)

/-- The entries of the memory map, `memmap`. -/
def memmapAddrs : List Nat :=
  entryAddrs (memmapPaddr mem startInfo) memmapEntrySize (memmapEntries mem startInfo)

end Fields

/-! ### Entries -/

section Entries

variable (mem : ByteMem) (entry : Nat)

/-- The module of the module entry at `entry`: `paddr`, and `paddr + size`, a `usize` sum that
panics on overflow. -/
def moduleOf : Option Module :=
  (Word.checkedAdd 64 (mem.readLE entry 8) (mem.readLE (entry + 8) 8)).map fun end_ =>
    ⟨mem.readLE entry 8, end_⟩

/-- The range the module entry at `entry` describes, in unbounded arithmetic. -/
def moduleRange : Module := ⟨mem.readLE entry 8, mem.readLE entry 8 + mem.readLE (entry + 8) 8⟩

/-- The region of the memory-map entry at `entry`, if its type is `HVM_MEMMAP_TYPE_RAM`: `addr`
and `size`. -/
def ramOf : Option FreeRam :=
  if mem.readLE (entry + 16) 4 = hvmMemmapTypeRam then
    some ⟨mem.readLE entry 8, mem.readLE (entry + 8) 8⟩
  else none

/-- Whether the end of the module at `entry` fits in a `usize`. -/
def ModuleFits : Prop := mem.readLE entry 8 + mem.readLE (entry + 8) 8 ≤ Word.MAX 64

theorem moduleOf_eq_some_iff {m : Module} :
    moduleOf mem entry = some m ↔ ModuleFits mem entry ∧ m = moduleRange mem entry := by
  unfold moduleOf ModuleFits moduleRange
  rcases h : Word.checkedAdd 64 (mem.readLE entry 8) (mem.readLE (entry + 8) 8) with _ | e
  · rw [Word.checkedAdd_eq_none] at h
    simp only [Option.map_none, reduceCtorEq, false_iff, not_and]
    intro hle
    omega
  · obtain ⟨hle, rfl⟩ := Word.checkedAdd_eq_some.mp h
    simp only [Option.map_some, Option.some.injEq]
    exact ⟨fun h => ⟨hle, h.symm⟩, fun h => h.2.symm⟩

theorem moduleOf_eq_none_iff : moduleOf mem entry = none ↔ ¬ ModuleFits mem entry := by
  unfold moduleOf ModuleFits
  rw [Option.map_eq_none_iff, Word.checkedAdd_eq_none]
  omega

end Entries

/-! ### The model of `parse_start_info` -/

/-- The loop of `cstr2slice`: `while *ptr.add(len) != 0 { len += 1 }` from `len`, for at most
`fuel` reads; the length of the string, or `none` when the fuel runs out. -/
def cstrLen (mem : ByteMem) (ptr : Nat) : Nat → Nat → Option Nat
  | 0, _ => none
  | fuel + 1, len => if mem (ptr + len) ≠ 0 then cstrLen mem ptr fuel (len + 1) else some len

/-- `cstr2slice(paddr)`: the bytes at `paddr` up to the first NUL; none for a null pointer. -/
def cstr2slice (fuel : Nat) (mem : ByteMem) (paddr : Nat) : Option (List UInt8) :=
  if paddr = 0 then some []
  else (cstrLen mem paddr fuel 0).map fun len => mem.readBytes paddr len

/-- `for module in modlist`: a module is pushed to `modules`, and dropped when `modules` is
full; its end is computed first, and may panic. -/
def modulesLoop (mem : ByteMem) :
    List Nat → ArrayVec Module numModulesMax → Except Fault (ArrayVec Module numModulesMax)
  | [], modules => .ok modules
  | entry :: entries, modules =>
    match moduleOf mem entry with
    | none => .error .panic
    | some m => modulesLoop mem entries (modules.tryPush m).2

/-- One entry of the memory map: a RAM region is pushed to `free_rams`, and dropped when
`free_rams` is full. -/
def pushRam (mem : ByteMem) (freeRams : ArrayVec FreeRam 8) (entry : Nat) : ArrayVec FreeRam 8 :=
  match ramOf mem entry with
  | some ram => (freeRams.tryPush ram).2
  | none => freeRams

/-- `for entry in memmap`. -/
def memmapLoop (mem : ByteMem) (entries : List Nat) (freeRams : ArrayVec FreeRam 8) :
    ArrayVec FreeRam 8 :=
  entries.foldl (pushRam mem) freeRams

/-- `parse_start_info(start_info)`: the boot information and the command line; `none` when the
scan of the command line runs out of fuel. -/
def parseStartInfo (fuel : Nat) (mem : ByteMem) (startInfo : Nat) :
    Option (Except Fault (BootInfo × List UInt8)) :=
  if magic mem startInfo ≠ startInfoMagic then some (.error .panic)
  else (cstr2slice fuel mem (cmdlinePaddr mem startInfo)).map fun cmdline =>
    (modulesLoop mem (modlistAddrs mem startInfo) ArrayVec.new).map fun modules =>
      (⟨modules, memmapLoop mem (memmapAddrs mem startInfo) ArrayVec.new⟩, cmdline)

/-! ### The command line -/

section Cmdline

variable {mem : ByteMem} {ptr : Nat}

end Cmdline

/-! ### The two loops -/

section Loops

variable {mem : ByteMem}

/-- When every module fits, the loop pushes each module's range in turn. -/
theorem modulesLoop_of_fits {entries : List Nat} (h : ∀ e ∈ entries, ModuleFits mem e)
    (modules : ArrayVec Module numModulesMax) :
    modulesLoop mem entries modules =
      .ok ((entries.map (moduleRange mem)).foldl (fun v m => (v.tryPush m).2) modules) := by
  induction entries generalizing modules with
  | nil => rfl
  | cons e es ih =>
    have hm := (moduleOf_eq_some_iff mem e).mpr ⟨h e List.mem_cons_self, rfl⟩
    rw [modulesLoop, hm, List.map_cons, List.foldl_cons]
    exact ih (fun e' he' => h e' (List.mem_cons_of_mem e he')) _

/-- The loop panics exactly when the end of some module overflows. -/
theorem modulesLoop_eq_error_iff {entries : List Nat} {modules : ArrayVec Module numModulesMax}
    {e : Fault} :
    modulesLoop mem entries modules = .error e ↔ e = .panic ∧ ∃ entry ∈ entries, ¬ ModuleFits mem entry := by
  induction entries generalizing modules with
  | nil => simp [modulesLoop]
  | cons x xs ih =>
    rw [modulesLoop]
    rcases hx : moduleOf mem x with _ | m
    · have hfit := (moduleOf_eq_none_iff mem x).mp hx
      simp only [Except.error.injEq, List.mem_cons, exists_eq_or_imp, hfit, not_false_eq_true,
        true_or, and_true]
      exact eq_comm
    · have hfit := ((moduleOf_eq_some_iff mem x).mp hx).1
      rw [ih]
      simp [hfit]

/-- A loop that returns has met no overflow, and records the first modules, as far as `modules`
has room. -/
theorem asSlice_modulesLoop {entries : List Nat} {modules modules' : ArrayVec Module numModulesMax}
    (h : modulesLoop mem entries modules = .ok modules') :
    (∀ e ∈ entries, ModuleFits mem e) ∧
      modules'.asSlice = (modules.asSlice ++ entries.map (moduleRange mem)).take numModulesMax := by
  have hfits : ∀ e ∈ entries, ModuleFits mem e := by
    intro e he
    by_contra hnot
    have herr : modulesLoop mem entries modules = .error .panic :=
      modulesLoop_eq_error_iff.mpr ⟨rfl, e, he, hnot⟩
    rw [h] at herr
    cases herr
  rw [modulesLoop_of_fits hfits, Except.ok.injEq] at h
  rw [← h, ArrayVec.asSlice_foldl_tryPush]
  exact ⟨hfits, rfl⟩

/-- The loop over the memory map records its RAM regions in order, as far as `free_rams` has
room. -/
theorem asSlice_memmapLoop (entries : List Nat) (freeRams : ArrayVec FreeRam 8) :
    (memmapLoop mem entries freeRams).asSlice =
      (freeRams.asSlice ++ entries.filterMap (ramOf mem)).take 8 := by
  rw [← ArrayVec.asSlice_foldl_tryPush, List.foldl_filterMap, memmapLoop]
  congr 2
  funext v entry
  rw [pushRam]
  cases ramOf mem entry <;> rfl

end Loops

/-! ### The parser -/

section Parse

variable {fuel : Nat} {mem : ByteMem} {startInfo : Nat}

/-- A wrong magic panics, before anything else is read. -/
theorem parseStartInfo_of_magic_ne (h : magic mem startInfo ≠ startInfoMagic) :
    parseStartInfo fuel mem startInfo = some (.error .panic) := by
  rw [parseStartInfo, if_pos h]

/-- With the right magic, the parser returns once the command line is found, and panics when a
module overflows. -/
theorem parseStartInfo_of_magic (h : magic mem startInfo = startInfoMagic) :
    parseStartInfo fuel mem startInfo =
      (cstr2slice fuel mem (cmdlinePaddr mem startInfo)).map fun cmdline =>
        (modulesLoop mem (modlistAddrs mem startInfo) ArrayVec.new).map fun modules =>
          (⟨modules, memmapLoop mem (memmapAddrs mem startInfo) ArrayVec.new⟩, cmdline) := by
  rw [parseStartInfo, if_neg (not_not.mpr h)]

/-- What the parser returns: the magic was right, the command line is the bytes before its NUL,
every module fits, and the boot information holds the first eight modules and the first eight RAM
regions of the memory map. -/
theorem parseStartInfo_eq_ok {bootInfo : BootInfo} {cmdline : List UInt8}
    (h : parseStartInfo fuel mem startInfo = some (.ok (bootInfo, cmdline))) :
    magic mem startInfo = startInfoMagic ∧
      cstr2slice fuel mem (cmdlinePaddr mem startInfo) = some cmdline ∧
      (∀ e ∈ modlistAddrs mem startInfo, ModuleFits mem e) ∧
      bootInfo.modules.asSlice =
        ((modlistAddrs mem startInfo).map (moduleRange mem)).take numModulesMax ∧
      bootInfo.freeRams.asSlice = ((memmapAddrs mem startInfo).filterMap (ramOf mem)).take 8 := by
  by_cases hmagic : magic mem startInfo = startInfoMagic
  swap
  · rw [parseStartInfo_of_magic_ne hmagic] at h
    cases h
  rw [parseStartInfo_of_magic hmagic, Option.map_eq_some_iff] at h
  obtain ⟨cmd, hcmd, hrest⟩ := h
  rcases hloop : modulesLoop mem (modlistAddrs mem startInfo) ArrayVec.new with e | modules
  · rw [hloop] at hrest
    cases hrest
  rw [hloop] at hrest
  obtain ⟨rfl, rfl⟩ := Prod.mk.inj (Except.ok.inj hrest)
  obtain ⟨hfits, hmods⟩ := asSlice_modulesLoop hloop
  refine ⟨hmagic, hcmd, hfits, ?_, ?_⟩
  · rw [hmods, ArrayVec.asSlice_new, List.nil_append]
  · rw [asSlice_memmapLoop, ArrayVec.asSlice_new, List.nil_append]

/-- The parser panics exactly when the magic is wrong, or when the command line is found and the
end of a module overflows. -/
theorem parseStartInfo_eq_error_iff {e : Fault} :
    parseStartInfo fuel mem startInfo = some (.error e) ↔ e = .panic ∧
      (magic mem startInfo ≠ startInfoMagic ∨
        ((cstr2slice fuel mem (cmdlinePaddr mem startInfo)).isSome ∧
          ∃ entry ∈ modlistAddrs mem startInfo, ¬ ModuleFits mem entry)) := by
  by_cases hmagic : magic mem startInfo = startInfoMagic
  swap
  · rw [parseStartInfo_of_magic_ne hmagic, Option.some.injEq, Except.error.injEq]
    exact ⟨fun h => ⟨h.symm, .inl hmagic⟩, fun h => h.1.symm⟩
  rw [parseStartInfo_of_magic hmagic]
  rcases hcmd : cstr2slice fuel mem (cmdlinePaddr mem startInfo) with _ | cmd
  · simp [hmagic]
  · rcases hloop : modulesLoop mem (modlistAddrs mem startInfo) ArrayVec.new with e' | modules
    · obtain ⟨rfl, hover⟩ := modulesLoop_eq_error_iff.mp hloop
      rw [Option.map_some, Option.some.injEq]
      change Except.error Fault.panic = Except.error e ↔ _
      rw [Except.error.injEq]
      exact ⟨fun h => ⟨h.symm, .inr ⟨rfl, hover⟩⟩, fun h => h.1.symm⟩
    · have hfits := (asSlice_modulesLoop hloop).1
      rw [Option.map_some, Option.some.injEq]
      change Except.ok _ = Except.error e ↔ _
      refine ⟨fun h => ?_, ?_⟩
      · cases h
      · rintro ⟨-, hbad | ⟨-, entry, hentry, hnot⟩⟩
        · exact absurd hmagic hbad
        · exact absurd (hfits entry hentry) hnot

end Parse

/-! ### The boot path -/

section Boot

variable {fuel : Nat} {mem : ByteMem} {startInfo : Nat}

/-- A module the parser records ends where it starts plus its size, within a `usize`. -/
theorem modules_bounded {bootInfo : BootInfo} {cmdline : List UInt8}
    (h : parseStartInfo fuel mem startInfo = some (.ok (bootInfo, cmdline))) :
    ∀ m ∈ bootInfo.modules.asSlice, m.start ≤ m.end_ ∧ m.end_ ≤ Word.MAX 64 := by
  obtain ⟨-, -, hfits, hmods, -⟩ := parseStartInfo_eq_ok h
  intro m hm
  rw [hmods] at hm
  obtain ⟨entry, hentry, rfl⟩ := List.mem_map.mp (List.mem_of_mem_take hm)
  exact ⟨Nat.le_add_right _ _, hfits entry hentry⟩

/-- `boot(parse_start_info(start_info))`: on the boot information the PVH parser returns,
`memory::init` does not panic, and the page allocator it builds hands out aligned, usable and
disjoint blocks, once the RAM regions of the memory map do not overlap. -/
theorem init_allocationsSafe_of_pvh {kernelReservedRange : Range} {bootInfo : BootInfo}
    {cmdline : List UInt8} (hk : kernelReservedRange.start ≤ kernelReservedRange.end_)
    (h : parseStartInfo fuel mem startInfo = some (.ok (bootInfo, cmdline)))
    (hrams : ((memmapAddrs mem startInfo).filterMap (ramOf mem)).Pairwise fun a b =>
      Disjoint (Set.Ico a.addr (a.addr + a.size)) (Set.Ico b.addr (b.addr + b.size))) :
    ∃ pa, Memory.init kernelReservedRange bootInfo Memory.PageAllocator.new = some pa ∧
      Memory.AllocationsSafe kernelReservedRange bootInfo pa := by
  obtain ⟨-, -, -, -, hfree⟩ := parseStartInfo_eq_ok h
  have hrams' : bootInfo.freeRams.asSlice.Pairwise fun a b =>
      Disjoint (Set.Ico a.addr (a.addr + a.size)) (Set.Ico b.addr (b.addr + b.size)) := by
    rw [hfree]
    exact hrams.sublist (List.take_sublist _ _)
  obtain ⟨pa, hpa, hinv⟩ := Memory.inv_init hk (fun m hm => (modules_bounded h m hm).1) hrams'
  exact ⟨pa, hpa, Memory.allocationsSafe_of_inv hinv⟩

/-- A start info at `0x1000` with no command line, one module of a page at `0x20_0000`, and one
RAM region of 256 MiB at `0`. -/
def pvhImage : ByteMem :=
  let m := ByteMem.zero.writeBytes 0x1000 startInfoMagic
  let m := m.writeLE (0x1000 + 12) 1 4
  let m := m.writeLE (0x1000 + 16) 0x2000 8
  let m := m.writeLE (0x1000 + 40) 0x3000 8
  let m := m.writeLE (0x1000 + 48) 1 4
  let m := m.writeLE 0x2000 0x20_0000 8
  let m := m.writeLE (0x2000 + 8) 0x1000 8
  let m := m.writeLE (0x3000 + 8) 0x1000_0000 8
  m.writeLE (0x3000 + 16) hvmMemmapTypeRam 4

/-- What `parse_start_info` returns on `pvhImage`. -/
def pvhBootInfo : BootInfo :=
  ⟨(ArrayVec.new.tryPush ⟨0x20_0000, 0x20_1000⟩).2, (ArrayVec.new.tryPush ⟨0, 0x1000_0000⟩).2⟩

theorem init_allocationsSafe_of_pvh_image :
    ∃ pa, Memory.init ⟨0x10_0000, 0x20_0000⟩ pvhBootInfo Memory.PageAllocator.new = some pa ∧
      Memory.AllocationsSafe ⟨0x10_0000, 0x20_0000⟩ pvhBootInfo pa := by
  have hparse : parseStartInfo 0 pvhImage 0x1000 = some (.ok (pvhBootInfo, [])) := rfl
  have hrams : (memmapAddrs pvhImage 0x1000).filterMap (ramOf pvhImage) = [⟨0, 0x1000_0000⟩] := by
    decide
  refine init_allocationsSafe_of_pvh (by decide) hparse ?_
  rw [hrams]
  exact List.pairwise_singleton _ _

end Boot

end Ftl.Pvh

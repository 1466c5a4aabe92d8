import Mathlib
import Ftl.Lib.ByteMem
import Ftl.Lib.Bytes
import Ftl.Utils.Alignment
import Ftl.Api.Types
import Ftl.Kernel.Boot

/-!
# Walking the Multiboot2 boot information

`kernel/src/arch/x64/multiboot.rs`, `parse_multiboot2_info(info_addr)`. The boot information is
an 8-byte header whose first `u32` is `total_size`, then tags from offset 8 on. Each tag starts
with a `u32` type and a `u32` size; the loop handles the tag at `offset`, then advances by
`(size + 7) & !7`, while `offset < total_size`. A command-line tag gives the bytes after its header
up to the first NUL; a memory-map tag has `num_entries = size / entry_size` entries of which the
available ones go to `free_rams`; a module tag goes to `modules`. The two `ArrayVec`s hold eight
entries; `try_push` on a full one drops the entry.

The loop reads memory through the direct map; `ByteMem` is the physical memory. `info_addr` comes
from a `u32` register, so no address sum overflows. The loop need not end, so the model takes a
fuel argument and returns `none` when it runs out (`walkLoop`); more fuel never changes a result
(`walkLoop_add`).

A tag of size 0 does not advance the offset: from a state at such a tag the loop runs out of any
fuel (`walkLoop_of_size_zero`), unless the tag is a memory map whose `entry_size` is 0, where
the division panics (`tagStep_eq_error_iff`). Only such a tag keeps the walk from returning: if no
tag it reaches has size 0, it returns, with its result or the panic, within
`(total_size - offset + 7) / 8 + 1` rounds (`walkLoop_isSome`).

## Main definitions

* `Ftl.Multiboot.Walk`: the variables of the loop.
* `Ftl.Multiboot.visitTag`, `Ftl.Multiboot.tagStep`, `Ftl.Multiboot.walkLoop`.
* `Ftl.Multiboot.parseMultiboot2Info`.

## Main results

* `Ftl.Multiboot.tagStep_offset`, `Ftl.Multiboot.tagStep_eq_error_iff`: one round.
* `Ftl.Multiboot.walkLoop_of_size_zero`, `Ftl.Multiboot.walkLoop_isSome`: the loop at a tag of
  size 0, and without one.
* `Ftl.Multiboot.parseMultiboot2Info_returns`: the parser returns when no tag it reaches has
  size 0.
* `Ftl.Multiboot.parseMultiboot2Info_zero_size_tag`: a boot information on which it never
  returns.
-/

namespace Ftl.Multiboot

/-- `MULTIBOOT2_TAG_CMDLINE`. -/
def tagCmdline : Nat := 1

/-- `MULTIBOOT2_TAG_MODULE`. -/
def tagModule : Nat := 3

/-- `MULTIBOOT2_TAG_MEMORY_MAP`. -/
def tagMemoryMap : Nat := 6

/-- `MULTIBOOT2_MEMORY_AVAILABLE`. -/
def memoryAvailable : Nat := 1

/-! ### Fields of the boot information -/

section Fields

variable (mem : ByteMem) (tag : Nat)

/-- `header.total_size` of the boot information at `tag`. -/
def totalSize : Nat := mem.readLE tag 4

/-- `type_` of the tag header at `tag`. -/
def tagType : Nat := mem.readLE tag 4

/-- `size` of the tag header at `tag`. -/
def tagSize : Nat := mem.readLE (tag + 4) 4

/-- `entry_size` of the memory-map header at `tag`. -/
def entrySize : Nat := mem.readLE (tag + 8) 4

/-- The command line of the tag at `tag`: the `size - 8` bytes after its header (a saturating
subtraction), up to the first NUL. -/
def cmdlineOf : List UInt8 :=
  let cmdlineWithNull := mem.readBytes (tag + 8) (tagSize mem tag - 8)
  match cmdlineWithNull.findIdx? (· == 0) with
  | some nullIndex => cmdlineWithNull.take nullIndex
  | none => cmdlineWithNull

/-- The region of the memory-map entry at `tag`, if its type is `MULTIBOOT2_MEMORY_AVAILABLE`:
`base_addr` and `length`. -/
def entryRegion : Option FreeRam :=
  if mem.readLE (tag + 16) 4 ≠ memoryAvailable then none
  else some ⟨mem.readLE tag 8, mem.readLE (tag + 8) 8⟩

/-- The module of the module tag at `tag`: `mod_start` and `mod_end`. -/
def moduleOf : Module := ⟨mem.readLE (tag + 8) 4, mem.readLE (tag + 12) 4⟩

theorem tagSize_lt : tagSize mem tag < 2 ^ 32 := mem.readLE_lt _ 4

end Fields

/-! ### The memory map -/

/-- One entry of the memory map, at `entry`: an available region is pushed to `free_rams`, and
dropped when `free_rams` is full. -/
def pushEntry (mem : ByteMem) (freeRams : ArrayVec FreeRam 8) (entry : Nat) :
    ArrayVec FreeRam 8 :=
  match entryRegion mem entry with
  | some ram => (freeRams.tryPush ram).2
  | none => freeRams

/-- `for i in 0..num_entries`: entry `i` of the memory map at `tag` is at
`tag + 16 + i * entry_size`. -/
def mmapEntries (mem : ByteMem) (tag entrySize numEntries : Nat) (freeRams : ArrayVec FreeRam 8) :
    ArrayVec FreeRam 8 :=
  (List.range numEntries).foldl (fun v i => pushEntry mem v (tag + 16 + i * entrySize)) freeRams

/-- The available regions among the first `numEntries` entries of the memory map at `tag`. -/
def availableRegions (mem : ByteMem) (tag entrySize numEntries : Nat) : List FreeRam :=
  (List.range numEntries).filterMap fun i => entryRegion mem (tag + 16 + i * entrySize)

/-! ### The loop -/

/-- The variables of the loop: `offset`, `free_rams`, `modules` and `cmdline`. -/
structure Walk where
  offset : Nat
  freeRams : ArrayVec FreeRam 8
  modules : ArrayVec Module numModulesMax
  cmdline : List UInt8

/-- The variables before the loop: the tags start after the 8-byte header. -/
def Walk.init : Walk := ⟨8, ArrayVec.new, ArrayVec.new, []⟩

/-- The `match` on the type of the tag at `tag`. -/
def visitTag (mem : ByteMem) (tag : Nat) (w : Walk) : Except Fault Walk :=
  if tagType mem tag = tagCmdline then .ok { w with cmdline := cmdlineOf mem tag }
  else if tagType mem tag = tagMemoryMap then
    -- `mmap.header.size / mmap.entry_size` is a `u32` division: a zero divisor panics
    if entrySize mem tag = 0 then .error .panic
    else .ok { w with
      freeRams := mmapEntries mem tag (entrySize mem tag) (tagSize mem tag / entrySize mem tag)
        w.freeRams }
  else if tagType mem tag = tagModule then
    .ok { w with modules := (w.modules.tryPush (moduleOf mem tag)).2 }
  else .ok w

/-- One round of the loop: the tag at `info_addr + offset`, then
`offset += (tag_header.size + 7) & !7`. -/
def tagStep (mem : ByteMem) (infoAddr : Nat) (w : Walk) : Except Fault Walk :=
  (visitTag mem (infoAddr + w.offset) w).map fun w' =>
    { w' with offset := w'.offset + ((tagSize mem (infoAddr + w.offset) + 7) &&& Word.compl 64 7) }

/-- `while offset < total_size { .. }` from `w`, for at most `fuel` tests of the condition;
`none` when the fuel runs out. -/
def walkLoop (mem : ByteMem) (infoAddr totalSize : Nat) : Nat → Walk → Option (Except Fault Walk)
  | 0, _ => none
  | fuel + 1, w =>
    if w.offset < totalSize then
      match tagStep mem infoAddr w with
      | .error e => some (.error e)
      | .ok w' => walkLoop mem infoAddr totalSize fuel w'
    else some (.ok w)

/-- `parse_multiboot2_info(info_addr)`: the boot information and the command line. -/
def parseMultiboot2Info (fuel : Nat) (mem : ByteMem) (infoAddr : Nat) :
    Option (Except Fault (BootInfo × List UInt8)) :=
  (walkLoop mem infoAddr (totalSize mem infoAddr) fuel Walk.init).map fun r =>
    r.map fun w => (⟨w.modules, w.freeRams⟩, w.cmdline)

/-! ### One round -/

section Step

variable {mem : ByteMem} {infoAddr : Nat} {w w' : Walk}

/-- The `match` leaves the offset alone. -/
theorem visitTag_offset {tag : Nat} (h : visitTag mem tag w = .ok w') : w'.offset = w.offset := by
  unfold visitTag at h
  split_ifs at h <;> cases h <;> rfl

/-- The `match` panics exactly on a memory map whose `entry_size` is 0. -/
theorem visitTag_eq_error_iff {tag : Nat} {e : Fault} :
    visitTag mem tag w = .error e ↔
      e = .panic ∧ tagType mem tag = tagMemoryMap ∧ entrySize mem tag = 0 := by
  unfold visitTag
  by_cases h₁ : tagType mem tag = tagCmdline
  · have h₁' : tagType mem tag ≠ tagMemoryMap := by rw [h₁]; decide
    rw [if_pos h₁]
    simp only [reduceCtorEq, false_iff, not_and]
    exact fun _ h => absurd h h₁'
  rw [if_neg h₁]
  by_cases h₂ : tagType mem tag = tagMemoryMap
  · rw [if_pos h₂]
    by_cases h₃ : entrySize mem tag = 0
    · simp [h₂, h₃, eq_comm]
    · simp [h₃]
  · rw [if_neg h₂]
    split_ifs <;> simp [h₂]

/-- `(size + 7) & !7` rounds the size up to a multiple of 8. -/
theorem advance_eq (tag : Nat) :
    (tagSize mem tag + 7) &&& Word.compl 64 7 = (tagSize mem tag + 7) / 8 * 8 := by
  have hsize := tagSize_lt mem tag
  exact alignDown_eq (k := 3) (by decide) (by omega)

/-- A round moves the offset past the tag, rounded up to 8 bytes. -/
theorem tagStep_offset (h : tagStep mem infoAddr w = .ok w') :
    w'.offset = w.offset + (tagSize mem (infoAddr + w.offset) + 7) / 8 * 8 := by
  unfold tagStep at h
  rcases hv : visitTag mem (infoAddr + w.offset) w with e | w₁
  · rw [hv] at h
    cases h
  · rw [hv] at h
    cases h
    dsimp only
    rw [visitTag_offset hv, advance_eq]

theorem tagStep_eq_error_iff {e : Fault} :
    tagStep mem infoAddr w = .error e ↔ e = .panic ∧
      tagType mem (infoAddr + w.offset) = tagMemoryMap ∧ entrySize mem (infoAddr + w.offset) = 0 := by
  rw [← visitTag_eq_error_iff (w := w)]
  unfold tagStep
  rcases visitTag mem (infoAddr + w.offset) w with e' | w₁ <;> simp [Except.map]

end Step

/-! ### Whole runs -/

section Loop

variable {mem : ByteMem} {infoAddr totalSize : Nat}

/-- At a tag of size 0 that does not panic, the loop never returns: the offset stays where it is,
and so does the tag it reads. -/
theorem walkLoop_of_size_zero {w : Walk} (hlt : w.offset < totalSize)
    (hsize : tagSize mem (infoAddr + w.offset) = 0)
    (hdiv : ¬ (tagType mem (infoAddr + w.offset) = tagMemoryMap ∧
      entrySize mem (infoAddr + w.offset) = 0)) (fuel : Nat) :
    walkLoop mem infoAddr totalSize fuel w = none := by
  induction fuel generalizing w with
  | zero => rfl
  | succ fuel ih =>
    rcases hstep : tagStep mem infoAddr w with e | w'
    · exact absurd (tagStep_eq_error_iff.mp hstep).2 hdiv
    · have hoff : w'.offset = w.offset := by
        rw [tagStep_offset hstep, hsize]
        omega
      rw [walkLoop, if_pos hlt, hstep]
      exact ih (hoff ▸ hlt) (hoff ▸ hsize) (hoff ▸ hdiv)

/-- More fuel does not change a run that has returned. -/
theorem walkLoop_add {fuel : Nat} {w : Walk} {r : Except Fault Walk}
    (h : walkLoop mem infoAddr totalSize fuel w = some r) (k : Nat) :
    walkLoop mem infoAddr totalSize (fuel + k) w = some r := by
  induction fuel generalizing w with
  | zero => cases h
  | succ fuel ih =>
    rw [Nat.add_right_comm]
    unfold walkLoop at h ⊢
    split_ifs at h ⊢
    · split at h
      · exact h
      · exact ih h
    · exact h

/-- A round of the loop: the test holds and the tag does not panic. -/
def Round (mem : ByteMem) (infoAddr totalSize : Nat) (w w' : Walk) : Prop :=
  w.offset < totalSize ∧ tagStep mem infoAddr w = .ok w'

/-- If every tag the loop reaches has a nonzero size, it returns within
`(total_size - offset + 7) / 8 + 1` tests: each round moves the offset by at least 8. -/
theorem walkLoop_isSome {w : Walk}
    (hpos : ∀ w', Relation.ReflTransGen (Round mem infoAddr totalSize) w w' →
      w'.offset < totalSize → 0 < tagSize mem (infoAddr + w'.offset))
    {fuel : Nat} (hfuel : (totalSize - w.offset + 7) / 8 < fuel) :
    (walkLoop mem infoAddr totalSize fuel w).isSome := by
  induction fuel generalizing w with
  | zero => omega
  | succ fuel ih =>
    rw [walkLoop]
    split_ifs with hlt
    · rcases hstep : tagStep mem infoAddr w with e | w'
      · rfl
      · have hround : Round mem infoAddr totalSize w w' := ⟨hlt, hstep⟩
        have hsize := hpos w Relation.ReflTransGen.refl hlt
        have hoff := tagStep_offset hstep
        refine ih (fun w'' h => hpos w'' (Relation.ReflTransGen.head hround h)) ?_
        have : 8 ≤ (tagSize mem (infoAddr + w.offset) + 7) / 8 * 8 := by omega
        omega
    · rfl

end Loop

/-- When every tag the walk reaches has a nonzero size, `parse_multiboot2_info` returns: one
result, the same for every fuel above `(total_size - 1) / 8`. Tags of size 0 are the only way
it fails to (`parseMultiboot2Info_zero_size_tag`). -/
theorem parseMultiboot2Info_returns {mem : ByteMem} {infoAddr : Nat}
    (hpos : ∀ w, Relation.ReflTransGen (Round mem infoAddr (totalSize mem infoAddr)) Walk.init w →
      w.offset < totalSize mem infoAddr → 0 < tagSize mem (infoAddr + w.offset)) :
    ∃ r, ∀ fuel, (totalSize mem infoAddr - 8 + 7) / 8 < fuel →
      parseMultiboot2Info fuel mem infoAddr = some r := by
  have hsome := walkLoop_isSome hpos (Nat.lt_succ_self ((totalSize mem infoAddr - 8 + 7) / 8))
  obtain ⟨r, hr⟩ := Option.isSome_iff_exists.mp hsome
  refine ⟨r.map fun w => (⟨w.modules, w.freeRams⟩, w.cmdline), fun fuel hfuel => ?_⟩
  obtain ⟨k, rfl⟩ := Nat.exists_eq_add_of_le hfuel
  rw [parseMultiboot2Info, Nat.succ_eq_add_one, walkLoop_add hr k, Option.map_some]

/-! ### A boot information as a boot loader writes it -/

/-- Boot information at `0x10_0000`, 120 bytes: the command line `quiet`, the module
`[0x20_0000, 0x21_0000)` named `init`, a memory map of two entries (the first available, the
second reserved), and the end tag. -/
def grubInfo : List UInt8 :=
  Bytes.ofNatLE 4 120 ++ Bytes.ofNatLE 4 0 ++
    (Bytes.ofNatLE 4 tagCmdline ++ Bytes.ofNatLE 4 14 ++ [0x71, 0x75, 0x69, 0x65, 0x74, 0, 0, 0]) ++
    (Bytes.ofNatLE 4 tagModule ++ Bytes.ofNatLE 4 21 ++ Bytes.ofNatLE 4 0x20_0000 ++
      Bytes.ofNatLE 4 0x21_0000 ++ [0x69, 0x6e, 0x69, 0x74, 0, 0, 0, 0]) ++
    (Bytes.ofNatLE 4 tagMemoryMap ++ Bytes.ofNatLE 4 64 ++ Bytes.ofNatLE 4 24 ++
      Bytes.ofNatLE 4 0 ++
      Bytes.ofNatLE 8 0 ++ Bytes.ofNatLE 8 0x9_f000 ++ Bytes.ofNatLE 4 memoryAvailable ++
      Bytes.ofNatLE 4 0 ++
      Bytes.ofNatLE 8 0x10_0000 ++ Bytes.ofNatLE 8 0x100 ++ Bytes.ofNatLE 4 2 ++
      Bytes.ofNatLE 4 0) ++
    (Bytes.ofNatLE 4 0 ++ Bytes.ofNatLE 4 8)

/-- The memory holding `grubInfo`. -/
def grubMem : ByteMem := ByteMem.zero.writeBytes 0x10_0000 grubInfo

theorem grubMem_totalSize : totalSize grubMem 0x10_0000 = 120 := by decide +kernel

/-- The walk over `grubInfo` visits the offsets `8`, `24`, `48`, `112` and stops at `120`. -/
theorem grubInfo_offsets {w : Walk}
    (h : Relation.ReflTransGen (Round grubMem 0x10_0000 (totalSize grubMem 0x10_0000))
      Walk.init w) :
    w.offset ∈ [8, 24, 48, 112, 120] := by
  induction h with
  | refl => simp [Walk.init]
  | tail _ hround ih =>
    obtain ⟨hlt, hstep⟩ := hround
    rw [grubMem_totalSize] at hlt
    rw [tagStep_offset hstep]
    simp only [List.mem_cons, List.not_mem_nil, or_false] at ih
    rcases ih with h | h | h | h | h <;> rw [h] at hlt ⊢ <;> first | omega | decide +kernel

/-- No tag the walk over `grubInfo` reaches has size 0. -/
theorem grubInfo_tagSize_pos (w : Walk)
    (hw : Relation.ReflTransGen (Round grubMem 0x10_0000 (totalSize grubMem 0x10_0000))
      Walk.init w)
    (hlt : w.offset < totalSize grubMem 0x10_0000) :
    0 < tagSize grubMem (0x10_0000 + w.offset) := by
  rw [grubMem_totalSize] at hlt
  have hoff := grubInfo_offsets hw
  simp only [List.mem_cons, List.not_mem_nil, or_false] at hoff
  rcases hoff with h | h | h | h | h <;> rw [h] at hlt ⊢ <;> first | omega | decide +kernel

/-- `parse_multiboot2_info` returns on `grubInfo`, with the command line, the module and the one
available region. -/
theorem parseMultiboot2Info_returns_grub :
    (∀ w, Relation.ReflTransGen (Round grubMem 0x10_0000 (totalSize grubMem 0x10_0000))
        Walk.init w →
      w.offset < totalSize grubMem 0x10_0000 → 0 < tagSize grubMem (0x10_0000 + w.offset)) ∧
    (∃ r, ∀ fuel, (totalSize grubMem 0x10_0000 - 8 + 7) / 8 < fuel →
      parseMultiboot2Info fuel grubMem 0x10_0000 = some r) ∧
    (parseMultiboot2Info 15 grubMem 0x10_0000).map
        (Except.map fun b => (b.1.modules.asSlice, b.1.freeRams.asSlice, b.2)) =
      some (.ok ([⟨0x20_0000, 0x21_0000⟩], [⟨0, 0x9_f000⟩], [0x71, 0x75, 0x69, 0x65, 0x74])) :=
  ⟨grubInfo_tagSize_pos, parseMultiboot2Info_returns grubInfo_tagSize_pos, by decide +kernel⟩

/-! ### A tag of size 0 -/

/-- Boot information at `0x10_0000` whose `total_size` is 16: one tag, all zero. -/
def zeroSizeTagImage : ByteMem := fun a => if a = 0x10_0000 then 16 else 0

/-- On boot information whose one tag has type 0 and size 0, `parse_multiboot2_info` never
returns. -/
theorem parseMultiboot2Info_zero_size_tag (fuel : Nat) :
    parseMultiboot2Info fuel zeroSizeTagImage 0x10_0000 = none := by
  have htotal : totalSize zeroSizeTagImage 0x10_0000 = 16 := by decide
  have hsize : tagSize zeroSizeTagImage (0x10_0000 + Walk.init.offset) = 0 := by decide
  have htype : tagType zeroSizeTagImage (0x10_0000 + Walk.init.offset) = 0 := by decide
  rw [parseMultiboot2Info, htotal, walkLoop_of_size_zero (by decide) hsize
    (by rw [htype]; decide) fuel, Option.map_none]

end Ftl.Multiboot

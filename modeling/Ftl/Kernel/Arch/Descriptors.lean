import Mathlib
import Ftl.Lib.Word

/-!
# The GDT, the TSS and the IDT

`kernel/src/arch/x64/gdt.rs` and `kernel/src/arch/x64/idt.rs`. At boot the kernel writes a GDT
with its own code and data segments, the user's, and a descriptor of the TSS, whose first interrupt
stack is the boot stack; then an IDT whose 256 gates enter the handler stubs at `idt_handlers`,
16 bytes apart. The CPU reads both tables by fields: the TSS descriptor spreads the TSS's address
over three fields of two entries, and an interrupt gate its handler's address over three fields.

`Ftl.X86` says how the CPU reads a descriptor and a gate; the builders are checked against it.
For every address of the TSS, the entries of the GDT that `GDT_TSS` names read back as a present
available 64-bit TSS at that address whose limit is the TSS's size (`Gdt.tss_segment`). For every
address of the stubs, `idt::init` panics exactly when the address of the last one overflows a
`u64`; otherwise gate `i` is a present interrupt gate of privilege `0`, on the first interrupt
stack, entering the stub at `handler_base + 16 * i` with the kernel's code selector
(`Idt.init_gates`), which names a present 64-bit code segment of privilege `0`
(`Gdt.kernelCs_segment`).

## Main definitions

* `Ftl.X86.Segment.ofDescriptor`, `Ftl.X86.Segment.ofSystemDescriptor`, `Ftl.Idt.IdtEntry.gate`.
* `Ftl.Gdt.tssDescriptor`, `Ftl.Gdt.entries`, `Ftl.Gdt.writeTss`.
* `Ftl.Idt.init`.

## Main results

* `Ftl.Gdt.tss_segment`, `Ftl.Gdt.kernelCs_segment`.
* `Ftl.Idt.gate_setHandler`, `Ftl.Idt.init_of_fits`, `Ftl.Idt.init_gates`.
-/

namespace Ftl

/-! ### What the CPU reads -/

namespace X86

/-- The `len` bits of `x` from bit `lo` on. -/
def bitField (x lo len : Nat) : Nat := x / 2 ^ lo % 2 ^ len

/-- A segment, as the CPU reads it from a descriptor. -/
structure Segment where
  base : Nat
  limit : Nat
  /-- `0xa` is execute/read code, `0x2` read/write data; in a system descriptor, `0x9` is an
  available 64-bit TSS. -/
  type : Nat
  /-- `S`: a code or data segment, not a system one. -/
  codeOrData : Bool
  dpl : Nat
  present : Bool
  /-- `L`: 64-bit code. -/
  long : Bool
  deriving DecidableEq, Repr

/-- The segment of an 8-byte descriptor. -/
def Segment.ofDescriptor (d : Nat) : Segment where
  base := bitField d 16 24 + bitField d 56 8 * 2 ^ 24
  limit := bitField d 0 16 + bitField d 48 4 * 2 ^ 16
  type := bitField d 40 4
  codeOrData := bitField d 44 1 = 1
  dpl := bitField d 45 2
  present := bitField d 47 1 = 1
  long := bitField d 53 1 = 1

/-- A system descriptor of long mode spans two entries: the second holds bits 32 to 63 of the
base. -/
def Segment.ofSystemDescriptor (low high : Nat) : Segment :=
  { Segment.ofDescriptor low with
    base := (Segment.ofDescriptor low).base + bitField high 0 32 * 2 ^ 32 }

/-- The entry of the GDT a selector names: its bits 0 and 1 are the requested privilege level,
and bit 2 chooses the GDT. -/
def selectorIndex (selector : Nat) : Nat := selector / 8

/-- An interrupt gate, as the CPU reads it from an IDT entry. -/
structure Gate where
  offset : Nat
  selector : Nat
  ist : Nat
  /-- `0xe` is a 64-bit interrupt gate. -/
  type : Nat
  dpl : Nat
  present : Bool
  deriving DecidableEq, Repr

end X86

open X86

/-! ### The GDT and the TSS -/

namespace Gdt

/-- `GDT_KERNEL_CS`. -/
def gdtKernelCs : Nat := 8

/-- `GDT_USER_DS`. -/
def gdtUserDs : Nat := (4 * 8) ||| 3

/-- `GDT_USER_CS`. -/
def gdtUserCs : Nat := (5 * 8) ||| 3

/-- `GDT_TSS`. -/
def gdtTss : Nat := 6 * 8

/-- `Tss`, with the fields `write_tss` sets; the reserved ones are zero. -/
structure Tss where
  rsp0 : Nat
  rsp1 : Nat
  rsp2 : Nat
  ist : List Nat
  iomapOffset : Nat
  ioPermissionMap : List UInt8

/-- `offset_of!(Tss, io_permission_map)`: the packed fields before the map. -/
def iomapOffset : Nat := 4 + 8 + 8 + 8 + 8 + 7 * 8 + 8 + 2 + 2

/-- `size_of::<Tss>()`. -/
def tssSize : Nat := iomapOffset + 8192

/-- `write_tss(cpu_id)`: the first interrupt stack is the boot stack, and every I/O port is
closed. -/
def writeTss (bspStackTop : Nat) : Tss :=
  ⟨0, 0, 0, [bspStackTop, 0, 0, 0, 0, 0, 0], iomapOffset, List.replicate 8192 0xff⟩

/-- The TSS descriptor `gdt::init` builds for the TSS at `tssBase`: `(tss_low, tss_high)`. -/
def tssDescriptor (tssBase : Nat) : Nat × Nat :=
  let tssLow := 0x0000890000000000 ||| (tssSize - 1) ||| ((tssBase &&& 0x00ff_ffff) <<< 16) |||
    ((tssBase &&& 0xff00_0000) <<< 32)
  (tssLow, tssBase >>> 32)

/-- The GDT `gdt::init` writes, for its TSS at `tssBase`. -/
def entries (tssBase : Nat) : List Nat :=
  [0x0000000000000000, 0x00af9a000000ffff, 0x00af92000000ffff, 0x0000000000000000,
    0x008ff2000000ffff, 0x00affa000000ffff, (tssDescriptor tssBase).1, (tssDescriptor tssBase).2]

/-- The fields of `tss_low`: bits 24 to 31 of the base, the type byte `0x89`, bits 0 to 23 of the
base, and the limit. -/
theorem tssDescriptor_fst (tssBase : Nat) :
    (tssDescriptor tssBase).1 = tssBase % 2 ^ 32 / 2 ^ 24 * 2 ^ 56 + 0x89 * 2 ^ 40 +
      tssBase % 2 ^ 24 * 2 ^ 16 + (tssSize - 1) := by
  have hlow : tssBase &&& 0x00ff_ffff = tssBase % 2 ^ 24 := Nat.and_two_pow_sub_one_eq_mod _ 24
  have hmid : tssBase &&& 0xff00_0000 = tssBase % 2 ^ 32 / 2 ^ 24 * 2 ^ 24 :=
    Word.land_compl_low_mask (by norm_num : 24 ≤ 32) tssBase
  have hjoin : ∀ a l x y : Nat, a ||| l ||| x ||| y = y ||| a ||| x ||| l := by
    intro a l x y
    ac_rfl
  simp only [tssDescriptor, hlow, hmid, Nat.shiftLeft_eq]
  rw [hjoin]
  have htop : tssBase % 2 ^ 32 / 2 ^ 24 * 2 ^ 24 * 2 ^ 32 ||| 0x0000890000000000 =
      tssBase % 2 ^ 32 / 2 ^ 24 * 2 ^ 56 + 0x89 * 2 ^ 40 := by
    rw [Word.lor_eq_add_of_lt (k := 56) (by omega) (by norm_num)]
    ring
  have hbase : tssBase % 2 ^ 32 / 2 ^ 24 * 2 ^ 56 + 0x89 * 2 ^ 40 ||| tssBase % 2 ^ 24 * 2 ^ 16 =
      tssBase % 2 ^ 32 / 2 ^ 24 * 2 ^ 56 + 0x89 * 2 ^ 40 + tssBase % 2 ^ 24 * 2 ^ 16 :=
    Word.lor_eq_add_of_lt (k := 40) (by omega) (by omega)
  have hsize : tssSize - 1 = 8295 := rfl
  rw [htop, hbase, hsize, Word.lor_eq_add_of_lt (k := 16) (by omega) (by norm_num)]

/-- `tss_high`: bits 32 to 63 of the base. -/
theorem tssDescriptor_snd (tssBase : Nat) : (tssDescriptor tssBase).2 = tssBase / 2 ^ 32 := by
  rw [tssDescriptor, Nat.shiftRight_eq_div_pow]

/-- `ltr GDT_TSS`: for every address of the TSS, the two entries `GDT_TSS` names read back as a
present, available 64-bit TSS of privilege `0` at that address, whose limit is the last byte of
the TSS, and the upper half of the second entry is zero. -/
theorem tss_segment {tssBase : Nat} (h : tssBase < 2 ^ 64) :
    ∃ low high, (entries tssBase)[selectorIndex gdtTss]? = some low ∧
      (entries tssBase)[selectorIndex gdtTss + 1]? = some high ∧
      Segment.ofSystemDescriptor low high = ⟨tssBase, tssSize - 1, 0x9, false, 0, true, false⟩ ∧
      high < 2 ^ 32 := by
  refine ⟨_, _, rfl, rfl, ?_, by rw [tssDescriptor_snd]; omega⟩
  have hsize : tssSize - 1 = 8295 := rfl
  simp only [Segment.ofSystemDescriptor, Segment.ofDescriptor, bitField, tssDescriptor_fst,
    tssDescriptor_snd, hsize, Segment.mk.injEq, decide_eq_true_eq, decide_eq_false_iff_not]
  refine ⟨?_, ?_, ?_, ?_, ?_, ?_, ?_⟩ <;> omega

theorem tss_segment_kernelHalf : (0xffff_8000_0010_0000 : Nat) < 2 ^ 64 ∧
    ∃ low high, (entries 0xffff_8000_0010_0000)[selectorIndex gdtTss]? = some low ∧
      (entries 0xffff_8000_0010_0000)[selectorIndex gdtTss + 1]? = some high ∧
      Segment.ofSystemDescriptor low high =
        ⟨0xffff_8000_0010_0000, tssSize - 1, 0x9, false, 0, true, false⟩ ∧
      high < 2 ^ 32 :=
  ⟨by norm_num, tss_segment (by norm_num)⟩

/-- `GDT_KERNEL_CS` names a present 64-bit code segment of privilege `0`. -/
theorem kernelCs_segment (tssBase : Nat) :
    ((entries tssBase)[selectorIndex gdtKernelCs]?).map Segment.ofDescriptor =
      some ⟨0, 0xfffff, 0xa, true, 0, true, true⟩ :=
  rfl

end Gdt

/-! ### The IDT -/

namespace Idt

/-- `IdtEntry`. -/
structure IdtEntry where
  offset0 : Nat
  selector : Nat
  ist : Nat
  gateType : Nat
  offset1 : Nat
  offset2 : Nat
  reserved : Nat
  deriving DecidableEq, Repr

/-- `IDT_ENTRY_DEFAULT`. -/
def idtEntryDefault : IdtEntry := ⟨0, 0, 0, 0, 0, 0, 0⟩

/-- `NUM_IDT_ENTRIES`. -/
def numIdtEntries : Nat := 256

/-- `INTERRUPT_HANDLER_SIZE`. -/
def interruptHandlerSize : Nat := 16

/-- The limit of the `Idtr` of `idt::init`: `NUM_IDT_ENTRIES * size_of::<IdtEntry>() - 1`. -/
def idtrLimit : Nat := numIdtEntries * 16 - 1

/-- The gate the CPU reads from an entry: the handler's address is `offset0`, `offset1` and
`offset2` end to end; the type, privilege and present bit are the fields of `gate_type`. -/
def IdtEntry.gate (e : IdtEntry) : Gate where
  offset := e.offset0 + e.offset1 * 2 ^ 16 + e.offset2 * 2 ^ 32
  selector := e.selector
  ist := e.ist % 8
  type := e.gateType % 16
  dpl := e.gateType / 32 % 4
  present := e.gateType / 128 % 2 = 1

/-- The assignments of `idt::init`'s loop to an entry, for the stub at `handler`. -/
def IdtEntry.setHandler (e : IdtEntry) (handler : Nat) : IdtEntry :=
  { e with
    offset0 := handler % 2 ^ 16
    selector := Gdt.gdtKernelCs
    -- IST1 for every exception and interrupt
    ist := 1
    gateType := 0x8e
    offset1 := (handler >>> 16) % 2 ^ 16
    offset2 := (handler >>> 32) % 2 ^ 32 }

/-- `idt::init`, on the `IDT` at boot, for the address `handlerBase` of `idt_handlers`: `none`
where `handler_base + i * INTERRUPT_HANDLER_SIZE` overflows a `u64`, which panics. -/
def init (handlerBase : Nat) : Option (List IdtEntry) :=
  (List.range numIdtEntries).mapM fun i => do
    let handler ← Word.checkedAdd 64 handlerBase (i * interruptHandlerSize)
    pure (idtEntryDefault.setHandler handler)

/-- The CPU reads back the handler written to an entry, with the kernel's code selector, on the
first interrupt stack, as a present interrupt gate of privilege `0`. -/
theorem gate_setHandler (e : IdtEntry) {handler : Nat} (h : handler < 2 ^ 64) :
    (e.setHandler handler).gate = ⟨handler, Gdt.gdtKernelCs, 1, 0xe, 0, true⟩ := by
  simp only [IdtEntry.gate, IdtEntry.setHandler, Nat.shiftRight_eq_div_pow]
  rw [Gate.mk.injEq]
  exact ⟨by omega, rfl, rfl, rfl, rfl, rfl⟩

private theorem mapM_eq_some_map {α β : Type} {f : α → Option β} {g : α → β} :
    ∀ {l : List α}, (∀ a ∈ l, f a = some (g a)) → l.mapM f = some (l.map g)
  | [], _ => rfl
  | a :: l, h => by
    rw [List.mapM_cons, h a (List.mem_cons_self ..),
      mapM_eq_some_map fun b hb => h b (List.mem_cons_of_mem _ hb)]
    rfl

private theorem mapM_eq_none {α β : Type} {f : α → Option β} :
    ∀ {l : List α}, (∃ a ∈ l, f a = none) → l.mapM f = none
  | [], ⟨_, ha, _⟩ => absurd ha List.not_mem_nil
  | a :: l, ⟨b, hb, hfb⟩ => by
    rw [List.mapM_cons]
    cases hfa : f a with
    | none => rfl
    | some c =>
      have hbl : b ∈ l := by
        rcases List.mem_cons.mp hb with rfl | hbl
        · rw [hfa] at hfb
          cases hfb
        · exact hbl
      rw [mapM_eq_none ⟨b, hbl, hfb⟩]
      rfl

/-- Every stub's address fits: `idt::init` writes each entry. -/
theorem init_of_fits {handlerBase : Nat}
    (h : handlerBase + (numIdtEntries - 1) * interruptHandlerSize ≤ Word.MAX 64) :
    init handlerBase = some ((List.range numIdtEntries).map fun i =>
      idtEntryDefault.setHandler (handlerBase + i * interruptHandlerSize)) := by
  refine mapM_eq_some_map fun i hi => ?_
  have hfit : handlerBase + i * interruptHandlerSize ≤ Word.MAX 64 := by
    rw [List.mem_range] at hi
    simp only [numIdtEntries, interruptHandlerSize] at hi h ⊢
    omega
  rw [Word.checkedAdd_eq_some.mpr ⟨hfit, rfl⟩]
  rfl

/-- The address of the last stub overflows: `idt::init` panics. -/
theorem init_of_overflow {handlerBase : Nat}
    (h : Word.MAX 64 < handlerBase + (numIdtEntries - 1) * interruptHandlerSize) :
    init handlerBase = none := by
  refine mapM_eq_none ⟨numIdtEntries - 1, List.mem_range.mpr (by decide), ?_⟩
  rw [Word.checkedAdd_eq_none.mpr h]
  rfl

/-- `idt::init` panics exactly when the address of the last stub overflows a `u64`. Otherwise
each of the 256 gates lies within the IDTR's limit, and on vector `i` the CPU enters the stub at
`handler_base + 16 * i` as a present interrupt gate of privilege `0`, with the kernel's code
selector, which names a present 64-bit code segment of privilege `0` in the GDT, and on the first
interrupt stack, which the TSS sets to the boot stack. -/
theorem init_gates (handlerBase : Nat) :
    (init handlerBase = none ↔
      Word.MAX 64 < handlerBase + (numIdtEntries - 1) * interruptHandlerSize) ∧
    ∀ idt, init handlerBase = some idt → idt.length = numIdtEntries ∧
      ∀ (i : Nat) (hi : i < idt.length), i * 16 + 15 ≤ idtrLimit ∧
        (idt[i]).gate = ⟨handlerBase + i * interruptHandlerSize, Gdt.gdtKernelCs, 1, 0xe, 0, true⟩ ∧
        (∀ tssBase, ((Gdt.entries tssBase)[selectorIndex (idt[i]).gate.selector]?).map
          Segment.ofDescriptor = some ⟨0, 0xfffff, 0xa, true, 0, true, true⟩) ∧
        ∀ bspStackTop, (Gdt.writeTss bspStackTop).ist[(idt[i]).gate.ist - 1]? = some bspStackTop := by
  by_cases hover : Word.MAX 64 < handlerBase + (numIdtEntries - 1) * interruptHandlerSize
  · refine ⟨iff_of_true (init_of_overflow hover) hover, fun idt h => ?_⟩
    rw [init_of_overflow hover] at h
    cases h
  have hfits := Nat.le_of_not_lt hover
  refine ⟨iff_of_false (by simp [init_of_fits hfits]) hover, fun idt h => ?_⟩
  rw [init_of_fits hfits, Option.some.injEq] at h
  subst h
  refine ⟨by simp, fun i hi => ?_⟩
  have hi' : i < numIdtEntries := by simpa using hi
  have hfit : handlerBase + i * interruptHandlerSize < 2 ^ 64 := by
    simp only [Word.MAX, numIdtEntries, interruptHandlerSize] at hfits hi' ⊢
    omega
  simp only [List.getElem_map, List.getElem_range]
  rw [gate_setHandler _ hfit]
  exact ⟨by simp only [idtrLimit, numIdtEntries] at hi' ⊢; omega, rfl,
    fun tssBase => Gdt.kernelCs_segment tssBase, fun bspStackTop => rfl⟩

end Idt

end Ftl

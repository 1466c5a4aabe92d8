import Mathlib
import Ftl.Lib.ByteMem
import Ftl.Lib.Once
import Ftl.Kernel.Arch.IoApic

/-!
# The MP configuration table

`kernel/src/arch/x64/mp_table.rs`. At boot the kernel looks for the MP floating pointer table of
the MultiProcessor Specification (the signature `"_MP_"`, at a multiple of four bytes in two ranges
of the BIOS areas), walks the entries of the configuration table it points to, and looks there for
the ISA bus, the I/O APIC, and the interrupt assignment of the ISA bus's IRQ 0, the timer. It then
sets up the I/O APIC and routes the timer's pin to the timer's vector. Each of the three searches
asserts that it finds one entry: a second one panics, and so does none.

The tables are `#[repr(C, packed)]` and read through the direct map; `ByteMem` is the physical
memory, and a field is the little-endian word at its offset. An entry of the configuration table
is the address it is read from. The first loop of `init`, which only traces the processors, is
left out.

## Main definitions

* `Ftl.MpTable.findMpfpTable`, `Ftl.MpTable.MpTableIter`, `Ftl.MpTable.MpTableIter.next`,
  `Ftl.MpTable.MpTableIter.toList`.
* `Ftl.MpTable.init`.

## Main results

* `Ftl.MpTable.MpTableIter.toList_eq`: the walk yields `entry_count` entries, each one after the
  one before.
* `Ftl.MpTable.foldlM_busStep_eq_ok`, `Ftl.MpTable.foldlM_timerStep_eq_ok`: the searches.
* `Ftl.MpTable.run_init_eq_ok`: `init` returns exactly when the tables hold one ISA bus, one I/O
  APIC and one assignment of the timer to a pin that I/O APIC has, and it then routes that pin.
-/

namespace Ftl.MpTable

open EStateM

/-! ### The tables -/

/-- `b"_MP_"`. -/
def mpSignature : List UInt8 := [0x5f, 0x4d, 0x50, 0x5f]

/-- `SEARCH_LOCATIONS`, as `start..end` ranges. -/
def searchLocations : List (Nat × Nat) := [(0x80000, 0x81000), (0xf0000, 0x100000)]

/-- `(start..end).step_by(step)`. -/
def stepBy (start end_ step : Nat) : List Nat :=
  (List.range ((end_ - start + step - 1) / step)).map fun i => start + step * i

/-- The addresses `find_mpfp_table` reads, in order. -/
def candidates : List Nat := searchLocations.flatMap fun r => stepBy r.1 r.2 4

/-- `find_mpfp_table()`: the first address of the search locations, four bytes at a time, that
holds `"_MP_"`. -/
def findMpfpTable (mem : ByteMem) : Option Nat :=
  candidates.find? fun paddr => mem.readBytes paddr 4 = mpSignature

/-- `size_of::<MpConfigTable>()`. -/
def mpConfigTableSize : Nat := 44

/-- `ENTRY_TYPE_PROCESSOR`. -/
def entryTypeProcessor : UInt8 := 0

/-- `ENTRY_TYPE_BUS`. -/
def entryTypeBus : UInt8 := 1

/-- `ENTRY_TYPE_IO_APIC`. -/
def entryTypeIoApic : UInt8 := 2

/-- `ENTRY_TYPE_IO_INT_ASSIGN`. -/
def entryTypeIoIntAssign : UInt8 := 3

/-- `b"ISA   "`. -/
def isaBusString : List UInt8 := [0x49, 0x53, 0x41, 0x20, 0x20, 0x20]

/-- `TIMER_IRQ` of `timer.rs`. -/
def timerIrq : Nat := 0

section Fields

variable (mem : ByteMem) (entry : Nat)

/-- `physical_addr_pointer` of the MP floating pointer table at `entry`. -/
def physicalAddrPointer : Nat := mem.readLE (entry + 4) 4

/-- `entry_count` of the MP configuration table at `entry`. -/
def entryCount : Nat := mem.readLE (entry + 34) 2

/-- `bus_id` of a bus entry. -/
def busId : UInt8 := mem (entry + 1)

/-- `bus_string` of a bus entry. -/
def busString : List UInt8 := mem.readBytes (entry + 2) 6

/-- `io_apic_id` of an I/O APIC entry. -/
def ioApicId : UInt8 := mem (entry + 1)

/-- `io_apic_address` of an I/O APIC entry. -/
def ioApicAddress : Nat := mem.readLE (entry + 4) 4

/-- `source_bus_id` of an I/O interrupt assignment entry. -/
def sourceBusId : UInt8 := mem (entry + 4)

/-- `source_bus_irq` of an I/O interrupt assignment entry. -/
def sourceBusIrq : UInt8 := mem (entry + 5)

/-- `dest_io_apic_id` of an I/O interrupt assignment entry. -/
def destIoApicId : UInt8 := mem (entry + 6)

/-- `dest_io_apic_intin` of an I/O interrupt assignment entry. -/
def destIoApicIntin : UInt8 := mem (entry + 7)

end Fields

/-! ### The walk over the configuration table -/

/-- `MpTableEntry`, by the address of the entry. -/
inductive MpTableEntry where
  | processor (entry : Nat)
  | bus (entry : Nat)
  | ioApic (entry : Nat)
  | ioInterruptAssignment (entry : Nat)
  | unknown
  deriving DecidableEq, Repr

/-- The entry at `addr`, by its type byte, and its size. -/
def entryAt (mem : ByteMem) (addr : Nat) : MpTableEntry × Nat :=
  if mem addr = entryTypeProcessor then (.processor addr, 20)
  else if mem addr = entryTypeBus then (.bus addr, 8)
  else if mem addr = entryTypeIoApic then (.ioApic addr, 8)
  else if mem addr = entryTypeIoIntAssign then (.ioInterruptAssignment addr, 8)
  else (.unknown, 8)

/-- `MpTableIter`: the configuration table, the index of the next entry, and its address. -/
structure MpTableIter where
  mpConfig : Nat
  index : Nat
  entryAddr : Nat
  deriving DecidableEq, Repr

namespace MpTableIter

variable (mem : ByteMem)

/-- `MpTableIter::new(mp_table)`: the entries follow the configuration table's header. -/
def new (mpTable : Nat) : MpTableIter :=
  ⟨physicalAddrPointer mem mpTable, 0, physicalAddrPointer mem mpTable + mpConfigTableSize⟩

/-- `MpTableIter::next`. -/
def next (it : MpTableIter) : Option (MpTableEntry × MpTableIter) :=
  if it.index ≥ entryCount mem it.mpConfig then none
  else
    let (entry, entrySize) := entryAt mem it.entryAddr
    some (entry, { it with entryAddr := it.entryAddr + entrySize, index := it.index + 1 })

theorem next_eq_some {it it' : MpTableIter} {entry : MpTableEntry} :
    it.next mem = some (entry, it') ↔
      it.index < entryCount mem it.mpConfig ∧ entry = (entryAt mem it.entryAddr).1 ∧
        it' = ⟨it.mpConfig, it.index + 1, it.entryAddr + (entryAt mem it.entryAddr).2⟩ := by
  unfold next
  by_cases h : it.index < entryCount mem it.mpConfig
  · simp only [ge_iff_le, Nat.not_le.mpr h, if_false, Option.some.injEq, Prod.mk.injEq, h,
      true_and]
    exact ⟨fun ⟨he, hi⟩ => ⟨he.symm, hi.symm⟩, fun ⟨he, hi⟩ => ⟨he.symm, hi.symm⟩⟩
  · simp only [ge_iff_le, Nat.not_lt.mp h, if_true, reduceCtorEq, h, false_and]

/-- `for entry in iter`: the entries `next` yields until it returns `None`. `next` moves
`index` up to `entry_count`, which bounds the walk. -/
def toList (it : MpTableIter) : List MpTableEntry :=
  match _h : it.next mem with
  | none => []
  | some (entry, it') => entry :: toList it'
termination_by entryCount mem it.mpConfig - it.index
decreasing_by
  obtain ⟨hlt, -, rfl⟩ := (next_eq_some mem).mp _h
  simp only
  omega

end MpTableIter

/-- The `n` entries from `addr` on, each one after the one before. -/
def entriesFrom (mem : ByteMem) : Nat → Nat → List MpTableEntry
  | 0, _ => []
  | n + 1, addr => (entryAt mem addr).1 :: entriesFrom mem n (addr + (entryAt mem addr).2)

namespace MpTableIter

variable (mem : ByteMem)

theorem next_eq_none {it : MpTableIter} :
    it.next mem = none ↔ entryCount mem it.mpConfig ≤ it.index := by
  unfold next
  by_cases h : entryCount mem it.mpConfig ≤ it.index
  · simp only [ge_iff_le, h, if_true]
  · simp only [ge_iff_le, h, if_false, reduceCtorEq]

/-- The walk yields the `entry_count - index` entries from `entry_addr` on. -/
theorem toList_eq (it : MpTableIter) :
    it.toList mem = entriesFrom mem (entryCount mem it.mpConfig - it.index) it.entryAddr := by
  fun_induction toList mem it with
  | case1 it h =>
    have hle := (next_eq_none mem).mp h
    rw [Nat.sub_eq_zero_of_le hle, entriesFrom]
  | case2 it entry it' h ih =>
    obtain ⟨hlt, rfl, rfl⟩ := (next_eq_some mem).mp h
    obtain ⟨n, hn⟩ : ∃ n, entryCount mem it.mpConfig - it.index = n + 1 :=
      ⟨entryCount mem it.mpConfig - it.index - 1, by omega⟩
    rw [hn, entriesFrom, ih]
    congr 2
    simp only
    omega

end MpTableIter

/-- The entries of the configuration table the MP floating pointer table at `mpTable` points
to. -/
def entries (mem : ByteMem) (mpTable : Nat) : List MpTableEntry :=
  (MpTableIter.new mem mpTable).toList mem

/-! ### `init` -/

/-- The ISA bus an entry is. -/
def isaBus? (mem : ByteMem) : MpTableEntry → Option Nat
  | .bus entry => if busString mem entry = isaBusString then some entry else none
  | _ => none

/-- The I/O APIC an entry is. -/
def ioApic? : MpTableEntry → Option Nat
  | .ioApic entry => some entry
  | _ => none

/-- The interrupt assignment of IRQ 0 of the bus `isaBus` an entry is. -/
def timerAssignment? (mem : ByteMem) (isaBus : Nat) : MpTableEntry → Option Nat
  | .ioInterruptAssignment entry =>
    if sourceBusId mem entry = busId mem isaBus ∧ sourceBusIrq mem entry = 0 then some entry
    else none
  | _ => none

/-- One turn of the loop that finds `isa_bus` and `ioapic`; each `assert!` panics on a second
one. -/
def busStep (mem : ByteMem) (found : Option Nat × Option Nat) :
    MpTableEntry → Except Fault (Option Nat × Option Nat)
  | .bus entry =>
    if busString mem entry = isaBusString then
      if found.1.isSome then .error .panic else .ok (some entry, found.2)
    else .ok found
  | .ioApic entry => if found.2.isSome then .error .panic else .ok (found.1, some entry)
  | _ => .ok found

/-- One turn of the loop that finds `timer_int_mapping`:
`assert!(timer_int_mapping.is_none(), "multiple timer IRQs found")`. -/
def timerStep (mem : ByteMem) (isaBus : Nat) : Option Nat → MpTableEntry → Except Fault (Option Nat) :=
  recordOnce .panic (timerAssignment? mem isaBus)

/-- `mp_table::init()`, on the physical memory `mem`. -/
def init (mem : ByteMem) : EStateM Fault Apic.State Unit := do
  let some mpTable := findMpfpTable mem | throw .panic
  let entries := (MpTableIter.new mem mpTable).toList mem
  let (isaBus, ioapic) ← liftExcept (entries.foldlM (busStep mem) (none, none))
  let some isaBus := isaBus | throw .panic
  let some ioapic := ioapic | throw .panic
  let timerIntMapping ← liftExcept (entries.foldlM (timerStep mem isaBus) none)
  let some timerIntMapping := timerIntMapping | throw .panic
  -- `assert_eq!(timer_int_mapping.dest_io_apic_id, ioapic.io_apic_id)`
  if destIoApicId mem timerIntMapping ≠ ioApicId mem ioapic then throw .panic
  Apic.init (ioApicAddress mem ioapic)
  Apic.useIoapic fun io => do
    match ← io.enableIrqAt (destIoApicIntin mem timerIntMapping).toNat timerIrq with
    | .ok () => pure ()
    | .error _ => throw .panic

/-! ### The searches -/

section Searches

variable {mem : ByteMem}

/-- The loop over the entries runs two searches at once: the ISA bus, and the I/O APIC. -/
theorem busStep_eq (found : Option Nat × Option Nat) (entry : MpTableEntry) :
    busStep mem found entry = (do
      let a ← recordOnce .panic (isaBus? mem) found.1 entry
      let b ← recordOnce .panic ioApic? found.2 entry
      pure (a, b)) := by
  obtain ⟨x, y⟩ := found
  cases entry with
  | bus e =>
    by_cases hs : busString mem e = isaBusString
    · cases x <;> simp [busStep, recordOnce, isaBus?, ioApic?, hs, bind, Except.bind, pure,
        Except.pure]
    · simp [busStep, recordOnce, isaBus?, ioApic?, hs, bind, Except.bind, pure, Except.pure]
  | ioApic e =>
    cases y <;> simp [busStep, recordOnce, isaBus?, ioApic?, bind, Except.bind, pure, Except.pure]
  | processor e | ioInterruptAssignment e | unknown =>
    simp [busStep, recordOnce, isaBus?, ioApic?, bind, Except.bind, pure, Except.pure]

/-- The loop finds the ISA bus and the I/O APIC exactly when the entries hold one of each. -/
theorem foldlM_busStep_eq_ok {es : List MpTableEntry} {isaBus ioapic : Nat} :
    es.foldlM (busStep mem) (none, none) = .ok (some isaBus, some ioapic) ↔
      es.filterMap (isaBus? mem) = [isaBus] ∧ es.filterMap ioApic? = [ioapic] := by
  have hstep : busStep mem = fun found entry => (do
      let a ← recordOnce .panic (isaBus? mem) found.1 entry
      let b ← recordOnce .panic ioApic? found.2 entry
      pure (a, b)) := funext₂ busStep_eq
  rw [hstep, foldlM_pair_eq_ok, foldlM_recordOnce_eq_ok_some, foldlM_recordOnce_eq_ok_some]

/-- The loop finds the timer's assignment exactly when the entries hold one. -/
theorem foldlM_timerStep_eq_ok {es : List MpTableEntry} {isaBus timer : Nat} :
    es.foldlM (timerStep mem isaBus) none = .ok (some timer) ↔
      es.filterMap (timerAssignment? mem isaBus) = [timer] :=
  foldlM_recordOnce_eq_ok_some

end Searches

/-! ### Routing the timer -/

/-- The firmware's tables as `init` needs them: an MP floating pointer table at `mpTable`, whose
configuration table holds one ISA bus `isaBus`, one I/O APIC `ioapic`, and one assignment `timer`
of the ISA bus's IRQ 0, to that I/O APIC. -/
structure Routes (mem : ByteMem) (mpTable isaBus ioapic timer : Nat) : Prop where
  find : findMpfpTable mem = some mpTable
  bus : (entries mem mpTable).filterMap (isaBus? mem) = [isaBus]
  apic : (entries mem mpTable).filterMap ioApic? = [ioapic]
  assignment : (entries mem mpTable).filterMap (timerAssignment? mem isaBus) = [timer]
  dest : destIoApicId mem timer = ioApicId mem ioapic

/-- The state `init` leaves: the I/O APIC of the entry `ioapic` set up, and the pin of the
assignment `timer` routed to the timer's vector. -/
def routed (s : Apic.State) (mem : ByteMem) (ioapic timer : Nat) : Apic.State :=
  (s.setUp (ioApicAddress mem ioapic)).route (paddr2vaddr (ioApicAddress mem ioapic))
    (destIoApicIntin mem timer).toNat (Apic.irqVectorBase + timerIrq)

section Init

variable {mem : ByteMem} {s : Apic.State}

theorem run_init_of_routes (hs : s.ioapic = none) {mpTable isaBus ioapic timer : Nat}
    (hr : Routes mem mpTable isaBus ioapic timer)
    (hpin : (destIoApicIntin mem timer).toNat < (s.probe (ioApicAddress mem ioapic)).numEntries) :
    (init mem).run s = .ok () (routed s mem ioapic timer) := by
  have hbus := foldlM_busStep_eq_ok.mpr ⟨hr.bus, hr.apic⟩
  have htimer := foldlM_timerStep_eq_ok.mpr hr.assignment
  rw [entries] at hbus htimer
  have hio : (Apic.init (ioApicAddress mem ioapic)).run s =
      .ok () (s.setUp (ioApicAddress mem ioapic)) := by
    rw [Apic.run_init, hs]
  unfold init
  rw [hr.find]
  dsimp only
  rw [run_bind, run_liftExcept, hbus]
  dsimp only
  rw [run_bind, run_liftExcept, htimer]
  dsimp only
  rw [if_neg (not_not.mpr hr.dest), run_bind, hio]
  dsimp only
  have hset : (s.setUp (ioApicAddress mem ioapic)).ioapic = some (s.probe (ioApicAddress mem ioapic)) :=
    rfl
  have hvec : Apic.irqVectorBase + timerIrq ≤ Word.MAX 8 := by decide
  rw [Apic.useIoapic, run_bind, run_get]
  dsimp only
  rw [hset]
  dsimp only
  rw [run_bind, Apic.run_enableIrqAt, if_neg (Nat.not_le.mpr hpin), if_pos hvec]
  rfl

theorem routes_of_run_init (hs : s.ioapic = none) {s' : Apic.State}
    (h : (init mem).run s = .ok () s') :
    ∃ mpTable isaBus ioapic timer, Routes mem mpTable isaBus ioapic timer ∧
      (destIoApicIntin mem timer).toNat < (s.probe (ioApicAddress mem ioapic)).numEntries := by
  unfold init at h
  rcases hf : findMpfpTable mem with _ | mpTable
  · rw [hf] at h
    cases h
  rw [hf] at h
  dsimp only at h
  rcases hbus : (MpTableIter.toList mem (MpTableIter.new mem mpTable)).foldlM (busStep mem)
    (none, none) with e | ⟨_ | isaBus, _ | ioapic⟩
  all_goals rw [run_bind, run_liftExcept, hbus] at h
  all_goals try cases h
  dsimp only at h
  rcases htimer : (MpTableIter.toList mem (MpTableIter.new mem mpTable)).foldlM
    (timerStep mem isaBus) none with e | _ | timer
  all_goals rw [run_bind, run_liftExcept, htimer] at h
  all_goals try cases h
  dsimp only at h
  by_cases hdest : destIoApicId mem timer = ioApicId mem ioapic
  swap
  · rw [if_pos hdest] at h
    cases h
  have hio : (Apic.init (ioApicAddress mem ioapic)).run s =
      .ok () (s.setUp (ioApicAddress mem ioapic)) := by
    rw [Apic.run_init, hs]
  rw [if_neg (not_not.mpr hdest), run_bind, hio] at h
  dsimp only at h
  have hset : (s.setUp (ioApicAddress mem ioapic)).ioapic = some (s.probe (ioApicAddress mem ioapic)) :=
    rfl
  rw [Apic.useIoapic, run_bind, run_get] at h
  dsimp only at h
  rw [hset] at h
  dsimp only at h
  by_cases hpin : (s.probe (ioApicAddress mem ioapic)).numEntries ≤ (destIoApicIntin mem timer).toNat
  · rw [run_bind, Apic.run_enableIrqAt, if_pos hpin] at h
    cases h
  refine ⟨mpTable, isaBus, ioapic, timer, ⟨hf, ?_, ?_, ?_, hdest⟩, Nat.lt_of_not_le hpin⟩
  · exact (foldlM_busStep_eq_ok.mp hbus).1
  · exact (foldlM_busStep_eq_ok.mp hbus).2
  · exact foldlM_timerStep_eq_ok.mp htimer

/-- `mp_table::init()` at boot, with no I/O APIC set up: it returns exactly when the firmware's
tables hold one ISA bus, one I/O APIC, and one assignment of the ISA bus's IRQ 0, to that I/O
APIC, on a pin below the number of redirection entries the I/O APIC reports; the I/O APIC is then
set up, and the pin's redirection entry holds the timer's vector, `32`, and destination `0`. -/
theorem run_init_eq_ok (hs : s.ioapic = none) {s' : Apic.State} :
    (init mem).run s = .ok () s' ↔
      ∃ mpTable isaBus ioapic timer, Routes mem mpTable isaBus ioapic timer ∧
        (destIoApicIntin mem timer).toNat < (s.probe (ioApicAddress mem ioapic)).numEntries ∧
        s' = routed s mem ioapic timer := by
  constructor
  · intro h
    obtain ⟨mpTable, isaBus, ioapic, timer, hr, hpin⟩ := routes_of_run_init hs h
    refine ⟨mpTable, isaBus, ioapic, timer, hr, hpin, ?_⟩
    rw [run_init_of_routes hs hr hpin] at h
    injection h with _ h
    exact h.symm
  · rintro ⟨mpTable, isaBus, ioapic, timer, hr, hpin, rfl⟩
    exact run_init_of_routes hs hr hpin

/-- Firmware tables reduced to what `init` reads: at `0x80000` the MP floating pointer table,
pointing at the configuration table at `0x80010`, whose three entries from `0x8003c` are the ISA
bus `0`, the I/O APIC `2` at `0xfec0_0000`, and the assignment of the ISA bus's IRQ 0 to pin `2`
of that I/O APIC. -/
def biosTables : List UInt8 :=
  mpSignature ++ [0x10, 0x00, 0x08, 0x00] ++ List.replicate 8 0 ++
    [0x50, 0x43, 0x4d, 0x50] ++ List.replicate 30 0 ++ [3, 0] ++ List.replicate 8 0 ++
    [1, 0] ++ isaBusString ++
    [2, 2, 0x11, 1, 0x00, 0x00, 0xc0, 0xfe] ++
    [3, 0, 0, 0, 0, 0, 2, 2]

/-- The memory holding `biosTables`. -/
def biosMem : ByteMem := ByteMem.zero.writeBytes 0x80000 biosTables

/-- No I/O APIC set up yet; the version register of every I/O APIC reports 24 redirection
entries. -/
def bootState : Apic.State :=
  ⟨none, fun _ => 0, fun _ reg => if reg = Apic.regIoapicver then 0x17_0011 else 0⟩

/-- `init` on these tables routes pin `2` of the I/O APIC to the timer's vector. -/
theorem run_init_eq_ok_bios :
    bootState.ioapic = none ∧
      (init biosMem).run bootState = .ok () (routed bootState biosMem 0x80044 0x8004c) := by
  have hr : Routes biosMem 0x80000 0x8003c 0x80044 0x8004c := by
    refine ⟨by decide +kernel, ?_, ?_, ?_, by decide⟩ <;> rw [entries, MpTableIter.toList_eq] <;>
      decide +kernel
  exact ⟨rfl, (run_init_eq_ok rfl).mpr ⟨0x80000, 0x8003c, 0x80044, 0x8004c, hr, by decide, rfl⟩⟩

end Init

end Ftl.MpTable

import Mathlib
import Ftl.Lib.Word
import Ftl.Api.Types
import Ftl.Kernel.Boot
import Ftl.Lib.Focus

/-!
# The I/O APIC

`kernel/src/arch/x64/io_apic.rs`. An I/O APIC is reached through a window of two registers at
its base address: a write to `IOREGSEL` selects one of its registers, and `IOWIN` then reads or
writes the selected one. The kernel keeps the one I/O APIC it drives in `IOAPIC`, with the number of
redirection entries its version register reports, and routes a pin to a vector by writing the
pin's redirection entry, in two 32-bit halves.

The state is `IOAPIC` and what lies behind every window: its `IOREGSEL` and its registers, by the
window's address. `enable_irq_at` adds `IRQ_VECTOR_BASE + irq` in `u8`, which panics on overflow
in the default (debug) profile; the `SpinLock` around `IOAPIC` is left out (one CPU).

## Main definitions

* `Ftl.Apic.State`, `Ftl.Apic.readIoapic`, `Ftl.Apic.writeIoapic`.
* `Ftl.Apic.IoApic.init`, `Ftl.Apic.IoApic.enableIrqAt`.
* `Ftl.Apic.init`, `Ftl.Apic.useIoapic`, `Ftl.Apic.interruptAcquire`.

## Main results

* `Ftl.Apic.run_enableIrqAt`: a pin out of bounds is refused and nothing changes; otherwise the
  vector overflows and the kernel panics, or the pin's redirection entry is written and no other
  register.
* `Ftl.Apic.run_init`: `io_apic::init` reads the version register of the window it is given,
  unless an I/O APIC is already set up.
-/

namespace Ftl.Apic

open EStateM

/-- `REG_IOAPICVER`. -/
def regIoapicver : Nat := 0x01

/-- `REDIR_TABLE_BASE`. -/
def redirTableBase : Nat := 0x10

/-- `IRQ_VECTOR_BASE`. -/
def irqVectorBase : Nat := 32

/-- `redir_reg_low(irq)`. -/
def redirRegLow (irq : Nat) : Nat := redirTableBase + irq * 2

/-- `redir_reg_high(irq)`. -/
def redirRegHigh (irq : Nat) : Nat := redirRegLow irq + 1

/-- `IoApic`: the address of its window (a kernel virtual address) and `num_entries`. -/
structure IoApic where
  base : Nat
  numEntries : Nat
  deriving DecidableEq, Repr

/-- `IOAPIC`, and behind the window at each address, `IOREGSEL` and the registers. -/
structure State where
  ioapic : Option IoApic
  ioregsel : Nat → Nat
  registers : Nat → Nat → Nat

/-- `read_ioapic(base, reg)`: select `reg` in `IOREGSEL`, then read `IOWIN`. -/
def readIoapic (base reg : Nat) : EStateM Fault State Nat := do
  modify fun s => { s with ioregsel := Function.update s.ioregsel base reg }
  let s ← get
  return s.registers base (s.ioregsel base)

/-- `write_ioapic(base, reg, value)`: select `reg` in `IOREGSEL`, then write `IOWIN`. -/
def writeIoapic (base reg value : Nat) : EStateM Fault State Unit := do
  modify fun s => { s with ioregsel := Function.update s.ioregsel base reg }
  modify fun s => { s with
    registers := Function.update s.registers base
      (Function.update (s.registers base) (s.ioregsel base) value) }

/-- `IoApic::init(base)`: the number of redirection entries is bits 16..23 of the version
register. -/
def IoApic.init (base : Nat) : EStateM Fault State IoApic := do
  let ver ← readIoapic base regIoapicver
  let numEntries := (ver >>> 16) &&& 0xff
  return ⟨base, numEntries⟩

/-- `IoApic::enable_irq_at(redir_index, irq)`. -/
def IoApic.enableIrqAt (self : IoApic) (redirIndex irq : Nat) :
    EStateM Fault State (Except ErrorCode Unit) :=
  if redirIndex ≥ self.numEntries then pure (.error .outOfBounds)
  else do
    let some vector := Word.checkedAdd 8 irqVectorBase irq | throw .panic
    -- unmasked, edge-triggered, active-high, fixed delivery; destination: the BSP
    writeIoapic self.base (redirRegLow redirIndex) vector
    writeIoapic self.base (redirRegHigh redirIndex) 0
    return .ok ()

/-- `IoApic::enable_irq(irq)`. -/
def IoApic.enableIrq (self : IoApic) (irq : Nat) : EStateM Fault State (Except ErrorCode Unit) :=
  self.enableIrqAt irq irq

/-- `use_ioapic(f)`. -/
def useIoapic {α : Type} (f : IoApic → EStateM Fault State α) : EStateM Fault State α := do
  -- `.expect("I/O APIC is not initialized")`
  let some ioapic := (← get).ioapic | throw .panic
  f ioapic

/-- `io_apic::init(base)`, for the physical address `base`. -/
def init (base : Nat) : EStateM Fault State Unit := do
  match (← get).ioapic with
  | some _ => pure ()
  | none =>
    let ioapic ← IoApic.init (paddr2vaddr base)
    modify fun s => { s with ioapic := some ioapic }

/-- `interrupt_acquire(irq)`. -/
def interruptAcquire (irq : Nat) : EStateM Fault State (Except ErrorCode Unit) := do
  let some ioapic := (← get).ioapic | throw .panic
  ioapic.enableIrq irq

/-! ### The registers -/

/-- The state after the redirection entry of `pin` of the I/O APIC at `base` is set to `vector`
and destination `0`: the high half was written last, so `IOREGSEL` selects it. -/
def State.route (s : State) (base pin vector : Nat) : State :=
  { s with
    ioregsel := Function.update s.ioregsel base (redirRegHigh pin)
    registers := Function.update s.registers base
      (Function.update (Function.update (s.registers base) (redirRegLow pin) vector)
        (redirRegHigh pin) 0) }

/-- The I/O APIC that `io_apic::init(base)` sets up: the window of `base` in the direct map, with
the number of redirection entries its version register reports. -/
def State.probe (s : State) (base : Nat) : IoApic :=
  ⟨paddr2vaddr base, (s.registers (paddr2vaddr base) regIoapicver >>> 16) &&& 0xff⟩

/-- The state after `io_apic::init(base)` reads the version register and keeps the I/O APIC. -/
def State.setUp (s : State) (base : Nat) : State :=
  { s with
    ioapic := some (s.probe base)
    ioregsel := Function.update s.ioregsel (paddr2vaddr base) regIoapicver }

section Registers

variable (s : State)

theorem run_readIoapic (base reg : Nat) :
    (readIoapic base reg).run s =
      .ok (s.registers base reg) { s with ioregsel := Function.update s.ioregsel base reg } := by
  simp only [readIoapic, run_bind, run_modify, run_get, run_pure, Function.update_self]

theorem run_writeIoapic (base reg value : Nat) :
    (writeIoapic base reg value).run s =
      .ok () { s with
        ioregsel := Function.update s.ioregsel base reg
        registers := Function.update s.registers base
          (Function.update (s.registers base) reg value) } := by
  simp only [writeIoapic, run_bind, run_modify, Function.update_self]

end Registers

/-! ### Routing a pin -/

section Route

variable {s : State} {io : IoApic}

/-- `enable_irq_at`: a pin out of bounds is refused with `OUT_OF_BOUNDS` and nothing changes;
otherwise the kernel panics when `IRQ_VECTOR_BASE + irq` overflows a `u8`, and else the pin's
redirection entry holds the vector and destination `0`, and no other register changes. -/
theorem run_enableIrqAt (io : IoApic) (redirIndex irq : Nat) (s : State) :
    (io.enableIrqAt redirIndex irq).run s =
      if io.numEntries ≤ redirIndex then .ok (.error .outOfBounds) s
      else if irqVectorBase + irq ≤ Word.MAX 8 then
        .ok (.ok ()) (s.route io.base redirIndex (irqVectorBase + irq))
      else .error .panic s := by
  by_cases hb : io.numEntries ≤ redirIndex
  · simp only [IoApic.enableIrqAt, ge_iff_le, hb, if_true, run_pure]
  rw [if_neg hb]
  by_cases hv : irqVectorBase + irq ≤ Word.MAX 8
  · have hadd : Word.checkedAdd 8 irqVectorBase irq = some (irqVectorBase + irq) :=
      Word.checkedAdd_eq_some.mpr ⟨hv, rfl⟩
    simp only [IoApic.enableIrqAt, ge_iff_le, hb, if_false, hadd, hv, if_true, run_bind,
      run_writeIoapic, run_pure, Function.update_self, Function.update_idem, State.route]
  · have hadd : Word.checkedAdd 8 irqVectorBase irq = none := Word.checkedAdd_eq_none.mpr (by omega)
    simp only [IoApic.enableIrqAt, ge_iff_le, hb, if_false, hadd, hv]
    rfl

/-- `io_apic::init(base)`: with no I/O APIC set up yet, the kernel reads the version register at
the window of `base` in the direct map, and keeps its number of redirection entries; otherwise
nothing happens. -/
theorem run_init (base : Nat) (s : State) :
    (init base).run s =
      match s.ioapic with
      | some _ => .ok () s
      | none => .ok () (s.setUp base) := by
  cases hs : s.ioapic with
  | some io => simp only [init, run_bind, run_get, hs, run_pure]
  | none =>
    simp only [init, run_bind, run_get, hs, IoApic.init, run_readIoapic, run_pure, run_modify]
    rfl

end Route

end Ftl.Apic

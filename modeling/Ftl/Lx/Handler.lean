import Mathlib
import Ftl.Lx.Syscall
import Ftl.Kernel.Thread.Calls

/-!
# The Linux server's Syscall upcall

`servers/lx/src/process.rs` and `servers/lx/src/syscall.rs`. When a thread of the program the Lx
server runs executes `syscall`, the kernel blocks it and invokes its Syscall upcall; the server's
handler `ThreadContext::syscall` reads the arguments with `get_context`, runs `handle_syscall`,
and unless the thread exited, writes the return value with `set_context` and unblocks the thread.
Each of these is a call into the kernel (`Ftl.Kernel.call`) whose error the handler `.expect(..)`s,
so the handler is a program over the kernel's state, and it panics when a call fails.

The kernel's model holds no registers: the arguments `get_context(SyscallArgs)` reads are given
to the handler, and the value `set_context(Sysret)` writes is what the handler returns. User
memory is `read`, as for `Ftl.Lx.sysWrite`.

For every reachable state in which the kernel has just invoked the Syscall upcall of a thread
whose handle the server holds, and every syscall, the handler does what `answer` says: none of
its calls fails, since the thread stays blocked until the handler unblocks it; it panics exactly
when `sys_write` or `sys_writev` does; `exit` and `exit_group` terminate the thread without
invoking its Terminated upcall, which the return of the Syscall upcall invokes; every other
syscall returns its value and the thread is runnable at the back of the runqueue (`run_syscall`).
This is the doc of `Thread::terminate`: "Safe to call from its syscall handler".

## Main definitions

* `Ftl.Lx.handleSyscall`, `Ftl.Lx.syscall`.
* `Ftl.Lx.answer`: what `handle_syscall` returns for a blocked thread.
* `Ftl.Lx.InSyscall`: the kernel during the Syscall upcall of a thread.

## Main results

* `Ftl.Lx.InSyscall.of_syscall`: the upcall starts with the thread blocked.
* `Ftl.Lx.InSyscall.run_handleSyscall`.
* `Ftl.Lx.run_syscall`.
-/

namespace Ftl.Lx

open Kernel EStateM

/-! ### The handler -/

/-- `SyscallArgs`: the syscall number and its first three arguments, the registers `rax`, `rdi`,
`rsi` and `rdx` that `get_context(SyscallArgs)` reads. -/
structure SyscallArgs where
  n : Nat
  arg0 : Nat
  arg1 : Nat
  arg2 : Nat
  deriving DecidableEq, Repr

namespace Sys

/-- `SYS_WRITE`. -/
def write : Nat := 1

/-- `SYS_WRITEV`. -/
def writev : Nat := 20

/-- `SYS_ARCH_PRCTL`. -/
def archPrctl : Nat := 158

/-- `SYS_EXIT`. -/
def exit : Nat := 60

/-- `SYS_SET_TID_ADDRESS`. -/
def setTidAddress : Nat := 218

/-- `SYS_EXIT_GROUP`. -/
def exitGroup : Nat := 231

end Sys

/-- `ARCH_SET_FS`. -/
def archSetFs : Int := 0x1002

/-- The number of an `Errno`. -/
def Errno.raw : Errno → Int
  | .ebadf => 9
  | .efault => 14
  | .einval => 22
  | .enosys => 38

/-- `Errno::to_retval`. -/
def Errno.toRetval (e : Errno) : Int := -e.raw

/-- `result.unwrap_or_else(Errno::to_retval)`. -/
def retvalOf : Except Errno Int → Int
  | .ok v => v
  | .error e => e.toRetval

/-- `SyscallOutput`. -/
inductive SyscallOutput where
  | done (retval : Except Errno Int)
  /-- The thread exited. -/
  | exit

/-- A call into the kernel whose result the server `.expect(..)`s: an error panics. -/
def expectOk (c : Call) : EStateM Fault Kernel Unit := do
  match ← call c with
  | .ok () => pure ()
  | .error _ => throw .panic

/-- A result of `sys_write` or `sys_writev`, where `none` is a panic. -/
def orPanic {α : Type} : Option α → EStateM Fault Kernel α
  | some a => pure a
  | none => throw .panic

/-- `sys_arch_prctl(thread, code, addr)`: `ARCH_SET_FS` writes `addr` to the thread's `fsbase`,
a register the kernel's model does not hold. -/
def sysArchPrctl (thread : Handle) (code _addr : Int) : EStateM Fault Kernel (Except Errno Int) :=
  if code = archSetFs then do
    match ← call (.threadSetContext thread) with
    | .error _ => return .error .einval
    | .ok () => return .ok 0
  else return .error .enosys

/-- `handle_syscall(process, thread, args)`; `read` is `process.vmspace().read_bytes`. -/
def handleSyscall (read : Nat → Nat → Except ErrorCode (List UInt8)) (thread : Handle)
    (args : SyscallArgs) : EStateM Fault Kernel SyscallOutput :=
  if args.n = Sys.exit ∨ args.n = Sys.exitGroup then do
    expectOk (.threadTerminate thread)
    return .exit
  else do
    let retval ←
      if args.n = Sys.write then
        orPanic (sysWrite read args.arg0 (Word.toSigned 64 args.arg1) (Word.toSigned 64 args.arg2))
      else if args.n = Sys.writev then
        orPanic (sysWritev read args.arg0 (Word.toSigned 64 args.arg1) (Word.toSigned 64 args.arg2))
      else if args.n = Sys.archPrctl then
        sysArchPrctl thread (Word.toSigned 64 args.arg0) (Word.toSigned 64 args.arg1)
      else if args.n = Sys.setTidAddress then pure (.ok 1000)
      else pure (.error .enosys)
    return .done retval

/-- `ThreadContext::syscall(thread)`, the handler of the Syscall upcall, given the arguments
`get_context` reads; it returns the value `set_context(Sysret)` writes, `none` when the thread
exited. -/
def syscall (read : Nat → Nat → Except ErrorCode (List UInt8)) (thread : Handle)
    (args : SyscallArgs) : EStateM Fault Kernel (Option Nat) := do
  expectOk (.threadGetContext thread)
  match ← handleSyscall read thread args with
  | .exit => return none
  | .done result =>
    let retval := retvalOf result
    expectOk (.threadSetContext thread)
    expectOk (.threadUnblock thread)
    -- `retval as u64`
    return some (Word.ofInt 64 retval)

/-- What `handle_syscall` returns when the thread is blocked, so that its calls succeed: `none`
when it panics. -/
def answer (read : Nat → Nat → Except ErrorCode (List UInt8)) (args : SyscallArgs) :
    Option SyscallOutput :=
  if args.n = Sys.exit ∨ args.n = Sys.exitGroup then some .exit
  else if args.n = Sys.write then
    (sysWrite read args.arg0 (Word.toSigned 64 args.arg1) (Word.toSigned 64 args.arg2)).map .done
  else if args.n = Sys.writev then
    (sysWritev read args.arg0 (Word.toSigned 64 args.arg1) (Word.toSigned 64 args.arg2)).map .done
  else if args.n = Sys.archPrctl then
    some (.done (if Word.toSigned 64 args.arg0 = archSetFs then .ok 0 else .error .enosys))
  else if args.n = Sys.setTidAddress then some (.done (.ok 1000))
  else some (.done (.error .enosys))

/-- The handle `thread_create` gives the server for the thread at `t`. -/
def threadHandle (t : Nat) : Handle := SharedRef.intoHandle t .thread threadRight

theorem run_expectOk_of_ok {c : Call} {s s' : Kernel} (h : (call c).run s = .ok (.ok ()) s') :
    (expectOk c).run s = .ok () s' := by
  rw [expectOk, run_bind_of_ok h]
  rfl

theorem run_orPanic_none {α : Type} (s : Kernel) : (orPanic (none : Option α)).run s = .error .panic s :=
  rfl

theorem run_orPanic_some {α : Type} (a : α) (s : Kernel) : (orPanic (some a)).run s = .ok a s :=
  rfl

/-! ### The kernel during an upcall -/

/-- The kernel while a handler of the server runs: a reachable state inside an upcall, related to
the abstract state `σ`. -/
structure InUpcall (s : Kernel) (σ : ThreadSystem) : Prop where
  reachable : s.Reachable
  inv : σ.Inv
  sound : ∃ leak, Sound s [] leak
  sim : Sim s σ
  frames : s.frames ≠ []

/-- The kernel while the server handles the Syscall upcall of `t`: a reachable state, related to
the abstract state `σ`, in which this upcall is the only one under way and the server holds
`t`'s handle. -/
structure InSyscall (s : Kernel) (σ : ThreadSystem) (t : Nat) : Prop where
  reachable : s.Reachable
  inv : σ.Inv
  sound : ∃ leak, Sound s [] leak
  sim : Sim s σ
  frames : s.frames = [.syscall t]
  handle : threadHandle t ∈ s.handles

section InSyscall

variable {s s₁ : Kernel} {σ σ' : ThreadSystem} {t : Nat} {m : Mutable}

theorem threadRight_contains_read : threadRight.contains .READ = true := by decide

theorem threadRight_contains_write : threadRight.contains .WRITE = true := by decide

/-- The thread of the upcall has exactly this upcall under way. -/
theorem InSyscall.inUpcalls (h : InSyscall s σ t) (hm : σ.mutable t = some m) :
    m.inUpcalls = 1 := by
  rw [h.inv.inUpcalls t m hm, ← h.sim.frames, h.frames]
  simp

/-- A call of the handler on handles it holds, whose abstract action keeps the stack of frames:
it returns, and the kernel is still in the upcall, related to the action's result. -/
theorem InUpcall.call (h : InUpcall s σ) (c : Call) (hc : ∀ hd ∈ c.handle?, hd ∈ s.handles)
    (hσ : σ.step (c.action s.heap.next) = some σ') (hf : σ'.frames = σ.frames) :
    ∃ r s', (Kernel.call c).run s = .ok r s' ∧ Next s (.call c) s' ∧ InUpcall s' σ' := by
  obtain ⟨leak, hs⟩ := h.sound
  have he : enabled s (.call c) = true := by
    simpa [enabled, h.frames, Option.all_eq_true] using hc
  obtain ⟨r, s', hrun, hn⟩ := h.reachable.run_call he
  obtain ⟨σ'', hn', hs', hR'⟩ := hn.refines hs h.sim h.inv
  obtain rfl : σ'' = σ' := Option.some.inj (hn'.2.symm.trans hσ)
  refine ⟨r, s', hrun, hn, Reach.step h.reachable hn, h.inv.step hn', ⟨_, hs'⟩, hR', ?_⟩
  rw [hR'.frames, hf, ← h.sim.frames]
  exact h.frames

/-- Two states of one upcall, related to abstract states with the same frames, have the same
frames. -/
theorem InUpcall.frames_eq {s' : Kernel} (h : InUpcall s σ) (h' : InUpcall s' σ')
    (hf : σ'.frames = σ.frames) : s'.frames = s.frames := by
  rw [h'.sim.frames, hf, h.sim.frames]

/-- What the kernel shows of the abstract state, for a thread the server holds. -/
theorem InUpcall.observe (h : InUpcall s σ) (hh : threadHandle t ∈ s.handles)
    (hm : σ.mutable t = some m) :
    s.upcalls = σ.upcalls ∧ s.runqueue = σ.runqueue ∧
      ∃ vs, s.heap.value? t = some (.thread m vs) := by
  obtain ⟨leak, hs⟩ := h.sound
  exact ⟨h.sim.upcalls, h.sim.runqueue, Sim.value_of_handle hs h.sim hh rfl hm⟩

/-- `get_context` and `set_context` on a blocked thread the server holds succeed and change
nothing the abstract system sees. -/
theorem InUpcall.context {c : Call} (h : InUpcall s σ) (hh : threadHandle t ∈ s.handles)
    (hm : σ.mutable t = some m) (hb : m.state = .blocked)
    (hc : c = .threadGetContext (threadHandle t) ∨ c = .threadSetContext (threadHandle t)) :
    ∃ s', (Kernel.call c).run s = .ok (.ok ()) s' ∧ InUpcall s' σ ∧ s'.handles = s.handles := by
  obtain ⟨leak, hs⟩ := h.sound
  obtain ⟨vs, hv⟩ := (h.observe hh hm).2.2
  obtain ⟨action, hright, hcall⟩ : ∃ action, threadRight.contains action = true ∧
      Kernel.call c = contextCall action (threadHandle t) := by
    rcases hc with rfl | rfl
    · exact ⟨.READ, threadRight_contains_read, rfl⟩
    · exact ⟨.WRITE, threadRight_contains_write, rfl⟩
  have hskip : c.action s.heap.next = .skip := by
    rcases hc with rfl | rfl <;> rfl
  obtain ⟨r, s', hrun, -, h'⟩ := h.call c (by rcases hc with rfl | rfl <;> simp [Call.handle?, hh])
    (by rw [hskip]; rfl) rfl
  rw [hcall] at hrun
  have hr := contextCall_result hs hh ⟨rfl, hright⟩ hv hrun
  rw [if_pos hb] at hr
  have hhandles : s'.handles = s.handles := by
    have := keeps_handles_contextCall action (threadHandle t) s
    rwa [hrun] at this
  exact ⟨s', hcall ▸ hr ▸ hrun, h', hhandles⟩

/-- `unblock` on a blocked thread the server holds succeeds: it is runnable, at the back of the
runqueue. -/
theorem InUpcall.unblock (h : InUpcall s σ) (hh : threadHandle t ∈ s.handles)
    (hm : σ.mutable t = some m) (hb : m.state = .blocked) :
    ∃ s', (Kernel.call (.threadUnblock (threadHandle t))).run s = .ok (.ok ()) s' ∧
      InUpcall s' { σ.setMutable t { m with state := .runnable } with
        runqueue := σ.runqueue ++ [t] } ∧ s'.handles = s.handles := by
  obtain ⟨leak, hs⟩ := h.sound
  obtain ⟨vs, hv⟩ := (h.observe hh hm).2.2
  have hσ : σ.step (Call.action s.heap.next (.threadUnblock (threadHandle t))) =
      some { σ.setMutable t { m with state := .runnable } with runqueue := σ.runqueue ++ [t] } := by
    simp [Call.action, threadHandle, SharedRef.intoHandle, threadRight_contains_write,
      ThreadSystem.step, ThreadSystem.unblock, hm, hb]
  obtain ⟨r, s', hrun, -, h'⟩ := h.call (.threadUnblock (threadHandle t)) (by simp [Call.handle?, hh])
    hσ rfl
  have hr := threadUnblock_result hs hh ⟨rfl, threadRight_contains_write⟩ hv hrun
  rw [if_pos hb] at hr
  have hhandles : s'.handles = s.handles := by
    have hkeep : Keeps handles (Kernel.call (.threadUnblock (threadHandle t))) :=
      keeps_handles_threadUnblock _
    have := hkeep s
    rwa [hrun] at this
  exact ⟨s', hr ▸ hrun, h', hhandles⟩

theorem InSyscall.toInUpcall (h : InSyscall s σ t) : InUpcall s σ :=
  ⟨h.reachable, h.inv, h.sound, h.sim, by simp [h.frames]⟩

/-- What the kernel shows of the abstract state. -/
theorem InSyscall.observe (h : InSyscall s σ t) (hm : σ.mutable t = some m) :
    s.upcalls = σ.upcalls ∧ s.runqueue = σ.runqueue ∧
      ∃ vs, s.heap.value? t = some (.thread m vs) :=
  h.toInUpcall.observe h.handle hm

/-- A state of the upcall a step of `h` leads to, with the same frames and handles. -/
theorem InSyscall.of_inUpcall {s' : Kernel} (h : InSyscall s σ t) (h' : InUpcall s' σ')
    (hf : σ'.frames = σ.frames) (hh : s'.handles = s.handles) : InSyscall s' σ' t :=
  ⟨h'.reachable, h'.inv, h'.sound, h'.sim, by rw [h.toInUpcall.frames_eq h' hf, h.frames],
    hh ▸ h.handle⟩

/-- A call of the handler on its thread's handle, whose abstract action keeps the stack of
frames: it returns, and the kernel is still in the upcall, related to the action's result. -/
theorem InSyscall.call (h : InSyscall s σ t) (c : Call) (hc : c.handle? = some (threadHandle t))
    (hkeep : Keeps handles (Kernel.call c)) (hσ : σ.step (c.action s.heap.next) = some σ')
    (hf : σ'.frames = σ.frames) :
    ∃ r s', (Kernel.call c).run s = .ok r s' ∧ InSyscall s' σ' t := by
  obtain ⟨r, s', hrun, -, h'⟩ := h.toInUpcall.call c (by simp [hc, h.handle]) hσ hf
  have hhandles : s'.handles = s.handles := by
    have := hkeep s
    rwa [hrun] at this
  exact ⟨r, s', hrun, h.of_inUpcall h' hf hhandles⟩

/-- `get_context` and `set_context` on the blocked thread succeed and change nothing the
abstract system sees. -/
theorem InSyscall.context {c : Call} (h : InSyscall s σ t) (hm : σ.mutable t = some m)
    (hb : m.state = .blocked)
    (hc : c = .threadGetContext (threadHandle t) ∨ c = .threadSetContext (threadHandle t)) :
    ∃ s', (Kernel.call c).run s = .ok (.ok ()) s' ∧ InSyscall s' σ t := by
  obtain ⟨s', hrun, h', hh⟩ := h.toInUpcall.context h.handle hm hb hc
  exact ⟨s', hrun, h.of_inUpcall h' rfl hh⟩

/-- `terminate` on the thread in its own Syscall upcall succeeds, and only marks the thread
terminated: its Terminated upcall waits for the end of the Syscall upcall. -/
theorem InSyscall.terminate (h : InSyscall s σ t) (hm : σ.mutable t = some m)
    (hnt : m.state ≠ .terminated) :
    ∃ s', (Kernel.call (.threadTerminate (threadHandle t))).run s = .ok (.ok ()) s' ∧
      InSyscall s' (σ.setMutable t { m with state := .terminated }) t := by
  obtain ⟨leak, hs⟩ := h.sound
  obtain ⟨vs, hv⟩ := (h.observe hm).2.2
  have h0 : m.inUpcalls ≠ 0 := by
    rw [h.inUpcalls hm]
    decide
  have hσ : σ.step (Call.action s.heap.next (.threadTerminate (threadHandle t))) =
      some (σ.setMutable t { m with state := .terminated }) := by
    simp [Call.action, threadHandle, SharedRef.intoHandle, threadRight_contains_write,
      ThreadSystem.step, ThreadSystem.terminate, hm, hnt, h0]
  obtain ⟨r, s', hrun, h'⟩ := h.call (.threadTerminate (threadHandle t)) rfl (keeps_handles_threadTerminate _) hσ rfl
  have hr := threadTerminate_result hs h.handle ⟨rfl, threadRight_contains_write⟩ hv hrun
  rw [if_neg hnt] at hr
  exact ⟨s', hr ▸ hrun, h'⟩

/-- `unblock` on the blocked thread succeeds: it is runnable, at the back of the runqueue. -/
theorem InSyscall.unblock (h : InSyscall s σ t) (hm : σ.mutable t = some m)
    (hb : m.state = .blocked) :
    ∃ s', (Kernel.call (.threadUnblock (threadHandle t))).run s = .ok (.ok ()) s' ∧
      InSyscall s' { σ.setMutable t { m with state := .runnable } with
        runqueue := σ.runqueue ++ [t] } t := by
  obtain ⟨s', hrun, h', hh⟩ := h.toInUpcall.unblock h.handle hm hb
  exact ⟨s', hrun, h.of_inUpcall h' rfl hh⟩

/-- The upcall starts blocked: when the syscall of a reachable state invokes the Syscall upcall
of `t`, the thread is blocked with this one upcall under way. -/
theorem InSyscall.of_syscall (hs : s.Reachable) (hn : Next s .syscall s₁)
    (hf : s₁.frames = [.syscall t]) (hh : threadHandle t ∈ s₁.handles) :
    ∃ σ, InSyscall s₁ σ t ∧ σ.mutable t = some ⟨.blocked, 1⟩ := by
  obtain ⟨σ₀, leak, hσ₀, hs₀, hR₀⟩ := hs.refines
  obtain ⟨σ₁, hn', hs₁, hR₁⟩ := hn.refines hs₀ hR₀ (ThreadSystem.Reachable.inv hσ₀)
  have h₁ : InSyscall s₁ σ₁ t :=
    ⟨Reach.step hs hn, (ThreadSystem.Reachable.inv hσ₀).step hn', ⟨_, hs₁⟩, hR₁, hf, hh⟩
  obtain ⟨-, m, -, -, hm₁⟩ := ThreadSystem.handleSyscall_of_frames hn'.2
    (by rw [← hR₀.frames, hn.frames_of_syscall]) (by rw [← hR₁.frames, hf])
  have hk : m.inUpcalls + 1 = 1 := h₁.inUpcalls hm₁
  exact ⟨σ₁, h₁, by rw [hm₁, hk]⟩

/-- When the handler returns with its thread terminated, the end of the Syscall upcall invokes
the thread's Terminated upcall. -/
theorem InSyscall.upcallReturn_terminated (h : InSyscall s σ t)
    (hm : σ.mutable t = some ⟨.terminated, 1⟩) :
    ∃ s', Next s .upcallReturn s' ∧ s'.frames = [.syscallTerminated t] ∧
      s'.upcalls = s.upcalls ++ [(t, .terminated)] := by
  obtain ⟨leak, hs⟩ := h.sound
  have hf : σ.frames = [.syscall t] := by rw [← h.sim.frames, h.frames]
  have hσ' : σ.step (Event.upcallReturn.action s) = some (({ σ with frames := [] }.setMutable t
      ⟨.terminated, 0⟩).invoke t .terminated (.syscallTerminated t)) := by
    simp [Event.action, ThreadSystem.step, ThreadSystem.upcallReturn, hf,
      ThreadSystem.afterSyscallUpcall, hm]
  obtain ⟨s', hn, -, hR'⟩ := next_of_not_idle hs h.sim h.inv (by simp [enabled, h.frames]) hσ'
    (fun hi => by simp [ThreadSystem.Idle] at hi)
  refine ⟨s', hn, ?_, ?_⟩
  · rw [hR'.frames]
    rfl
  · rw [hR'.upcalls, h.sim.upcalls]
    rfl

end InSyscall

/-! ### The handler's run -/

section Run

variable {s s₁ : Kernel} {σ : ThreadSystem} {t : Nat} {m : Mutable}
  (read : Nat → Nat → Except ErrorCode (List UInt8)) (args : SyscallArgs)

/-- `handle_syscall` for the blocked thread of the upcall does what `answer` says: it panics
without a call into the kernel, exits after terminating the thread, or returns a value having
changed nothing the abstract system sees. -/
theorem InSyscall.run_handleSyscall (h : InSyscall s σ t) (hm : σ.mutable t = some m)
    (hb : m.state = .blocked) :
    match answer read args with
    | none => (handleSyscall read (threadHandle t) args).run s = .error .panic s
    | some .exit => ∃ s', (handleSyscall read (threadHandle t) args).run s = .ok .exit s' ∧
        InSyscall s' (σ.setMutable t { m with state := .terminated }) t
    | some (.done r) => ∃ s', (handleSyscall read (threadHandle t) args).run s = .ok (.done r) s' ∧
        InSyscall s' σ t := by
  by_cases hx : args.n = Sys.exit ∨ args.n = Sys.exitGroup
  · obtain ⟨s', hrun, h'⟩ := h.terminate hm (by rw [hb]; decide)
    rw [answer, if_pos hx]
    refine ⟨s', ?_, h'⟩
    rw [handleSyscall, if_pos hx, run_bind_of_ok (run_expectOk_of_ok hrun)]
    rfl
  have hdone {o : Option (Except Errno Int)}
      (hrun : ∀ r, o = some r → ∃ s', (handleSyscall read (threadHandle t) args).run s =
        .ok (.done r) s' ∧ InSyscall s' σ t)
      (hnone : o = none → (handleSyscall read (threadHandle t) args).run s = .error .panic s) :
      match o.map SyscallOutput.done with
      | none => (handleSyscall read (threadHandle t) args).run s = .error .panic s
      | some .exit => ∃ s', (handleSyscall read (threadHandle t) args).run s = .ok .exit s' ∧
          InSyscall s' (σ.setMutable t { m with state := .terminated }) t
      | some (.done r) => ∃ s', (handleSyscall read (threadHandle t) args).run s =
          .ok (.done r) s' ∧ InSyscall s' σ t := by
    cases o with
    | none => exact hnone rfl
    | some r => exact hrun r rfl
  have hpure (x : EStateM Fault Kernel (Except Errno Int)) {v : Except Errno Int}
      (hx' : handleSyscall read (threadHandle t) args =
        x >>= fun retval => pure (SyscallOutput.done retval))
      (hv : x.run s = .ok v s) :
      (handleSyscall read (threadHandle t) args).run s = .ok (.done v) s := by
    rw [hx', run_bind_of_ok hv]
    rfl
  rw [answer, if_neg hx]
  by_cases hw : args.n = Sys.write
  · rw [if_pos hw]
    have hx' := (by rw [handleSyscall, if_neg hx, if_pos hw] :
      handleSyscall read (threadHandle t) args = orPanic (sysWrite read args.arg0
        (Word.toSigned 64 args.arg1) (Word.toSigned 64 args.arg2)) >>= fun retval =>
          pure (SyscallOutput.done retval))
    refine hdone (fun r hr => ⟨s, hpure _ hx' (hr ▸ run_orPanic_some r s), h⟩) fun hr => ?_
    rw [hx', hr, run_bind, run_orPanic_none]
  rw [if_neg hw]
  by_cases hv : args.n = Sys.writev
  · rw [if_pos hv]
    have hx' := (by rw [handleSyscall, if_neg hx, if_neg hw, if_pos hv] :
      handleSyscall read (threadHandle t) args = orPanic (sysWritev read args.arg0
        (Word.toSigned 64 args.arg1) (Word.toSigned 64 args.arg2)) >>= fun retval =>
          pure (SyscallOutput.done retval))
    refine hdone (fun r hr => ⟨s, hpure _ hx' (hr ▸ run_orPanic_some r s), h⟩) fun hr => ?_
    rw [hx', hr, run_bind, run_orPanic_none]
  rw [if_neg hv]
  by_cases ha : args.n = Sys.archPrctl
  · rw [if_pos ha]
    by_cases hfs : Word.toSigned 64 args.arg0 = archSetFs
    · obtain ⟨s', hrun, h'⟩ := h.context hm hb (.inr rfl)
      rw [if_pos hfs]
      refine ⟨s', ?_, h'⟩
      rw [handleSyscall, if_neg hx, if_neg hw, if_neg hv, if_pos ha, sysArchPrctl, if_pos hfs,
        run_bind, run_bind, hrun]
      rfl
    · rw [if_neg hfs]
      exact ⟨s, hpure (sysArchPrctl (threadHandle t) (Word.toSigned 64 args.arg0)
        (Word.toSigned 64 args.arg1)) (by rw [handleSyscall, if_neg hx, if_neg hw, if_neg hv, if_pos ha])
        (by rw [sysArchPrctl, if_neg hfs]; rfl), h⟩
  rw [if_neg ha]
  by_cases ht : args.n = Sys.setTidAddress
  · rw [if_pos ht]
    exact ⟨s, hpure (pure (.ok 1000)) (by rw [handleSyscall, if_neg hx, if_neg hw, if_neg hv,
      if_neg ha, if_pos ht]) rfl, h⟩
  · rw [if_neg ht]
    exact ⟨s, hpure (pure (.error .enosys)) (by rw [handleSyscall, if_neg hx, if_neg hw,
      if_neg hv, if_neg ha, if_neg ht]) rfl, h⟩

/-- The Lx server's Syscall upcall, from every reachable state whose syscall has just invoked
it for a thread the server holds the handle of, and for every syscall: the handler panics
exactly when `handle_syscall` does (in `sys_write` or `sys_writev`), and none of its calls into
the kernel fails. `exit` and `exit_group` leave the thread terminated, with its Syscall upcall
under way, so no Terminated upcall yet: the return of the upcall invokes it. Every other syscall
returns its value, and the thread is runnable at the back of the runqueue. The state the handler
leaves is reachable, with the same upcalls. -/
theorem run_syscall (hs : s.Reachable) (hn : Next s .syscall s₁) (hf : s₁.frames = [.syscall t])
    (hh : threadHandle t ∈ s₁.handles) :
    match answer read args with
    | none => ∃ s₂, (syscall read (threadHandle t) args).run s₁ = .error .panic s₂
    | some .exit => ∃ s₂, (syscall read (threadHandle t) args).run s₁ = .ok none s₂ ∧
        s₂.Reachable ∧ s₂.frames = [.syscall t] ∧ s₂.upcalls = s₁.upcalls ∧
        s₂.runqueue = s₁.runqueue ∧ (∃ vs, s₂.heap.value? t = some (.thread ⟨.terminated, 1⟩ vs)) ∧
        ∃ s₃, Next s₂ .upcallReturn s₃ ∧ s₃.frames = [.syscallTerminated t] ∧
          s₃.upcalls = s₁.upcalls ++ [(t, .terminated)]
    | some (.done r) => ∃ s₂,
        (syscall read (threadHandle t) args).run s₁ = .ok (some (Word.ofInt 64 (retvalOf r))) s₂ ∧
        s₂.Reachable ∧ s₂.frames = [.syscall t] ∧ s₂.upcalls = s₁.upcalls ∧
        s₂.runqueue = s₁.runqueue ++ [t] ∧
        ∃ vs, s₂.heap.value? t = some (.thread ⟨.runnable, 1⟩ vs) := by
  obtain ⟨σ, h₁, hm⟩ := InSyscall.of_syscall hs hn hf hh
  obtain ⟨hup₁, hrq₁, -⟩ := h₁.observe hm
  obtain ⟨s₂, hget, h₂⟩ := h₁.context hm rfl (.inl rfl)
  have hH := h₂.run_handleSyscall read args hm rfl
  rw [syscall, run_bind_of_ok (run_expectOk_of_ok hget)]
  cases ha : answer read args with
  | none =>
    rw [ha] at hH
    exact ⟨s₂, by rw [run_bind, hH]⟩
  | some out =>
    rw [ha] at hH
    cases out with
    | exit =>
      obtain ⟨s₃, hrun, h₃⟩ := hH
      have hm₃ : (σ.setMutable t { state := .terminated, inUpcalls := 1 }).mutable t =
          some ⟨.terminated, 1⟩ := by simp
      obtain ⟨hup, hrq, hv⟩ := h₃.observe hm₃
      have hup₃ : s₃.upcalls = s₁.upcalls := by
        rw [hup, hup₁]
        rfl
      obtain ⟨s₄, hret, hf₄, hup₄⟩ := h₃.upcallReturn_terminated hm₃
      refine ⟨s₃, by rw [run_bind_of_ok hrun]; rfl, h₃.reachable, h₃.frames, hup₃, ?_, hv,
        s₄, hret, hf₄, by rw [hup₄, hup₃]⟩
      rw [hrq, hrq₁]
      rfl
    | done r =>
      obtain ⟨s₃, hrun, h₃⟩ := hH
      obtain ⟨s₄, hset, h₄⟩ := h₃.context hm rfl (.inr rfl)
      obtain ⟨s₅, hunb, h₅⟩ := h₄.unblock hm rfl
      have hm₅ : ({ σ.setMutable t { state := .runnable, inUpcalls := 1 } with
          runqueue := σ.runqueue ++ [t] } : ThreadSystem).mutable t = some ⟨.runnable, 1⟩ := by
        simp
      obtain ⟨hup, hrq, hv⟩ := h₅.observe hm₅
      refine ⟨s₅, ?_, h₅.reachable, h₅.frames, ?_, ?_, hv⟩
      · rw [run_bind_of_ok hrun]
        dsimp only
        rw [run_bind_of_ok (run_expectOk_of_ok hset), run_bind_of_ok (run_expectOk_of_ok hunb)]
        rfl
      · rw [hup, hup₁]
        rfl
      · rw [hrq, hrq₁]

/-- The thread `bootEvents` starts calls `exit`: the handler terminates it, the thread waits,
terminated, for its Syscall upcall to return, and its Terminated upcall follows. -/
theorem run_syscall_exit_boot :
    ∃ s s₁, s.Reachable ∧ Next s .syscall s₁ ∧ s₁.frames = [.syscall 1] ∧
      threadHandle 1 ∈ s₁.handles ∧
      ∃ s₂, (syscall (fun _ n => .ok (List.replicate n 0)) (threadHandle 1)
          ⟨Sys.exit, 0, 0, 0⟩).run s₁ = .ok none s₂ ∧
        s₂.Reachable ∧ s₂.frames = [.syscall 1] ∧ s₂.upcalls = s₁.upcalls ∧
        s₂.runqueue = s₁.runqueue ∧ (∃ vs, s₂.heap.value? 1 = some (.thread ⟨.terminated, 1⟩ vs)) ∧
        ∃ s₃, Next s₂ .upcallReturn s₃ ∧ s₃.frames = [.syscallTerminated 1] ∧
          s₃.upcalls = s₁.upcalls ++ [(1, .terminated)] := by
  obtain ⟨s, s₁, hs, hn, hf, hh⟩ : ∃ s s₁, s.Reachable ∧ Next s .syscall s₁ ∧
      s₁.frames = [.syscall 1] ∧ threadHandle 1 ∈ s₁.handles :=
    ⟨_, _, ⟨bootEvents, .snoc (.snoc (.snoc (.snoc .nil ⟨rfl, rfl⟩) ⟨by decide, rfl⟩)
      ⟨by decide, rfl⟩) ⟨by decide, rfl⟩⟩, ⟨by decide, rfl⟩, rfl, by decide⟩
  exact ⟨s, s₁, hs, hn, hf, hh,
    run_syscall (fun _ n => .ok (List.replicate n 0)) ⟨Sys.exit, 0, 0, 0⟩ hs hn hf hh⟩

end Run

end Ftl.Lx

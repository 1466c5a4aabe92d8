import Ftl.Lx.Process
import Ftl.Lx.Handler.Registers

/-!
# Starting the first thread of a Linux process

`Process::start` starts the process's thread with `ThreadContext::spawn`: `Thread::create` on the
process's `VmSpace`, `set_context(InitRegs)` with the entry point and the stack pointer
`Process::create` computed, and `unblock`. `Server::new` runs it from the boot upcall. Here it runs
on `KernelRegs`, the kernel with its threads' saved registers (`Ftl.Kernel.Thread.Registers`),
with the facts a handler's calls need bundled in `Ftl.Lx.InUpcall` (`Ftl.Lx.Handler`).

From a reachable state inside an upcall, with a `VmSpace` handle that allows `MAP`, the spawn
succeeds, its three calls are steps of the kernel, and the new thread waits at the back of the
runqueue. Whatever runs meanwhile, it is entered the first time with the registers of
`arch::Thread::new`, except `rip` and `rsp`, which hold the entry point and the stack pointer
(`Lx.spawn_enters`): the user segments, interrupts on, and no value of another thread.

## Main definitions

* `Ftl.Lx.spawn`.

## Main results

* `Ftl.Lx.InUpcall.threadCreate`, `Ftl.Lx.InUpcall.regNext`.
* `Ftl.Lx.spawn_enters`.
-/

namespace Ftl.Lx

open Kernel EStateM

/-- `ThreadContext::spawn(process, init_regs)`, with the registers, for the process's `VmSpace`
handle: `Thread::create`, `set_context(InitRegs)` and `unblock`, each `?`; the new thread's
handle. `thread_create` gives the server the handle of the heap's next object. Every call passes
the registers, and only `set_context` writes them. -/
def spawn (vmspace : Handle) (initRegs : InitRegs) :
    EStateM Fault KernelRegs (Except ErrorCode Handle) := do
  let regs : Arch.InitRegs := ⟨initRegs.pc, initRegs.sp⟩
  let thread := threadHandle (← get).kernel.heap.next
  match ← callRegs (.threadCreate vmspace) .initRegs regs with
  | .error e => return .error e
  | .ok () =>
    match ← callRegs (.threadSetContext thread) .initRegs regs with
    | .error e => return .error e
    | .ok () =>
      match ← callRegs (.threadUnblock thread) .initRegs regs with
      | .error e => return .error e
      | .ok () => return .ok thread

section InUpcall

variable {s : Kernel} {σ : ThreadSystem}

/-- `thread_create` from a handler, on a `VmSpace` handle that allows `MAP`: the new thread is
the heap's next object, blocked with no upcall, and the server holds its handle. -/
theorem InUpcall.threadCreate (h : InUpcall s σ) {vmspace : Handle} (hh : vmspace ∈ s.handles)
    (hc : vmspace.typeId = .vmSpace ∧ vmspace.right.contains .MAP = true) :
    ∃ s', (Kernel.call (.threadCreate vmspace)).run s = .ok (.ok ()) s' ∧
      InUpcall s' (σ.setMutable s.heap.next ⟨.blocked, 0⟩) ∧
      s'.handles = s.handles ++ [threadHandle s.heap.next] := by
  obtain ⟨leak, hs⟩ := h.sound
  have hσ : σ.step (Call.action s.heap.next (.threadCreate vmspace)) =
      some (σ.setMutable s.heap.next ⟨.blocked, 0⟩) := by
    simp [Call.action, hc, ThreadSystem.step]
  obtain ⟨r, s', hrun, -, h'⟩ := h.call (.threadCreate vmspace) (by simp [Call.handle?, hh]) hσ
    (by simp)
  obtain ⟨rfl, hhandles⟩ := threadCreate_result hs hh hc hrun
  exact ⟨s', hrun, h', hhandles⟩

/-- A call of a handler is a step of the kernel with the registers. -/
theorem InUpcall.regNext (h : InUpcall s σ) {c : Call} (hc : ∀ hd ∈ c.handle?, hd ∈ s.handles)
    {r : Except ErrorCode Unit} {s' : Kernel} (hrun : (Kernel.call c).run s = .ok r s')
    (arch : Nat → Arch.Thread) (kind : Arch.ContextKind) (data : kind.Data) :
    RegNext ⟨s, arch⟩ (.call c kind data) ⟨s', callArch s arch kind data c r⟩ :=
  .call (by simpa [enabled, h.frames, Option.all_eq_true] using hc) hrun

end InUpcall

/-- `spawn` when its three calls succeed: the new thread has the registers of `Thread::new` with
the entry point and the stack pointer. -/
theorem run_spawn {m : KernelRegs} {vmspace : Handle} {initRegs : InitRegs} {s₁ s₂ s₃ : Kernel}
    (hcreate : (Kernel.call (.threadCreate vmspace)).run m.kernel = .ok (.ok ()) s₁)
    (hset : (Kernel.call (.threadSetContext (threadHandle m.kernel.heap.next))).run s₁ =
      .ok (.ok ()) s₂)
    (hunb : (Kernel.call (.threadUnblock (threadHandle m.kernel.heap.next))).run s₂ =
      .ok (.ok ()) s₃) :
    (spawn vmspace initRegs).run m = .ok (.ok (threadHandle m.kernel.heap.next))
      ⟨s₃, Function.update m.arch m.kernel.heap.next
        { Arch.Thread.new with rip := initRegs.pc, rsp := initRegs.sp }⟩ := by
  simp only [spawn, run_bind, run_get, run_callRegs hcreate]
  simp only [run_bind, run_callRegs (m := ⟨s₁, _⟩) hset]
  simp only [run_callRegs (m := ⟨s₂, _⟩) hunb]
  simp only [callArch, raw_threadHandle, Function.update_idem, Function.update_self]
  rfl

/-- A spawn from a handler of the Lx server, in a reachable state and on a `VmSpace` handle that
allows `MAP`, succeeds in three steps of the kernel and queues the new thread `t`, the heap's next
object. Along every run that follows, `t` keeps, until it is first the current thread, the
registers `arch::Thread::new` gives, with the entry point in `rip` and the stack pointer in `rsp`;
`Thread::enter` loads them. -/
theorem spawn_enters {m : KernelRegs} (h : m.Reachable) (hf : m.kernel.frames ≠ [])
    {vmspace : Handle} (hh : vmspace ∈ m.kernel.handles)
    (hc : vmspace.typeId = .vmSpace ∧ vmspace.right.contains .MAP = true) (initRegs : InitRegs) :
    ∃ m', (spawn vmspace initRegs).run m = .ok (.ok (threadHandle m.kernel.heap.next)) m' ∧
      Run RegNext m [.call (.threadCreate vmspace) .initRegs ⟨initRegs.pc, initRegs.sp⟩,
        .call (.threadSetContext (threadHandle m.kernel.heap.next)) .initRegs
          ⟨initRegs.pc, initRegs.sp⟩,
        .call (.threadUnblock (threadHandle m.kernel.heap.next)) .initRegs
          ⟨initRegs.pc, initRegs.sp⟩] m' ∧
      m'.kernel.runqueue = m.kernel.runqueue ++ [m.kernel.heap.next] ∧
      ∀ es m'', Run RegNext m' es m'' →
        let entry : Arch.Thread := { Arch.Thread.new with rip := initRegs.pc, rsp := initRegs.sp }
        m''.arch m.kernel.heap.next = entry ∨ ∃ es₁ es₂ m₃, es = es₁ ++ es₂ ∧
          Run RegNext m' es₁ m₃ ∧ m₃.kernel.current = some m.kernel.heap.next ∧
          m₃.arch m.kernel.heap.next = entry := by
  obtain ⟨s, arch⟩ := m
  obtain ⟨σ, leak, hσ, hs, hR⟩ := h.kernel.refines
  have h₀ : InUpcall s σ := ⟨h.kernel, ThreadSystem.Reachable.inv hσ, ⟨leak, hs⟩, hR, hf⟩
  dsimp only at hh ⊢
  obtain ⟨s₁, hcreate, h₁, hh₁⟩ := h₀.threadCreate hh hc
  have ht₁ : threadHandle s.heap.next ∈ s₁.handles := by simp [hh₁]
  have hm₁ : (σ.setMutable s.heap.next ⟨.blocked, 0⟩).mutable s.heap.next = some ⟨.blocked, 0⟩ := by
    simp
  obtain ⟨s₂, hset, h₂, hh₂⟩ := h₁.context ht₁ hm₁ rfl (.inr rfl)
  have ht₂ : threadHandle s.heap.next ∈ s₂.handles := hh₂ ▸ ht₁
  obtain ⟨s₃, hunb, h₃, hh₃⟩ := h₂.unblock ht₂ hm₁ rfl
  have harch : callArch s₂ (callArch s₁ (callArch s arch .initRegs ⟨initRegs.pc, initRegs.sp⟩
      (.threadCreate vmspace) (.ok ())) .initRegs ⟨initRegs.pc, initRegs.sp⟩
        (.threadSetContext (threadHandle s.heap.next)) (.ok ())) .initRegs
          ⟨initRegs.pc, initRegs.sp⟩ (.threadUnblock (threadHandle s.heap.next)) (.ok ()) =
      Function.update arch s.heap.next
        { Arch.Thread.new with rip := initRegs.pc, rsp := initRegs.sp } := by
    simp only [callArch, raw_threadHandle, Function.update_idem, Function.update_self]
    rfl
  have hrun := Run.snoc (Run.snoc (Run.snoc .nil
    (h₀.regNext (by simp [Call.handle?, hh]) hcreate arch .initRegs ⟨initRegs.pc, initRegs.sp⟩))
    (h₁.regNext (by simp [Call.handle?, ht₁]) hset _ .initRegs ⟨initRegs.pc, initRegs.sp⟩))
    (h₂.regNext (by simp [Call.handle?, ht₂]) hunb _ .initRegs ⟨initRegs.pc, initRegs.sp⟩)
  rw [harch] at hrun
  have hm₃ : ({ (σ.setMutable s.heap.next ⟨.blocked, 0⟩).setMutable s.heap.next ⟨.runnable, 0⟩ with
      runqueue := (σ.setMutable s.heap.next ⟨.blocked, 0⟩).runqueue ++ [s.heap.next] } :
        ThreadSystem).mutable s.heap.next = some ⟨.runnable, 0⟩ := by
    simp
  obtain ⟨-, hrq, -⟩ := h₃.observe (by rw [hh₃]; exact ht₂) hm₃
  have hq : s.heap.next ∈ s₃.runqueue := by simp [hrq]
  obtain ⟨leak₃, hs₃⟩ := h₃.sound
  have hrq₀ : s.runqueue = σ.runqueue := hR.runqueue
  refine ⟨_, run_spawn hcreate hset hunb, hrun, by simp [hrq, hrq₀], fun es m'' hr => ?_⟩
  exact Waiting.arch_of_run ⟨fun hc' => h₃.reachable.current_not_queued hc' hq,
    Function.update_self .., _, leak₃, h₃.inv, hs₃, h₃.sim, _, hm₃, State.noConfusion⟩ hr

/-- The boot server, having created a `VmSpace`, spawns a thread at `0x401000` with its stack at
`0x7fff_f000`: the thread is the heap's object `1`, queued alone. -/
theorem spawn_enters_boot :
    ∃ m m', m.Reachable ∧ m.kernel.frames ≠ [] ∧
      (⟨0, .vmSpace, vmRight⟩ : Handle) ∈ m.kernel.handles ∧
      (spawn ⟨0, .vmSpace, vmRight⟩ ⟨0x401000, 0x7fff_f000⟩).run m =
        .ok (.ok (threadHandle 1)) m' ∧
      m'.kernel.runqueue = [1] := by
  obtain ⟨m, h, hf, hh, hnext, hrq⟩ : ∃ m : KernelRegs, m.Reachable ∧ m.kernel.frames ≠ [] ∧
      (⟨0, .vmSpace, vmRight⟩ : Handle) ∈ m.kernel.handles ∧ m.kernel.heap.next = 1 ∧
      m.kernel.runqueue = [] :=
    ⟨_, ⟨[.call (.vmspaceCreate true) .fsbase ⟨0⟩], .snoc .nil (.call rfl rfl)⟩, by decide,
      by decide, rfl, rfl⟩
  obtain ⟨m', hrun, -, hrq', -⟩ := spawn_enters h hf hh (by decide) ⟨0x401000, 0x7fff_f000⟩
  rw [hnext] at hrun hrq'
  exact ⟨m, m', h, hf, hh, hrun, by rw [hrq', hrq]; rfl⟩

end Ftl.Lx

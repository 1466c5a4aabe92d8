import Ftl.Kernel.Thread.Calls
import Ftl.Kernel.Arch.Context

/-!
# The threads' registers along the kernel's runs

`Ftl.Kernel.Kernel` leaves out the `arch` field of each `Thread`, its saved registers. Here the
kernel carries them (`KernelRegs`), and each event writes them as the code does: `syscall_handler`
and `interrupt_entry` store the CPU's registers into the current thread, `thread_set_context`
calls `write_context` on a blocked thread, and `thread_create` gives the thread it allocates the
registers of `arch::Thread::new`. A run of `KernelRegs` is a run of the kernel
(`KernelRegs.Reachable.kernel`), so every fact about reachable kernels holds of it.

The comment on `unsafe impl Sync for Thread` in `kernel/src/thread.rs` says when the `arch` field
may be accessed: while the CPU runs the thread, or while it is blocked, under its lock. Along every
run, that is when it is written (`KernelRegs.Reachable.arch_written`): only the thread's own entry
path while it is the current, runnable thread, only `thread_set_context` while it is blocked, and
`thread_create` when the thread does not exist yet. Hence a runnable thread that is not running
keeps its registers until it runs again (`KernelRegs.Reachable.arch_until_current`): only the
current thread blocks, so nothing can write them meanwhile. A thread's `cs` and `ss` are never
written after `Thread::new`, so every thread is entered at privilege `3`
(`KernelRegs.Reachable.ring3`). And the Syscall upcall a `syscall` starts is the upcall of the
thread whose registers the entry saved, which is blocked, so the server reads the syscall number
and arguments the user passed (`KernelRegs.Reachable.syscall_context`).

## Main definitions

* `Ftl.Kernel.KernelRegs`, `Ftl.Kernel.RegEvent`, `Ftl.Kernel.RegNext`,
  `Ftl.Kernel.KernelRegs.Reachable`.
* `Ftl.Kernel.callRegs`, `Ftl.Kernel.getContextRegs`: a server's calls, with the registers.
* `Ftl.Kernel.Waiting`: a thread that is not running and not blocked.

## Main results

* `Ftl.ThreadSystem.Next.not_blocked`: only the current thread blocks.
* `Ftl.Kernel.RegNext.arch_cases`: what one step can write.
* `Ftl.Kernel.KernelRegs.Reachable.arch_written`, `Ftl.Kernel.Waiting.arch_of_run`,
  `Ftl.Kernel.KernelRegs.Reachable.arch_until_current`.
* `Ftl.Kernel.KernelRegs.Reachable.userSegments`, `Ftl.Kernel.KernelRegs.Reachable.ring3`.
* `Ftl.Kernel.KernelRegs.Reachable.syscall_context`.
-/

namespace Ftl

namespace ThreadSystem

variable {σ σ' : ThreadSystem} {t : Nat}

@[simp] theorem mutable_pick (σ : ThreadSystem) : σ.pick.mutable = σ.mutable := by
  unfold pick
  split <;> rfl

@[simp] theorem mutable_returnToUser (σ : ThreadSystem) : σ.returnToUser.mutable = σ.mutable := by
  unfold returnToUser
  split
  · split <;> simp
  · simp

/-- A thread that is neither current nor blocked does not become blocked: only the current thread
blocks, in its syscall, and `thread_unblock`, `thread_terminate` and the end of an upcall take no
thread to blocked. -/
theorem Next.not_blocked {a : Action} (hn : σ.Next a σ') (hc : σ.current ≠ some t) {mu : Mutable}
    (hm : σ.mutable t = some mu) (hb : mu.state ≠ .blocked) :
    ∃ mu', σ'.mutable t = some mu' ∧ mu'.state ≠ .blocked := by
  obtain ⟨he, hs⟩ := hn
  have hkeep {σ'' : ThreadSystem} (h : σ''.mutable t = σ.mutable t) :
      ∃ mu', σ''.mutable t = some mu' ∧ mu'.state ≠ .blocked :=
    ⟨mu, h.trans hm, hb⟩
  cases a with
  | syscall =>
    obtain ⟨c, m, hcur, -, hcase⟩ := handleSyscall_eq_some hs
    have htc : t ≠ c := fun h => hc (h ▸ hcur)
    rcases hcase with ⟨-, rfl⟩ | ⟨-, rfl⟩
    · exact hkeep (by simp)
    · exact hkeep (by simp [htc])
  | interrupt =>
    cases hs
    exact hkeep (by simp)
  | upcallReturn =>
    obtain ⟨f, fs, -, hcase⟩ := upcallReturn_eq_some hs
    rcases hcase with ⟨-, rfl⟩ | ⟨t', -, ha⟩ | ⟨t', -, rfl⟩ | ⟨t', -, rfl⟩
    · exact hkeep (by simp)
    · obtain ⟨m, hm', -, hcase'⟩ := afterSyscallUpcall_eq_some ha
      by_cases htt : t = t'
      · subst htt
        obtain rfl : m = mu := Option.some.inj (hm'.symm.trans hm)
        rcases hcase' with ⟨-, -, rfl⟩ | ⟨-, rfl⟩
        · exact ⟨{ m with inUpcalls := 0 }, by simp, hb⟩
        · exact ⟨{ m with inUpcalls := m.inUpcalls - 1 }, by simp, hb⟩
      · rcases hcase' with ⟨-, -, rfl⟩ | ⟨-, rfl⟩
        · exact hkeep (by simp [htt])
        · exact hkeep (by simp [htt])
    · exact hkeep (by simp)
    · exact hkeep rfl
  | unblock t' =>
    obtain ⟨m, hm', hcase⟩ := unblock_eq_some hs
    rcases hcase with ⟨-, rfl⟩ | ⟨hmb, rfl⟩
    · exact hkeep rfl
    · have htt : t ≠ t' := by
        rintro rfl
        exact hb (Option.some.inj (hm'.symm.trans hm) ▸ hmb)
      exact hkeep (by simp [htt])
  | terminate t' =>
    obtain ⟨m, -, hcase⟩ := terminate_eq_some hs
    by_cases htt : t = t'
    · subst htt
      rcases hcase with ⟨-, rfl⟩ | ⟨-, -, rfl⟩ | ⟨-, -, rfl⟩
      · exact hkeep rfl
      · exact ⟨{ m with state := .terminated }, by simp, by simp⟩
      · exact ⟨{ m with state := .terminated }, by simp, by simp⟩
    · rcases hcase with ⟨-, rfl⟩ | ⟨-, -, rfl⟩ | ⟨-, -, rfl⟩
      · exact hkeep rfl
      · exact hkeep (by simp [htt])
      · exact hkeep (by simp [htt])
  | create t' =>
    have htt : t ≠ t' := by
      rintro rfl
      simp [enabled, hm] at he
    cases hs
    exact hkeep (by simp [htt])
  | skip =>
    cases hs
    exact hkeep rfl

end ThreadSystem

namespace Kernel

open EStateM

/-- The state of the live thread `t`. -/
def threadState (s : Kernel) (t : Nat) : Option State :=
  match s.heap.value? t with
  | some (.thread m _) => some m.state
  | _ => none

theorem threadState_eq_some {s : Kernel} {t : Nat} {st : State} :
    s.threadState t = some st ↔ ∃ m vs, s.heap.value? t = some (.thread m vs) ∧ m.state = st := by
  unfold threadState
  split <;> simp_all

/-! ### The kernel with the registers -/

/-- The kernel with the saved registers of its threads: the `arch` field of each thread, by its
reference. -/
structure KernelRegs where
  kernel : Kernel
  arch : Nat → Arch.Thread

/-- An event, with what the registers need of it. -/
inductive RegEvent where
  /-- The current thread executes `syscall` with the registers `user`, its next instruction at
  `next`. -/
  | syscall (user : Arch.Thread) (next : Nat)
  /-- An interrupt of the user's registers `user`. -/
  | interrupt (user : Arch.Thread)
  /-- A call; `thread_set_context` passes the member `data` of kind `kind`, which the other calls
  do not read. -/
  | call (c : Call) (kind : Arch.ContextKind) (data : kind.Data)
  | upcallReturn

/-- The kernel's event. -/
def RegEvent.event : RegEvent → Event
  | .syscall .. => .syscall
  | .interrupt _ => .interrupt
  | .call c .. => .call c
  | .upcallReturn => .upcallReturn

/-- An entry path's stores into the current thread's registers. With no current thread (the idle
loop) `current_thread` is null and the stores reach no thread. -/
def saveCurrent (s : Kernel) (arch : Nat → Arch.Thread) (save : Arch.Thread → Arch.Thread) :
    Nat → Arch.Thread :=
  match s.current with
  | some t => Function.update arch t (save (arch t))
  | none => arch

/-- The registers after a call from the kernel `s` that returned `r`: `thread_set_context` writes
the thread's when it succeeds, and `thread_create` gives the thread it allocates, at
`s.heap.next`, those of `arch::Thread::new`. -/
def callArch (s : Kernel) (arch : Nat → Arch.Thread) (kind : Arch.ContextKind) (data : kind.Data) :
    Call → Except ErrorCode Unit → Nat → Arch.Thread
  | .threadSetContext h, .ok () => Function.update arch h.raw ((arch h.raw).writeContext kind data)
  | .threadCreate _, .ok () => Function.update arch s.heap.next Arch.Thread.new
  | _, _ => arch

/-- One transition: the kernel's, and the stores into the registers the event makes. -/
inductive RegNext : KernelRegs → RegEvent → KernelRegs → Prop
  | syscall {s s' : Kernel} {arch : Nat → Arch.Thread} {user : Arch.Thread} {next : Nat}
      (h : Next s .syscall s') :
      RegNext ⟨s, arch⟩ (.syscall user next)
        ⟨s', saveCurrent s arch (Arch.syscallHandler (Arch.cpuSyscall user next))⟩
  | interrupt {s s' : Kernel} {arch : Nat → Arch.Thread} {user : Arch.Thread}
      (h : Next s .interrupt s') :
      RegNext ⟨s, arch⟩ (.interrupt user) ⟨s', saveCurrent s arch (Arch.interruptEntry user)⟩
  | call {s s' : Kernel} {arch : Nat → Arch.Thread} {c : Call} {kind : Arch.ContextKind}
      {data : kind.Data} {r : Except ErrorCode Unit}
      (he : enabled s (.call c) = true) (h : (call c).run s = .ok r s') :
      RegNext ⟨s, arch⟩ (.call c kind data) ⟨s', callArch s arch kind data c r⟩
  | upcallReturn {s s' : Kernel} {arch : Nat → Arch.Thread} (h : Next s .upcallReturn s') :
      RegNext ⟨s, arch⟩ .upcallReturn ⟨s', arch⟩

/-- The kernel in `server::init`; no thread exists yet. -/
def regsInit : KernelRegs := ⟨init, fun _ => Arch.Thread.new⟩

/-- The states a run from `regsInit` reaches. -/
def KernelRegs.Reachable (m : KernelRegs) : Prop := Reach RegNext regsInit m

/-! ### Runs of the kernel -/

variable {m m' : KernelRegs} {e : RegEvent} {s s' : Kernel} {t : Nat}

/-- The kernel takes the event's transition. -/
theorem RegNext.next (h : RegNext m e m') : Next m.kernel e.event m'.kernel := by
  cases h with
  | syscall h => exact h
  | interrupt h => exact h
  | @call s s' arch c kind data r he h =>
    refine ⟨he, ?_⟩
    show (Kernel.call c >>= fun _ => pure ()).run s = .ok () s'
    rw [run_bind_of_ok h]
    rfl
  | upcallReturn h => exact h

theorem KernelRegs.Reachable.kernel (h : m.Reachable) : m.kernel.Reachable :=
  Reach.invariant (P := fun m => m.kernel.Reachable) Reach.refl
    (fun _ _ _ _ hk hn => hk.step hn.next) h

/-! ### What a `syscall` starts -/

/-- The Syscall upcall that a `syscall` from a reachable state starts is the upcall of the thread
that was current, and that thread is blocked. -/
theorem Reachable.syscall_upcall (hs : s.Reachable) (hn : Next s .syscall s')
    (hf : s'.frames = [.syscall t]) : s.current = some t ∧ s'.threadState t = some .blocked := by
  obtain ⟨σ₀, leak, hσ₀, hs₀, hR₀⟩ := hs.refines
  obtain ⟨σ₁, hn', hs₁, hR₁⟩ := hn.refines hs₀ hR₀ (ThreadSystem.Reachable.inv hσ₀)
  obtain ⟨hc, mu, -, -, hmu⟩ := ThreadSystem.handleSyscall_of_frames hn'.2
    (by rw [← hR₀.frames, hn.frames_of_syscall]) (by rw [← hR₁.frames, hf])
  obtain ⟨mu', vs, hv⟩ := Heap.exists_of_kind_thread
    (hs₁.frame_kind (.syscall t) (by simp [hf]) t (by simp [Frame.ref?]))
  have hmu' : mu' = ⟨.blocked, mu.inUpcalls + 1⟩ :=
    Option.some.inj ((hR₁.mutable t mu' vs hv).symm.trans hmu)
  exact ⟨hR₀.current.trans hc, threadState_eq_some.mpr ⟨mu', vs, hv, by rw [hmu']⟩⟩

/-! ### Which events write a thread's registers -/

section Written

/-- The registers an entry path leaves: only the current thread's change. -/
theorem saveCurrent_apply {arch : Nat → Arch.Thread} {save : Arch.Thread → Arch.Thread}
    (ht : saveCurrent s arch save t ≠ arch t) : s.current = some t := by
  cases hc : s.current with
  | none =>
    simp only [saveCurrent, hc] at ht
    exact absurd rfl ht
  | some c =>
    simp only [saveCurrent, hc] at ht
    by_cases htc : t = c
    · rw [htc]
    · rw [Function.update_of_ne htc] at ht
      exact absurd rfl ht

/-- `thread_set_context` succeeds only on a thread that is blocked. -/
theorem contextCall_ok {locals : List Nat} {leak : Nat → Nat} (hs : Sound s locals leak)
    {thread : Handle} (hh : thread ∈ s.handles) {action : HandleRight}
    (h : (contextCall action thread).run s = .ok (.ok ()) s') :
    s.threadState thread.raw = some .blocked := by
  by_cases hc : thread.typeId = .thread ∧ thread.right.contains action = true
  · obtain ⟨mu, vs, hv⟩ := Heap.exists_of_kind_thread (hc.1 ▸ hs.handle_kind thread hh)
    have hr := contextCall_result hs hh hc hv h
    refine threadState_eq_some.mpr ⟨mu, vs, hv, ?_⟩
    by_contra hb
    rw [if_neg hb] at hr
    cases hr
  · obtain ⟨err, herr⟩ := run_fromBorrowedHandle_error (s := s) hc
    rw [contextCall, run_bind_of_ok herr, run_pure] at h
    cases h

/-- The registers a call leaves: a successful `thread_set_context` writes those of the thread it
names, and a successful `thread_create` sets those of the reference it allocates. -/
theorem callArch_apply {arch : Nat → Arch.Thread} {kind : Arch.ContextKind} {data : kind.Data}
    {c : Call} {r : Except ErrorCode Unit} (ht : callArch s arch kind data c r t ≠ arch t) :
    (∃ h, c = .threadSetContext h ∧ r = .ok () ∧ h.raw = t ∧
        callArch s arch kind data c r t = (arch t).writeContext kind data) ∨
      ((∃ vs, c = .threadCreate vs) ∧ r = .ok () ∧ t = s.heap.next) := by
  unfold callArch at ht ⊢
  split at ht
  · rename_i h
    by_cases hth : t = h.raw
    · subst hth
      exact .inl ⟨h, rfl, rfl, rfl, by rw [Function.update_self]⟩
    · rw [Function.update_of_ne hth] at ht
      exact absurd rfl ht
  · rename_i vs
    by_cases htn : t = s.heap.next
    · exact .inr ⟨⟨vs, rfl⟩, rfl, htn⟩
    · rw [Function.update_of_ne htn] at ht
      exact absurd rfl ht
  · exact absurd rfl ht

/-- What a step can write of a thread's registers: an entry path, into the current thread; a
successful `thread_set_context` on a handle the server holds, as `write_context` does; or a
successful `thread_create`, at the reference it allocates. -/
theorem RegNext.arch_cases (hn : RegNext m e m') (ht : m'.arch t ≠ m.arch t) :
    (m.kernel.current = some t ∧
        ((∃ user next, e = .syscall user next) ∨ ∃ user, e = .interrupt user)) ∨
      (∃ hd kind data s', e = .call (.threadSetContext hd) kind data ∧ hd.raw = t ∧
        hd ∈ m.kernel.handles ∧ (contextCall .WRITE hd).run m.kernel = .ok (.ok ()) s' ∧
        m'.arch t = (m.arch t).writeContext kind data) ∨
      ((∃ vs kind data, e = .call (.threadCreate vs) kind data) ∧ t = m.kernel.heap.next) := by
  cases hn with
  | syscall => exact .inl ⟨saveCurrent_apply ht, .inl ⟨_, _, rfl⟩⟩
  | interrupt => exact .inl ⟨saveCurrent_apply ht, .inr ⟨_, rfl⟩⟩
  | @call s s' arch c kind data r he hrun =>
    rcases callArch_apply ht with ⟨hd, rfl, rfl, rfl, hw⟩ | ⟨⟨vs, rfl⟩, rfl, rfl⟩
    · have hh : hd ∈ s.handles := (by simpa [enabled, Call.handle?] using he : _ ∧ _).2
      exact .inr (.inl ⟨hd, kind, data, s', rfl, rfl, hh, hrun, hw⟩)
    · exact .inr (.inr ⟨⟨vs, kind, data, rfl⟩, rfl⟩)
  | upcallReturn => exact absurd rfl ht

/-- When a thread's registers are written, along every run: by its own `syscall` or interrupt,
while it is the current thread and runnable; by `thread_set_context` on a handle of it, which the
server holds, while it is blocked, and then as `write_context` does; or by the `thread_create`
that allocates it, when no object is at its reference yet. -/
theorem KernelRegs.Reachable.arch_written (h : m.Reachable) (hn : RegNext m e m')
    (ht : m'.arch t ≠ m.arch t) :
    (m.kernel.current = some t ∧ m.kernel.threadState t = some .runnable ∧
        ((∃ user next, e = .syscall user next) ∨ ∃ user, e = .interrupt user)) ∨
      (m.kernel.threadState t = some .blocked ∧
        ∃ hd kind data, e = .call (.threadSetContext hd) kind data ∧ hd.raw = t ∧
          hd ∈ m.kernel.handles ∧ m'.arch t = (m.arch t).writeContext kind data) ∨
      ((∃ vs kind data, e = .call (.threadCreate vs) kind data) ∧ t = m.kernel.heap.next ∧
        m.kernel.heap.value? t = none) := by
  obtain ⟨σ, leak, -, hs, -⟩ := h.kernel.refines
  rcases hn.arch_cases ht with ⟨hc, he⟩ | ⟨hd, kind, data, s', rfl, rfl, hh, hrun, hw⟩ | ⟨hcr, rfl⟩
  · exact .inl ⟨hc, threadState_eq_some.mpr (h.kernel.current_runnable (by simp [hc])), he⟩
  · exact .inr (.inl ⟨contextCall_ok hs hh hrun, hd, kind, data, rfl, rfl, hh, hw⟩)
  · refine .inr (.inr ⟨hcr, rfl, ?_⟩)
    cases hv : m.kernel.heap.value? m.kernel.heap.next with
    | none => rfl
    | some o => exact absurd (hs.lt_next hv) (lt_irrefl _)

/-- The boot server creates a thread and sets its initial registers: `thread_set_context` on the
blocked thread writes them. -/
theorem arch_written_initRegs :
    ∃ m m', m.Reachable ∧
      RegNext m (.call (.threadSetContext ⟨1, .thread, threadRight⟩) .initRegs ⟨0x401000, 0x7fff0000⟩)
        m' ∧ m'.arch 1 ≠ m.arch 1 ∧
      ((m.kernel.current = some 1 ∧ m.kernel.threadState 1 = some .runnable ∧
          ((∃ user next, RegEvent.call (.threadSetContext ⟨1, .thread, threadRight⟩) .initRegs
              ⟨0x401000, 0x7fff0000⟩ = .syscall user next) ∨
            ∃ user, RegEvent.call (.threadSetContext ⟨1, .thread, threadRight⟩) .initRegs
              ⟨0x401000, 0x7fff0000⟩ = .interrupt user)) ∨
        (m.kernel.threadState 1 = some .blocked ∧
          ∃ hd kind data, RegEvent.call (.threadSetContext ⟨1, .thread, threadRight⟩) .initRegs
              ⟨0x401000, 0x7fff0000⟩ = .call (.threadSetContext hd) kind data ∧ hd.raw = 1 ∧
            hd ∈ m.kernel.handles ∧ m'.arch 1 = (m.arch 1).writeContext kind data) ∨
        ((∃ vs kind data, RegEvent.call (.threadSetContext ⟨1, .thread, threadRight⟩) .initRegs
            ⟨0x401000, 0x7fff0000⟩ = .call (.threadCreate vs) kind data) ∧
          1 = m.kernel.heap.next ∧ m.kernel.heap.value? 1 = none)) := by
  obtain ⟨m, m', hm, hn, ht⟩ : ∃ m m', m.Reachable ∧
      RegNext m (.call (.threadSetContext ⟨1, .thread, threadRight⟩) .initRegs ⟨0x401000, 0x7fff0000⟩)
        m' ∧ m'.arch 1 ≠ m.arch 1 :=
    ⟨_, _, ⟨[.call (.vmspaceCreate true) .fsbase ⟨0⟩,
        .call (.threadCreate ⟨0, .vmSpace, vmRight⟩) .fsbase ⟨0⟩],
      .snoc (.snoc .nil (.call rfl rfl)) (.call (by decide) rfl)⟩, .call (by decide) rfl, by decide⟩
  exact ⟨m, m', hm, hn, ht, KernelRegs.Reachable.arch_written hm hn ht⟩

end Written

/-! ### Until a thread runs again -/

/-- What carries `KernelRegs.Reachable.arch_until_current`: `t` is not current and has the
registers `a`, and an abstract thread system related to the kernel knows it as not blocked. -/
structure Waiting (t : Nat) (a : Arch.Thread) (m : KernelRegs) : Prop where
  not_current : m.kernel.current ≠ some t
  arch : m.arch t = a
  abs : ∃ σ leak, σ.Inv ∧ Sound m.kernel [] leak ∧ Sim m.kernel σ ∧
    ∃ mu, σ.mutable t = some mu ∧ mu.state ≠ .blocked

/-- One step from a waiting thread: its registers stay, and it is current or still waiting. -/
theorem Waiting.step {a : Arch.Thread} (hw : Waiting t a m) (hn : RegNext m e m') :
    m'.arch t = a ∧ (m'.kernel.current = some t ∨ Waiting t a m') := by
  obtain ⟨σ, leak, hσ, hs, hR, mu, hmu, hb⟩ := hw.abs
  have harch : m'.arch t = a := by
    rw [← hw.arch]
    by_contra ht
    rcases hn.arch_cases ht with ⟨hc, -⟩ | ⟨hd, -, -, s', -, rfl, hh, hrun, -⟩ | ⟨-, hnext⟩
    · exact hw.not_current hc
    · obtain ⟨mu', vs, hv, hst⟩ := threadState_eq_some.mp (contextCall_ok hs hh hrun)
      obtain rfl : mu' = mu := Option.some.inj ((hR.mutable _ mu' vs hv).symm.trans hmu)
      exact hb hst
    · exact absurd hnext (hR.known_lt t (by simp [hmu])).ne
  obtain ⟨σ', hn', hs', hR'⟩ := hn.next.refines hs hR hσ
  refine ⟨harch, ?_⟩
  by_cases hc' : m'.kernel.current = some t
  · exact .inl hc'
  · obtain ⟨mu', hmu', hb'⟩ := hn'.not_blocked (by rw [← hR.current]; exact hw.not_current) hmu hb
    exact .inr ⟨hc', harch, σ', _, hσ.step hn', hs', hR', mu', hmu', hb'⟩

/-- Along every run from a state where `t` waits with the registers `a`, it keeps them until the
first state in which it is the current thread. -/
theorem Waiting.arch_of_run {a : Arch.Thread} {m₀ : KernelRegs} (hw : Waiting t a m₀)
    {es : List RegEvent} (hrun : Run RegNext m₀ es m) :
    m.arch t = a ∨
      ∃ es₁ es₂ m₁, es = es₁ ++ es₂ ∧ Run RegNext m₀ es₁ m₁ ∧ m₁.kernel.current = some t ∧
        m₁.arch t = a := by
  have hP := hrun.invariant (P := fun es m =>
      (∃ es₁ es₂ m₁, es = es₁ ++ es₂ ∧ Run RegNext m₀ es₁ m₁ ∧ m₁.kernel.current = some t ∧
        m₁.arch t = a) ∨ Waiting t a m) (.inr hw)
    (by
      rintro ls m l m' hls hP hn
      rcases hP with ⟨es₁, es₂, m₁, rfl, hr₁, hc₁, ha₁⟩ | hw
      · exact .inl ⟨es₁, es₂ ++ [l], m₁, by rw [List.append_assoc], hr₁, hc₁, ha₁⟩
      · obtain ⟨ha, hc' | hw'⟩ := hw.step hn
        · exact .inl ⟨ls ++ [l], [], m', by rw [List.append_nil], hls.snoc hn, hc', ha⟩
        · exact .inr hw')
  rcases hP with hE | hw
  · exact .inr hE
  · exact .inl hw.arch

/-- Along every run from a reachable state, a runnable thread that is not the current one keeps
its registers until the first state in which it is the current thread, where `Thread::enter`
loads them: whatever other threads, interrupts and servers do meanwhile. -/
theorem KernelRegs.Reachable.arch_until_current {m₀ : KernelRegs} (h₀ : m₀.Reachable)
    (hc : m₀.kernel.current ≠ some t) (hst : m₀.kernel.threadState t = some .runnable)
    {es : List RegEvent} (hrun : Run RegNext m₀ es m) :
    m.arch t = m₀.arch t ∨
      ∃ es₁ es₂ m₁, es = es₁ ++ es₂ ∧ Run RegNext m₀ es₁ m₁ ∧ m₁.kernel.current = some t ∧
        m₁.arch t = m₀.arch t := by
  obtain ⟨σ, leak, hσ, hs, hR⟩ := h₀.kernel.refines
  obtain ⟨mu, vs, hv, hr⟩ := threadState_eq_some.mp hst
  exact Waiting.arch_of_run ⟨hc, rfl, σ, leak, ThreadSystem.Reachable.inv hσ, hs, hR, mu,
    hR.mutable t mu vs hv, by rw [hr]; exact State.noConfusion⟩ hrun

/-- The thread the boot server unblocks is entered, when the server's entry point returns, with
the registers it had. -/
theorem arch_until_current_boot :
    ∃ m₀ m, m₀.Reachable ∧ m₀.kernel.current ≠ some 1 ∧ m₀.kernel.threadState 1 = some .runnable ∧
      Run RegNext m₀ [.upcallReturn] m ∧
      (m.arch 1 = m₀.arch 1 ∨
        ∃ es₁ es₂ m₁, [RegEvent.upcallReturn] = es₁ ++ es₂ ∧ Run RegNext m₀ es₁ m₁ ∧
          m₁.kernel.current = some 1 ∧ m₁.arch 1 = m₀.arch 1) := by
  obtain ⟨m₀, m, h₀, hc, hst, hrun⟩ : ∃ m₀ m, m₀.Reachable ∧ m₀.kernel.current ≠ some 1 ∧
      m₀.kernel.threadState 1 = some .runnable ∧ Run RegNext m₀ [.upcallReturn] m :=
    ⟨_, _, ⟨[.call (.vmspaceCreate true) .fsbase ⟨0⟩,
        .call (.threadCreate ⟨0, .vmSpace, vmRight⟩) .fsbase ⟨0⟩,
        .call (.threadUnblock ⟨1, .thread, threadRight⟩) .fsbase ⟨0⟩],
      .snoc (.snoc (.snoc .nil (.call rfl rfl)) (.call (by decide) rfl)) (.call (by decide) rfl)⟩,
      by decide, by decide, .snoc .nil (.upcallReturn ⟨by decide, rfl⟩)⟩
  exact ⟨m₀, m, h₀, hc, hst, hrun, KernelRegs.Reachable.arch_until_current h₀ hc hst hrun⟩

/-! ### The server's calls, with the registers -/

/-- The kernel, as a part of the kernel with the registers. -/
def KernelRegs.kernelLens : Lens KernelRegs Kernel where
  get m := m.kernel
  set k m := { m with kernel := k }
  get_set _ _ := rfl
  set_get _ := rfl

/-- A call of the server, with the registers: the kernel's call, then the stores `callArch` says
it makes. -/
def callRegs (c : Call) (kind : Arch.ContextKind) (data : kind.Data) :
    EStateM Fault KernelRegs (Except ErrorCode Unit) := do
  let m ← get
  let r ← focus KernelRegs.kernelLens (call c)
  modify fun m' => { m' with arch := callArch m.kernel m.arch kind data c r }
  return r

/-- `thread.get_context(kind, regs)`: `thread_get_context`, then, when it succeeds, the member of
`kind` that `read_context` fills in from the thread's registers. -/
def getContextRegs (thread : Handle) (kind : Arch.ContextKind) :
    EStateM Fault KernelRegs (Except ErrorCode kind.Data) := do
  match ← focus KernelRegs.kernelLens (call (.threadGetContext thread)) with
  | .error e => return .error e
  | .ok () => return .ok (((← get).arch thread.raw).readContext kind)

theorem run_callRegs {c : Call} {kind : Arch.ContextKind} {data : kind.Data}
    {r : Except ErrorCode Unit} {k' : Kernel} (h : (call c).run m.kernel = .ok r k') :
    (callRegs c kind data).run m = .ok r ⟨k', callArch m.kernel m.arch kind data c r⟩ := by
  simp only [callRegs, run_bind, run_get, run_focus_of_ok (l := KernelRegs.kernelLens) (t := m) h,
    run_modify, run_pure]
  rfl

theorem run_getContextRegs {thread : Handle} {kind : Arch.ContextKind} {k' : Kernel}
    (h : (call (.threadGetContext thread)).run m.kernel = .ok (.ok ()) k') :
    (getContextRegs thread kind).run m =
      .ok (.ok ((m.arch thread.raw).readContext kind)) ⟨k', m.arch⟩ := by
  simp only [getContextRegs, run_bind, run_focus_of_ok (l := KernelRegs.kernelLens) (t := m) h,
    run_get, run_pure]
  rfl

/-- An entry path stores into the current thread. -/
theorem saveCurrent_of_current {arch : Nat → Arch.Thread} {save : Arch.Thread → Arch.Thread}
    (hc : s.current = some t) : saveCurrent s arch save t = save (arch t) := by
  simp only [saveCurrent, hc, Function.update_self]

/-! ### The segments every thread is entered with -/

/-- Every thread's `cs` and `ss` hold the user's selectors, along every run. -/
theorem KernelRegs.Reachable.userSegments (h : m.Reachable) (t : Nat) :
    Arch.UserSegments (m.arch t) := by
  refine Reach.invariant (P := fun m => ∀ t, Arch.UserSegments (m.arch t))
    (fun _ => Arch.userSegments_new) (fun m e m' _ hP hn => ?_) h t
  have hsave {s : Kernel} {save : Arch.Thread → Arch.Thread}
      (hk : ∀ a, Arch.UserSegments a → Arch.UserSegments (save a)) (x : Nat) :
      Arch.UserSegments (saveCurrent s m.arch save x) := by
    cases hc : s.current with
    | none =>
      simp only [saveCurrent, hc]
      exact hP x
    | some c =>
      simp only [saveCurrent, hc]
      exact (Function.forall_update_iff _ (fun _ a => Arch.UserSegments a)).mpr
        ⟨hk _ (hP _), fun y _ => hP y⟩ x
  cases hn with
  | syscall => exact hsave fun a ha => ha.syscallHandler _
  | interrupt => exact hsave fun a ha => ha.interruptEntry _
  | @call s s' arch c kind data r =>
    intro x
    unfold callArch
    split
    · exact (Function.forall_update_iff _ (fun _ a => Arch.UserSegments a)).mpr
        ⟨(hP _).writeContext kind data, fun y _ => hP y⟩ x
    · exact (Function.forall_update_iff _ (fun _ a => Arch.UserSegments a)).mpr
        ⟨Arch.userSegments_new, fun y _ => hP y⟩ x
    · exact hP x
  | upcallReturn => exact hP

/-- Along every run, `Thread::enter` enters every thread at privilege `3`, in the user's 64-bit
code segment of privilege `3` and on its data segment of privilege `3`: neither the entry paths
nor a server's `thread_set_context` can change a thread's `cs` or `ss`. -/
theorem KernelRegs.Reachable.ring3 (h : m.Reachable) (t tssBase : Nat) :
    (m.arch t).cs % 4 = 3 ∧ (m.arch t).ss % 4 = 3 ∧
      ((Gdt.entries tssBase)[X86.selectorIndex (m.arch t).cs]?).map X86.Segment.ofDescriptor =
        some ⟨0, 0xfffff, 0xa, true, 3, true, true⟩ ∧
      ((Gdt.entries tssBase)[X86.selectorIndex (m.arch t).ss]?).map X86.Segment.ofDescriptor =
        some ⟨0, 0xfffff, 0x2, true, 3, true, false⟩ :=
  (h.userSegments t).privilege3 tssBase

/-- The boot server creates a thread, sets its initial registers and starts it; the thread makes
a syscall with null selectors in its registers, and the entry saves the user's selectors. -/
theorem ring3_boot_syscall :
    ∃ m : KernelRegs, m.Reachable ∧ m.kernel.frames = [.syscall 1] ∧
      (m.arch 1).cs % 4 = 3 ∧ (m.arch 1).ss % 4 = 3 ∧
      ((Gdt.entries 0)[X86.selectorIndex (m.arch 1).cs]?).map X86.Segment.ofDescriptor =
        some ⟨0, 0xfffff, 0xa, true, 3, true, true⟩ ∧
      ((Gdt.entries 0)[X86.selectorIndex (m.arch 1).ss]?).map X86.Segment.ofDescriptor =
        some ⟨0, 0xfffff, 0x2, true, 3, true, false⟩ := by
  obtain ⟨m, hm, hf⟩ : ∃ m, KernelRegs.Reachable m ∧ m.kernel.frames = [.syscall 1] :=
    ⟨_, ⟨[.call (.vmspaceCreate true) .fsbase ⟨0⟩,
        .call (.threadCreate ⟨0, .vmSpace, vmRight⟩) .fsbase ⟨0⟩,
        .call (.threadSetContext ⟨1, .thread, threadRight⟩) .initRegs ⟨0x401000, 0x7fff0000⟩,
        .call (.threadUnblock ⟨1, .thread, threadRight⟩) .fsbase ⟨0⟩, .upcallReturn,
        .syscall { Arch.Thread.new with rax := 60, cs := 0, ss := 0 } 0x401002],
      .snoc (.snoc (.snoc (.snoc (.snoc (.snoc .nil (.call rfl rfl)) (.call (by decide) rfl))
        (.call (by decide) rfl)) (.call (by decide) rfl)) (.upcallReturn ⟨by decide, rfl⟩))
        (.syscall ⟨by decide, rfl⟩)⟩, rfl⟩
  exact ⟨m, hm, hf, KernelRegs.Reachable.ring3 hm 1 0⟩

/-! ### The registers a Syscall upcall reads -/

/-- The syscall entry saves the registers into the current thread. -/
theorem RegNext.arch_syscall {user : Arch.Thread} {next : Nat}
    (hn : RegNext m (.syscall user next) m') (hc : m.kernel.current = some t) :
    m'.arch t = Arch.syscallHandler (Arch.cpuSyscall user next) (m.arch t) := by
  cases hn
  exact saveCurrent_of_current hc

/-- A `syscall` of the user's registers `user` that starts a Syscall upcall of `t`: `t` was the
current thread, into which the entry saved the registers, and is blocked, so its context can be
read; `read_context(SyscallArgs)` gives the syscall number and arguments the user passed in `rax`,
`rdi`, `rsi`, `rdx`, `r10`, `r8`, `r9`, and `read_context(InitRegs)` the next instruction and the
user's stack pointer. -/
theorem KernelRegs.Reachable.syscall_context (h : m.Reachable) {user : Arch.Thread} {next : Nat}
    (hn : RegNext m (.syscall user next) m') (hf : m'.kernel.frames = [.syscall t]) :
    m.kernel.current = some t ∧ m'.kernel.threadState t = some .blocked ∧
      (m'.arch t).readContext .syscallArgs =
        ⟨user.rax, user.rdi, user.rsi, user.rdx, user.r10, user.r8, user.r9⟩ ∧
      (m'.arch t).readContext .initRegs = ⟨next, user.rsp⟩ := by
  obtain ⟨hc, hb⟩ := h.kernel.syscall_upcall hn.next hf
  have hsave := hn.arch_syscall hc
  refine ⟨hc, hb, ?_, ?_⟩
  · rw [hsave, Arch.readContext_syscallHandler]
  · rw [hsave]
    rfl

/-! ### Interrupts -/

/-- An interrupt of the running thread `t` is invisible to it: the kernel's state stays as it
was, `t` is still the current thread, and its saved registers are the ones it was interrupted
with. `interrupt_entry` saves them all but `cs` and `ss`, which it drops, and the `fs` and `gs`
bases, which it leaves; those stay the thread's own. -/
theorem KernelRegs.Reachable.interrupt_transparent (h : m.Reachable)
    (hc : m.kernel.current = some t) {user : Arch.Thread} (hn : RegNext m (.interrupt user) m') :
    m' = ⟨m.kernel, Function.update m.arch t { user with
      cs := (m.arch t).cs, ss := (m.arch t).ss, fsbase := (m.arch t).fsbase,
      gsbase := (m.arch t).gsbase }⟩ := by
  cases hn with
  | @interrupt s s' arch _ hn =>
    have hc' : s.current = some t := hc
    rw [h.kernel.interrupt_eq hc' hn]
    simp only [saveCurrent, hc']
    rfl

/-- The thread the boot server starts is interrupted at `0x401000` with `5` in `rax`: the kernel
stays as it was, and the thread goes on with those registers. -/
theorem interrupt_transparent_boot :
    ∃ m m', m.Reachable ∧ m.kernel.current = some 1 ∧
      RegNext m (.interrupt { Arch.Thread.new with rip := 0x401000, rax := 5 }) m' ∧
      m'.kernel = m.kernel ∧ (m'.arch 1).rip = 0x401000 ∧ (m'.arch 1).rax = 5 := by
  obtain ⟨m, m', h, hc, hn⟩ : ∃ m m', KernelRegs.Reachable m ∧ m.kernel.current = some 1 ∧
      RegNext m (.interrupt { Arch.Thread.new with rip := 0x401000, rax := 5 }) m' :=
    ⟨_, _, ⟨[.call (.vmspaceCreate true) .fsbase ⟨0⟩,
        .call (.threadCreate ⟨0, .vmSpace, vmRight⟩) .fsbase ⟨0⟩,
        .call (.threadUnblock ⟨1, .thread, threadRight⟩) .fsbase ⟨0⟩, .upcallReturn],
      .snoc (.snoc (.snoc (.snoc .nil (.call rfl rfl)) (.call (by decide) rfl))
        (.call (by decide) rfl)) (.upcallReturn ⟨by decide, rfl⟩)⟩,
      rfl, .interrupt ⟨by decide, rfl⟩⟩
  have he := KernelRegs.Reachable.interrupt_transparent h hc hn
  subst he
  exact ⟨_, _, h, hc, hn, rfl, by simp, by simp⟩

end Kernel

end Ftl

import Ftl.Kernel.Thread.Safety

/-!
# What the server's thread calls return

`Ftl.Kernel.run_call` says that a call returns and refines its abstract action; a server that
checks the result of its call (`.expect(..)`) also needs to know which result it gets. For the
calls a handler makes on a thread it holds: `thread_get_context` and `thread_set_context` succeed
exactly when the thread is blocked, `thread_unblock` too, and `thread_terminate` unless the thread
is already terminated. None of them gives or takes a handle. `thread_create` on a `VmSpace`
handle that allows `MAP` succeeds and gives the server the new thread's handle.

From a reachable state, a call the CPU can take returns, and the state it leaves is reachable
(`Ftl.Kernel.Reachable.run_call`).

## Main results

* `Ftl.Kernel.contextCall_result`, `Ftl.Kernel.threadUnblock_result`,
  `Ftl.Kernel.threadTerminate_result`, `Ftl.Kernel.threadCreate_result`.
* `Ftl.Kernel.keeps_handles_contextCall`, `Ftl.Kernel.keeps_handles_threadUnblock`,
  `Ftl.Kernel.keeps_handles_threadTerminate`.
* `Ftl.Kernel.Reachable.run_call`.
* `Ftl.ThreadSystem.handleSyscall_of_frames`: the Syscall upcall a `syscall` starts is the current
  thread's.
-/

namespace Ftl

/-- A `syscall` from no upcall that leaves a Syscall upcall under way: it is the current
thread's, which it finds runnable and blocks with one more upcall. -/
theorem ThreadSystem.handleSyscall_of_frames {σ σ' : ThreadSystem} {t : Nat}
    (h : σ.handleSyscall = some σ') (hf : σ.frames = []) (hf' : σ'.frames = [.syscall t]) :
    σ.current = some t ∧ ∃ mu, σ.mutable t = some mu ∧ mu.state = .runnable ∧
      σ'.mutable t = some ⟨.blocked, mu.inUpcalls + 1⟩ := by
  obtain ⟨c, mu, hc, hmu, hcase⟩ := ThreadSystem.handleSyscall_eq_some h
  rcases hcase with ⟨-, rfl⟩ | ⟨hr, rfl⟩
  · simp [hf] at hf'
  · obtain rfl : c = t := by simpa [hf] using hf'
    exact ⟨hc, mu, hmu, hr, by simp⟩

namespace Kernel

open EStateM

variable {s s' : Kernel} {locals : List Nat} {leak : Nat → Nat} {t : Nat} {m : Mutable} {vs : Nat}

/-! ### Results -/

section Results

/-- `unblock` returns `Ok` exactly when the thread is blocked, and `INVALID_STATE` otherwise. -/
theorem unblock_result (hv : s.heap.value? t = some (.thread m vs)) {r : Except ErrorCode Unit}
    (h : (unblock t).run s = .ok r s') :
    r = if m.state = .blocked then .ok () else .error .invalidState := by
  rw [unblock, run_bind_of_ok (run_lock hv)] at h
  by_cases hb : m.state = .blocked
  · rw [if_neg (not_not.mpr hb)] at h
    obtain ⟨_, _, -, h⟩ := run_bind_eq_ok h
    obtain ⟨_, _, -, h⟩ := run_bind_eq_ok h
    rw [if_pos hb, eq_of_run_bind_pure h]
  · rw [if_pos hb, run_pure] at h
    injection h with h
    rw [if_neg hb, h]

/-- `terminate` says whether it invoked the Terminated upcall: when no Syscall upcall of the
thread is under way. -/
theorem terminate_result (hv : s.heap.value? t = some (.thread m vs)) {r : Except ErrorCode Bool}
    (h : (terminate t).run s = .ok r s') :
    r = if m.state = .terminated then .error .invalidState else .ok (decide (m.inUpcalls = 0)) := by
  rw [terminate, run_bind_of_ok (run_lock hv)] at h
  by_cases ht : m.state = .terminated
  · rw [if_pos ht, run_pure] at h
    injection h with h
    rw [if_pos ht, h]
  rw [if_neg ht] at h
  obtain ⟨_, _, -, h⟩ := run_bind_eq_ok h
  rw [if_neg ht]
  by_cases h0 : m.inUpcalls = 0
  · rw [if_pos h0] at h
    rw [eq_of_run_bind_pure h, decide_eq_true h0]
  · rw [if_neg h0, run_pure] at h
    injection h with h
    rw [← h, decide_eq_false h0]

/-- The thread a borrowed handle names keeps its `Mutable` in the heap the borrow leaves. -/
private theorem value?_borrow {thread : Handle} (hv : s.heap.value? thread.raw = some (.thread m vs)) :
    (s.heap.incr thread.raw).value? thread.raw = some (.thread m vs) := by
  rwa [Heap.value?_incr]

variable (hs : Sound s locals leak) {thread : Handle} (hh : thread ∈ s.handles)
include hs hh

theorem contextCall_result {action : HandleRight}
    (hc : thread.typeId = .thread ∧ thread.right.contains action = true)
    (hv : s.heap.value? thread.raw = some (.thread m vs)) {r : Except ErrorCode Unit}
    (h : (contextCall action thread).run s = .ok r s') :
    r = if m.state = .blocked then .ok () else .error .invalidState := by
  rw [contextCall, run_bind_of_ok (run_fromBorrowedHandle_ok hs hh hc.1 hc.2)] at h
  dsimp only at h
  rw [run_bind_of_ok (run_lock (s := { s with heap := s.heap.incr thread.raw })
    (value?_borrow hv))] at h
  obtain ⟨_, _, -, h⟩ := run_bind_eq_ok h
  by_cases hb : m.state = .blocked
  · rw [if_neg (not_not.mpr hb), run_pure] at h
    injection h with h
    rw [if_pos hb, h]
  · rw [if_pos hb, run_pure] at h
    injection h with h
    rw [if_neg hb, h]

theorem threadUnblock_result (hc : thread.typeId = .thread ∧ thread.right.contains .WRITE = true)
    (hv : s.heap.value? thread.raw = some (.thread m vs)) {r : Except ErrorCode Unit}
    (h : (threadUnblock thread).run s = .ok r s') :
    r = if m.state = .blocked then .ok () else .error .invalidState := by
  rw [threadUnblock, run_bind_of_ok (run_fromBorrowedHandle_ok hs hh hc.1 hc.2)] at h
  dsimp only at h
  obtain ⟨r', _, hun, h⟩ := run_bind_eq_ok h
  rw [eq_of_run_bind_pure h]
  exact unblock_result (value?_borrow hv) hun

/-- `thread_terminate` succeeds unless the thread is already terminated, whether or not it
invoked the Terminated upcall. -/
theorem threadTerminate_result (hc : thread.typeId = .thread ∧ thread.right.contains .WRITE = true)
    (hv : s.heap.value? thread.raw = some (.thread m vs)) {r : Except ErrorCode Unit}
    (h : (threadTerminate thread).run s = .ok r s') :
    r = if m.state = .terminated then .error .invalidState else .ok () := by
  rw [threadTerminate, run_bind_of_ok (run_fromBorrowedHandle_ok hs hh hc.1 hc.2)] at h
  dsimp only at h
  obtain ⟨r', _, hterm, h⟩ := run_bind_eq_ok h
  rw [terminate_result (value?_borrow hv) hterm] at h
  by_cases ht : m.state = .terminated
  · rw [if_pos ht] at h ⊢
    exact eq_of_run_bind_pure h
  rw [if_neg ht] at h ⊢
  cases hd : decide (m.inUpcalls = 0) <;> rw [hd] at h <;> dsimp only at h
  · exact eq_of_run_bind_pure h
  · rw [run_pure] at h
    injection h with h
    exact h.symm

end Results

/-- `thread_create` on a `VmSpace` handle with the `MAP` right succeeds, and gives the server the
handle of the new thread, the heap's next object. -/
theorem threadCreate_result (hs : Sound s locals leak) {vmspace : Handle}
    (hh : vmspace ∈ s.handles) (hc : vmspace.typeId = .vmSpace ∧ vmspace.right.contains .MAP = true)
    {r : Except ErrorCode Unit} (h : (threadCreate vmspace).run s = .ok r s') :
    r = .ok () ∧ s'.handles = s.handles ++ [⟨s.heap.next, .thread, threadRight⟩] := by
  simp only [threadCreate, run_bind_of_ok (run_fromBorrowedHandle_ok hs hh hc.1 hc.2), run_bind,
    run_focus, heapLens, SharedRef.run_new, giveHandle, run_modify, run_pure] at h
  injection h with hr hs'
  subst hr hs'
  simp [SharedRef.intoHandle, Heap.next_incr]

/-! ### Handles -/

section Handles

/-- A change of the heap leaves the handles alone. -/
private theorem handles_set (h : Heap Object) (s : Kernel) : (heapLens.set h s).handles = s.handles :=
  rfl

private theorem keeps_handles_lock (t : Nat) : Keeps handles (lock t) :=
  keeps_get.bind fun s => by
    split
    · exact keeps_pure _
    · exact keeps_throw _

private theorem keeps_handles_dropRef (r : Nat) : Keeps handles (dropRef r) :=
  (keeps_focus handles_set _).bind fun o => by
    split
    · exact (keeps_focus handles_set _).bind fun _ => keeps_pure _
    · exact keeps_pure _

private theorem keeps_handles_borrow (typeId : TypeId) (thread : Handle) (action : HandleRight) :
    Keeps handles (fromBorrowedHandle typeId thread action) :=
  keeps_focus handles_set _

theorem keeps_handles_contextCall (action : HandleRight) (thread : Handle) :
    Keeps handles (contextCall action thread) :=
  (keeps_handles_borrow _ _ _).bind fun r => by
    split
    · exact keeps_pure _
    · refine (keeps_handles_lock _).bind fun m => (keeps_handles_dropRef _).bind fun _ => ?_
      split <;> exact keeps_pure _

private theorem keeps_handles_setMutable (t : Nat) (m : Mutable) : Keeps handles (setMutable t m) :=
  keeps_modify fun _ => rfl

private theorem keeps_handles_unblock (t : Nat) : Keeps handles (unblock t) :=
  (keeps_handles_lock t).bind fun m => by
    split
    · exact keeps_pure _
    · have hpush : Keeps handles (pushBack t) := keeps_modify fun _ => rfl
      exact (keeps_focus handles_set _).bind fun _ => hpush.bind fun _ =>
        (keeps_handles_setMutable _ _).bind fun _ => keeps_pure _

private theorem keeps_handles_terminate (t : Nat) : Keeps handles (terminate t) :=
  (keeps_handles_lock t).bind fun m => by
    split
    · exact keeps_pure _
    · refine (keeps_handles_setMutable _ _).bind fun _ => ?_
      have hinvoke : Keeps handles (invoke t .terminated (.terminate t)) := keeps_modify fun _ => rfl
      split
      · exact hinvoke.bind fun _ => keeps_pure _
      · exact keeps_pure _

theorem keeps_handles_threadUnblock (thread : Handle) : Keeps handles (threadUnblock thread) :=
  (keeps_handles_borrow _ _ _).bind fun r => by
    split
    · exact keeps_pure _
    · exact (keeps_handles_unblock _).bind fun _ => (keeps_handles_dropRef _).bind fun _ =>
        keeps_pure _

theorem keeps_handles_threadTerminate (thread : Handle) :
    Keeps handles (threadTerminate thread) :=
  (keeps_handles_borrow _ _ _).bind fun r => by
    split
    · exact keeps_pure _
    · refine (keeps_handles_terminate _).bind fun b => ?_
      split
      · exact (keeps_handles_dropRef _).bind fun _ => keeps_pure _
      · exact keeps_pure _
      · exact (keeps_handles_dropRef _).bind fun _ => keeps_pure _

end Handles

/-! ### Calls from reachable states -/

/-- From a reachable state, a call the CPU can take returns, and the state it leaves is
reachable. -/
theorem Reachable.run_call (h : s.Reachable) {c : Call} (he : enabled s (.call c) = true) :
    ∃ r s', (call c).run s = .ok r s' ∧ Next s (.call c) s' := by
  obtain ⟨s', hn⟩ := h.progress_call he
  obtain ⟨r, s₁, hrun, hpure⟩ := run_bind_eq_ok hn.2
  rw [run_pure] at hpure
  injection hpure with _ hs₁
  exact ⟨r, s₁, hs₁ ▸ hrun, hs₁ ▸ hn⟩

/-- A `syscall` is taken from no upcall. -/
theorem Next.frames_of_syscall (hn : Next s .syscall s') : s.frames = [] := by
  have := hn.1
  simp only [enabled, Bool.and_eq_true, List.isEmpty_iff] at this
  exact this.1

/-- A thread the server holds a handle of is alive, with its abstract `Mutable`. -/
theorem Sim.value_of_handle {σ : ThreadSystem} (hs : Sound s locals leak) (hR : Sim s σ)
    {thread : Handle} (hh : thread ∈ s.handles) (hty : thread.typeId = .thread)
    (hm : σ.mutable thread.raw = some m) : ∃ vs, s.heap.value? thread.raw = some (.thread m vs) := by
  obtain ⟨m', vs, hv⟩ := Heap.exists_of_kind_thread (hty ▸ hs.handle_kind thread hh)
  obtain rfl : m' = m := Option.some.inj ((hR.mutable _ _ _ hv).symm.trans hm)
  exact ⟨vs, hv⟩

end Kernel

end Ftl

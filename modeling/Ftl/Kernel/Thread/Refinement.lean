import Mathlib
import Ftl.Kernel.Thread.Refcount
import Ftl.Kernel.Thread.Abstract

/-!
# The kernel's threads run as the abstract thread system

`Sim s σ` relates a state of the kernel's model to one of `Ftl.ThreadSystem`: a live thread has
its abstract `Mutable`, and the runqueue, the current thread, the frames and the upcalls are the
same. Each function of the kernel code, run from a state where the references add up (`Sound`)
and whose abstract counterpart does not panic, returns without a panic, keeps the references
adding up, and ends related to what the abstract function computes. The kernel code differs from
the abstract one only by the `clone`s and `drop`s it makes on the way: `return_to_user` pushes
the current thread to the front of the runqueue and pops it again, `handle_syscall` takes a
reference to the current thread before it clears the slot, and so on.

The one reference the code loses is the handle that `thread_destroy` consumes when its type is
not `Thread` (`Event.leak`).

## Main definitions

* `Ftl.Kernel.Sim`.
* `Ftl.Kernel.Event.action`: the abstract action an event runs.
* `Ftl.Kernel.Event.leak`: the references an event loses.

## Main results

* `Ftl.Kernel.run_popLoop`, `Ftl.Kernel.run_returnToUser`, `Ftl.Kernel.run_handleSyscall`,
  `Ftl.Kernel.run_upcallReturn`, `Ftl.Kernel.run_call`: the kernel code refines the abstract.
* `Ftl.Kernel.run_step`: one transition.
-/

namespace Ftl

namespace Kernel

open EStateM

/-- The kernel's state as the abstract thread system sees it: a live thread's `Mutable` is its
abstract one; the runqueue, the current thread, the frames and the upcalls are the same; and a
thread the abstract system knows has an address the heap handed out. -/
structure Sim (s : Kernel) (σ : ThreadSystem) : Prop where
  mutable : ∀ t m vs, s.heap.value? t = some (.thread m vs) → σ.mutable t = some m
  runqueue : s.runqueue = σ.runqueue
  current : s.current = σ.current
  frames : s.frames = σ.frames
  upcalls : s.upcalls = σ.upcalls
  known_lt : ∀ t, σ.mutable t ≠ none → t < s.heap.next

variable {s : Kernel} {σ σ' : ThreadSystem} {locals : List Nat} {leak : Nat → Nat}

/-! ### The relation under the primitives -/

/-- A heap change that frees objects or changes counters only. -/
theorem Sim.of_heap {h' : Heap Object} (hR : Sim s σ) (hnext : h'.next = s.heap.next)
    (hv : ∀ x v, h'.value? x = some v → s.heap.value? x = some v) :
    Sim { s with heap := h' } σ where
  mutable t m vs ht := hR.mutable t m vs (hv _ _ ht)
  runqueue := hR.runqueue
  current := hR.current
  frames := hR.frames
  upcalls := hR.upcalls
  known_lt t ht := hnext ▸ hR.known_lt t ht

theorem Sim.incr (hR : Sim s σ) (r : Nat) : Sim { s with heap := s.heap.incr r } σ :=
  hR.of_heap (Heap.next_incr _ _) fun x v hx => by rwa [Heap.value?_incr] at hx

theorem Sim.dropped (hR : Sim s σ) (r : Nat) : Sim { s with heap := s.heap.dropped r } σ :=
  hR.of_heap (Heap.next_dropped _ _) fun _ _ => Heap.value?_of_dropped

/-- Storing a live thread's `Mutable` is the abstract `setMutable`. -/
theorem Sim.setMutable (hR : Sim s σ) {t : Nat} {m : Mutable} {vs : Nat} (hlt : t < s.heap.next)
    (hv : s.heap.value? t = some (.thread m vs)) (m' : Mutable) :
    Sim { s with heap := s.heap.modifyValue t (Object.withMutable m') } (σ.setMutable t m') where
  mutable x mx vx hx := by
    rw [Heap.value?_modifyValue] at hx
    simp only [ThreadSystem.mutable_setMutable]
    split_ifs at hx ⊢ with hxt
    · subst hxt
      simp only [hv, Option.map_some, Object.withMutable, Option.some.injEq,
        Object.thread.injEq] at hx
      rw [hx.1]
    · exact hR.mutable x mx vx hx
  runqueue := hR.runqueue
  current := hR.current
  frames := hR.frames
  upcalls := hR.upcalls
  known_lt x hx := by
    simp only [ThreadSystem.mutable_setMutable] at hx
    split_ifs at hx with hxt
    · exact hxt ▸ hlt
    · exact hR.known_lt x hx

theorem Sim.invoke (hR : Sim s σ) (t : Nat) (arg : UpcallArg) (f : Frame) :
    Sim { s with upcalls := s.upcalls ++ [(t, arg)], frames := f :: s.frames }
      (σ.invoke t arg f) :=
  ⟨hR.mutable, hR.runqueue, hR.current, by simp [hR.frames], by simp [hR.upcalls], hR.known_lt⟩

/-- A new object that is no thread. -/
theorem Sim.alloc (hR : Sim s σ) {v : Object} (hv : ∀ m vs, v ≠ .thread m vs) :
    Sim { s with heap := s.heap.alloc v } σ where
  mutable t m vs ht := by
    rw [Heap.value?_alloc] at ht
    split_ifs at ht with htn
    · cases ht
      exact absurd rfl (hv m vs)
    · exact hR.mutable t m vs ht
  runqueue := hR.runqueue
  current := hR.current
  frames := hR.frames
  upcalls := hR.upcalls
  known_lt t ht := by
    have := hR.known_lt t ht
    simp only [Heap.next_alloc]
    omega

/-- A new thread is the abstract one created under its address. -/
theorem Sim.alloc_thread (hR : Sim s σ) (m : Mutable) (vs : Nat) :
    Sim { s with heap := s.heap.alloc (.thread m vs) } (σ.setMutable s.heap.next m) where
  mutable t m' vs' ht := by
    rw [Heap.value?_alloc] at ht
    simp only [ThreadSystem.mutable_setMutable]
    split_ifs at ht ⊢ with htn
    · cases ht
      rfl
    · exact hR.mutable t m' vs' ht
  runqueue := hR.runqueue
  current := hR.current
  frames := hR.frames
  upcalls := hR.upcalls
  known_lt t ht := by
    simp only [ThreadSystem.mutable_setMutable] at ht
    simp only [Heap.next_alloc]
    split_ifs at ht with htn
    · omega
    · have := hR.known_lt t ht
      omega

/-- The handles are no part of the abstract system. -/
theorem Sim.setHandles (hR : Sim s σ) (hds : List Handle) : Sim { s with handles := hds } σ :=
  ⟨hR.mutable, hR.runqueue, hR.current, hR.frames, hR.upcalls, hR.known_lt⟩

/-! ### The current thread and the scheduler -/

theorem run_lock_of_kind (hk : s.heap.kind t = some .thread) :
    ∃ m vs, s.heap.value? t = some (.thread m vs) ∧ (lock t).run s = .ok m s := by
  obtain ⟨m, vs, hv⟩ := Heap.exists_of_kind_thread hk
  exact ⟨m, vs, hv, run_lock hv⟩

theorem run_isRunnable {t : Nat} {m : Mutable} {vs : Nat}
    (hv : s.heap.value? t = some (.thread m vs)) :
    (isRunnable t).run s = .ok (m.state == .runnable) s := by
  simp only [isRunnable, run_bind_of_ok (run_lock hv), run_pure]

/-- The two counts of a local that is added and then taken away. -/
theorem count_erase_append_self (l : List Nat) (c x : Nat) :
    ((l ++ [c]).erase c).count x = l.count x := by
  by_cases hx : x = c
  · subst hx
    rw [List.count_erase_self, List.count_append]
    simp
  · rw [List.count_erase_of_ne hx, List.count_append]
    simp [Ne.symm hx]

theorem run_clear_of_none (hc : s.current = none) :
    clear.run s = .ok () { s with current := none } := by
  simp only [clear, run_bind, run_get, run_modify, hc, run_pure]

theorem run_clear_of_some (hs : Sound s locals leak) {c : Nat} (hc : s.current = some c) :
    clear.run s = .ok () { s with current := none, heap := s.heap.dropped c } := by
  have h1 := hs.clearCurrent
  rw [hc] at h1
  simp only [clear, run_bind, run_get, run_modify, hc]
  exact run_dropRef h1 (by simp)

/-- `clear`: the current thread's reference becomes a local, which is dropped, and the abstract
system has no current thread. -/
theorem run_clear (hs : Sound s locals leak) (hR : Sim s σ) :
    ∃ s', clear.run s = .ok () s' ∧ Sound s' locals leak ∧ Sim s' { σ with current := none } := by
  have hR1 : Sim { s with current := none } { σ with current := none } :=
    ⟨hR.mutable, hR.runqueue, rfl, hR.frames, hR.upcalls, hR.known_lt⟩
  have h1 := hs.clearCurrent
  cases hc : s.current with
  | none => exact ⟨_, run_clear_of_none hc, by simpa [hc] using h1, hR1⟩
  | some c =>
    rw [hc] at h1
    refine ⟨_, run_clear_of_some hs hc, ?_, hR1.dropped c⟩
    exact (h1.dropped (by simp)).congr_locals fun x => (count_erase_append_self locals c x).symm

/-- `update(t)`: `t`'s local reference becomes the current one, and the old current thread's
reference is dropped. -/
theorem run_update (hs : Sound s locals leak) (hR : Sim s σ) {t : Nat} (ht : t ∈ locals)
    (hk : s.heap.kind t = some .thread) :
    ∃ s', (update t).run s = .ok () s' ∧ Sound s' (locals.erase t) leak ∧
      Sim s' { σ with current := some t } := by
  have hR1 : Sim { s with current := some t } { σ with current := some t } :=
    ⟨hR.mutable, hR.runqueue, rfl, hR.frames, hR.upcalls, hR.known_lt⟩
  have h1 := hs.toCurrent ht hk
  cases hc : s.current with
  | none =>
    refine ⟨{ s with current := some t }, ?_, by simpa [hc] using h1, hR1⟩
    simp only [update, run_bind, run_get, run_modify, hc, run_pure]
  | some c =>
    rw [hc] at h1
    have hmem : c ∈ locals.erase t ++ [c] := by simp
    refine ⟨{ s with current := some t, heap := s.heap.dropped c }, ?_, ?_, hR1.dropped c⟩
    · simp only [update, run_bind, run_get, run_modify, hc]
      exact run_dropRef h1 hmem
    · exact (h1.dropped hmem).congr_locals fun x => (count_erase_append_self _ c x).symm

/-- How kernel code ends in the state `s'`, abstractly `σ'`: it returns, unless `σ'` leaves the
CPU idle, where `arch::idle()` panics. -/
def exitResult (σ' : ThreadSystem) (s' : Kernel) : Result Fault Kernel Unit :=
  if σ'.Idle then .error .panic s' else .ok () s'

theorem exitResult_of_not_idle {σ' : ThreadSystem} {s' : Kernel} (h : ¬ σ'.Idle) :
    exitResult σ' s' = .ok () s' :=
  if_neg h

theorem exitResult_of_frames {σ' : ThreadSystem} {s' : Kernel} (h : σ'.frames ≠ []) :
    exitResult σ' s' = .ok () s' :=
  exitResult_of_not_idle fun hi => h hi.2

theorem exitResult_eq_ok {σ' : ThreadSystem} {s' s'' : Kernel} :
    exitResult σ' s' = .ok () s'' ↔ ¬ σ'.Idle ∧ s'' = s' := by
  unfold exitResult
  split_ifs with hi <;> simp [hi, eq_comm]

/-- The loop of `return_to_user` is `pick`: the runnable front thread is entered, and a thread
that is not runnable is dropped from the queue; with no thread left, `arch::idle()` panics. -/
theorem run_popLoop : ∀ (q : List Nat) {s : Kernel} {σ : ThreadSystem} {locals : List Nat},
    Sound s locals leak → Sim s σ → s.runqueue = q → s.frames = [] →
    ∃ s', (popLoop q).run s = exitResult σ.pick s' ∧ Sound s' locals leak ∧ Sim s' σ.pick
  | [], s, σ, locals, hs, hR, hq, hf => by
    obtain ⟨s', hrun, hs', hR'⟩ := run_clear hs hR
    have hpick : σ.pick = { σ with current := none } := ThreadSystem.pick_of_nil (hR.runqueue ▸ hq)
    have hidle : σ.pick.Idle := by
      rw [hpick]
      exact ⟨rfl, hR.frames ▸ hf⟩
    refine ⟨s', ?_, hs', hpick ▸ hR'⟩
    simp only [popLoop, run_bind_of_ok hrun, exitResult, if_pos hidle]
    rfl
  | t :: q, s, σ, locals, hs, hR, hq, hf => by
    have h1 := hs.popRunqueue hq
    have hR1 : Sim { s with runqueue := q } { σ with runqueue := q } :=
      ⟨hR.mutable, rfl, hR.current, hR.frames, hR.upcalls, hR.known_lt⟩
    have hσq : σ.runqueue = t :: q := hR.runqueue ▸ hq
    have hk : s.heap.kind t = some .thread := hs.runqueue_kind t (by simp [hq])
    obtain ⟨m, vs, hv⟩ := Heap.exists_of_kind_thread hk
    have hm := hR.mutable t m vs hv
    by_cases hr : m.state = .runnable
    · obtain ⟨s', hrun, hs', hR'⟩ := run_update h1 hR1 (List.mem_cons_self ..) hk
      rw [ThreadSystem.pick_of_runnable hσq (by simp [ThreadSystem.isRunnable, hm, hr])]
      refine ⟨s', ?_, by simpa using hs', hR'⟩
      rw [exitResult_of_not_idle fun hi => Option.some_ne_none _ hi.1]
      simp only [popLoop, run_bind, run_modify]
      rw [run_isRunnable (s := { s with runqueue := q }) hv]
      simpa [hr] using hrun
    · have h2 := h1.dropped (List.mem_cons_self ..)
      rw [List.erase_cons_head] at h2
      obtain ⟨s', hrun, hs', hR'⟩ := run_popLoop q h2 (hR1.dropped t) rfl hf
      rw [ThreadSystem.pick_of_not_runnable hσq (by simp [ThreadSystem.isRunnable, hm, hr])]
      refine ⟨s', ?_, hs', hR'⟩
      simp only [popLoop, run_bind, run_modify]
      rw [run_isRunnable (s := { s with runqueue := q }) hv]
      simp only [hr, beq_iff_eq, if_false]
      rw [run_bind_of_ok (run_dropRef h1 (List.mem_cons_self ..))]
      exact hrun

theorem run_currentThread_none (hc : s.current = none) : currentThread.run s = .ok none s := by
  simp only [currentThread, run_bind, run_get, hc, run_pure]

theorem run_currentThread_some (hs : Sound s locals leak) {c : Nat} (hc : s.current = some c) :
    currentThread.run s = .ok (some c) { s with heap := s.heap.incr c } := by
  have hr : 0 < (refs s).count c + locals.count c := by
    have := List.count_pos_iff.mpr (mem_refs_of_current (s := s) (t := c) (by simp [hc]))
    omega
  simp only [currentThread, run_bind, run_get, hc, run_cloneRef hs hr, run_pure]

/-- `return_to_user`. With a runnable current thread it pushes the thread to the front of the
runqueue and pops it again: the state comes back to itself. -/
theorem run_returnToUser (hs : Sound s locals leak) (hR : Sim s σ) (hf : s.frames = []) :
    ∃ s', returnToUser.run s = exitResult σ.returnToUser s' ∧ Sound s' locals leak ∧
      Sim s' σ.returnToUser := by
  cases hc : s.current with
  | none =>
    have hret : σ.returnToUser = σ.pick := by simp [ThreadSystem.returnToUser, ← hR.current, hc]
    obtain ⟨s', hrun, hs', hR'⟩ := run_popLoop s.runqueue hs hR rfl hf
    rw [hret]
    refine ⟨s', ?_, hs', hR'⟩
    simp only [returnToUser, run_bind, run_currentThread_none hc, run_get]
    exact hrun
  | some c =>
    have hσc : σ.current = some c := hR.current ▸ hc
    have hr : 0 < (refs s).count c + locals.count c := by
      have := List.count_pos_iff.mpr (mem_refs_of_current (s := s) (t := c) (by simp [hc]))
      omega
    have h1 := hs.incr hr
    have hR1 := hR.incr c
    have hk : s.heap.kind c = some .thread := hs.current_kind c (by simp [hc])
    obtain ⟨m, vs, hv⟩ := Heap.exists_of_kind_thread hk
    have hv1 : (s.heap.incr c).value? c = some (.thread m vs) := by rwa [Heap.value?_incr]
    have hm := hR.mutable c m vs hv
    by_cases hrun : m.state = .runnable
    · have h2 := h1.toRunqueue (List.mem_cons_self ..) (by simp [Heap.kind, hv1, Object.typeId])
        (q := c :: s.runqueue)
        (fun x => by
          rw [List.count_cons]
          by_cases hx : x = c
          · simp [hx]
          · simp [hx, Ne.symm hx]) (fun x hx => by simpa [or_comm] using hx)
      rw [List.erase_cons_head] at h2
      have hR2 : Sim { s with heap := s.heap.incr c, runqueue := c :: s.runqueue }
          { σ with runqueue := c :: σ.runqueue } :=
        ⟨hR1.mutable, by simp [hR.runqueue], hR1.current, hR1.frames, hR1.upcalls, hR1.known_lt⟩
      have hpick : { σ with runqueue := c :: σ.runqueue }.pick = σ := by
        rw [ThreadSystem.pick_of_runnable rfl (by simp [ThreadSystem.isRunnable, hm, hrun])]
        cases σ
        simp_all
      have hret : σ.returnToUser = { σ with runqueue := c :: σ.runqueue }.pick := by
        rw [hpick]
        simp [ThreadSystem.returnToUser, hσc, ThreadSystem.isRunnable, hm, hrun]
      obtain ⟨s', hrun', hs', hR'⟩ := run_popLoop (c :: s.runqueue) h2 hR2 rfl hf
      rw [hret]
      refine ⟨s', ?_, hs', hR'⟩
      simp only [returnToUser, run_bind, run_currentThread_some hs hc]
      rw [run_isRunnable (s := { s with heap := s.heap.incr c }) hv1]
      simpa [hrun, pushFront] using hrun'
    · have h2 := h1.dropped (List.mem_cons_self ..)
      rw [List.erase_cons_head] at h2
      have hret : σ.returnToUser = σ.pick := by
        simp [ThreadSystem.returnToUser, hσc, ThreadSystem.isRunnable, hm, hrun]
      obtain ⟨s', hrun', hs', hR'⟩ := run_popLoop s.runqueue h2 (hR1.dropped c) rfl hf
      rw [hret]
      refine ⟨s', ?_, hs', hR'⟩
      simp only [returnToUser, run_bind, run_currentThread_some hs hc]
      rw [run_isRunnable (s := { s with heap := s.heap.incr c }) hv1]
      simp only [hrun, beq_iff_eq, if_false]
      rw [run_bind_of_ok (run_dropRef h1 (List.mem_cons_self ..))]
      simpa using hrun'

/-- `drop` of a reference that is not the object's last. -/
theorem run_dropRef_of_lt {r : Nat} {o : RefCounted Object} (hobj : s.heap.objs r = some o)
    (hlt : 1 < o.counter) : (dropRef r).run s = .ok () { s with heap := s.heap.dropped r } := by
  simp only [dropRef, run_focus_bind, heapLens, SharedRef.run_drop_of_lt hobj hlt,
    Heap.dropped_of_lt hobj hlt]
  rfl

/-- `return_to_user` with a runnable current thread, exactly: the thread is pushed to the front of
the runqueue, popped again and entered, and `update` drops the reference `CurrentThread::thread`
took, so the state comes back to itself. -/
theorem run_returnToUser_of_runnable (hs : Sound s locals leak) {c : Nat}
    (hc : s.current = some c) {m : Mutable} {vs : Nat} (hv : s.heap.value? c = some (.thread m vs))
    (hr : m.state = .runnable) :
    returnToUser.run s = .ok () s := by
  obtain ⟨o, hobj, hpos⟩ := hs.objs_of_pos (r := c) (by
    have := List.count_pos_iff.mpr (mem_refs_of_current (s := s) (t := c) (by simp [hc]))
    omega)
  have hv₁ : (s.heap.incr c).value? c = some (.thread m vs) := by rwa [Heap.value?_incr]
  have hobj₁ : (s.heap.incr c).objs c = some { o with counter := o.counter + 1 } := by
    simp [Heap.incr, hobj, Heap.setObj]
  have hlt : 1 < ({ o with counter := o.counter + 1 } : RefCounted Object).counter := by
    simp only; omega
  have hupd : (update c).run { s with heap := s.heap.incr c, runqueue := s.runqueue } = .ok () s := by
    simp only [update, run_bind, run_get, run_modify, hc]
    rw [run_dropRef_of_lt hobj₁ hlt, Heap.dropped_incr hobj hpos]
    cases s
    simp_all
  simp only [returnToUser, run_bind, run_currentThread_some hs hc]
  rw [run_isRunnable (s := { s with heap := s.heap.incr c }) hv₁]
  simp only [hr, beq_self_eq_true, if_true, pushFront, run_modify, run_get, popLoop, run_bind]
  rw [run_isRunnable (s := { s with heap := s.heap.incr c, runqueue := s.runqueue }) hv₁]
  simp only [hr, beq_self_eq_true, if_true]
  exact hupd

/-! ### Syscalls and upcalls -/

/-- Storing a thread's `Mutable` keeps the type of every object. -/
theorem kind_modifyValue_withMutable (h : Heap Object) (t : Nat) (m : Mutable) (x : Nat) :
    (h.modifyValue t (Object.withMutable m)).kind x = h.kind x := by
  simp only [Heap.kind, Heap.value?_modifyValue]
  split_ifs with hxt
  · subst hxt
    cases h.value? x with
    | none => rfl
    | some v => cases v <;> rfl
  · rfl

/-- `upcall.invoke`: a local reference to the thread passes to the frame that waits. -/
theorem Sound.invoke (hs : Sound s locals leak) {t : Nat} (ht : t ∈ locals)
    (hk : s.heap.kind t = some .thread) (arg : UpcallArg) {f : Frame} (hf : f.ref? = some t) :
    Sound { s with upcalls := s.upcalls ++ [(t, arg)], frames := f :: s.frames }
      (locals.erase t) leak := by
  have h := hs.pushFrame (f := f) (fun u hu => by
    rw [hf, Option.mem_def, Option.some.injEq] at hu
    exact hu ▸ ⟨ht, hk⟩)
  rw [hf] at h
  have h' : Sound { s with upcalls := s.upcalls ++ [(t, arg)], frames := f :: s.frames }
      (locals.diff [t]) leak :=
    ⟨h.fresh, h.pos, h.counted, h.runqueue_kind, h.current_kind, h.frame_kind, h.handle_kind,
      h.field_kind⟩
  rwa [List.diff_cons, List.diff_nil] at h'

/-- The syscall path: a reference to the current thread is taken and the slot cleared; the
thread blocks and its Syscall upcall holds the reference. -/
theorem run_handleSyscall (hs : Sound s locals leak) (hR : Sim s σ) (hf : s.frames = [])
    (hσ : σ.handleSyscall = some σ') :
    ∃ s', handleSyscall.run s = exitResult σ' s' ∧ Sound s' locals leak ∧ Sim s' σ' := by
  obtain ⟨c, m, hσc, hm, hcase⟩ := ThreadSystem.handleSyscall_eq_some hσ
  have hc : s.current = some c := hR.current.trans hσc
  have hr : 0 < (refs s).count c + locals.count c := by
    have := List.count_pos_iff.mpr (mem_refs_of_current (s := s) (t := c) (by simp [hc]))
    omega
  have hk : s.heap.kind c = some .thread := hs.current_kind c (by simp [hc])
  obtain ⟨m', vs, hv⟩ := Heap.exists_of_kind_thread hk
  obtain rfl : m = m' := Option.some.inj (hm.symm.trans (hR.mutable c m' vs hv))
  have h1 := hs.incr hr
  have hclear := run_clear_of_some h1 (c := c) hc
  have h1' := h1.clearCurrent
  rw [hc] at h1'
  have h2 := (h1'.dropped (by simp)).congr_locals
    fun x => (count_erase_append_self (c :: locals) c x).symm
  have hR2 : Sim { s with heap := (s.heap.incr c).dropped c, current := none }
      { σ with current := none } :=
    ⟨(hR.incr c).dropped c |>.mutable, hR.runqueue, rfl, hR.frames, hR.upcalls,
      ((hR.incr c).dropped c).known_lt⟩
  have hv2 : ((s.heap.incr c).dropped c).value? c = some (.thread m vs) := by
    rw [h1'.value?_dropped (by simp) (by simp)]
    simpa [Heap.value?_incr] using hv
  rcases hcase with ⟨hterm, rfl⟩ | ⟨hrun, rfl⟩
  · have h3 := h2.dropped (List.mem_cons_self ..)
    rw [List.erase_cons_head] at h3
    obtain ⟨s', hrun', hs', hR'⟩ := run_returnToUser h3 (hR2.dropped c) hf
    refine ⟨s', ?_, hs', hR'⟩
    simp only [handleSyscall, run_bind, run_currentThread_some hs hc, hclear]
    rw [run_lock (s := { s with heap := (s.heap.incr c).dropped c, current := none }) hv2]
    simp only [hterm, if_true]
    rw [run_bind_of_ok (run_dropRef h2 (List.mem_cons_self ..))]
    exact hrun'
  · have h3 := h2.setMutable c ⟨.blocked, m.inUpcalls + 1⟩
    have hk3 : ((s.heap.incr c).dropped c |>.modifyValue c
        (Object.withMutable ⟨.blocked, m.inUpcalls + 1⟩)).kind c = some .thread := by
      rw [kind_modifyValue_withMutable]
      simp [Heap.kind, hv2, Object.typeId]
    have h4 := h3.invoke (List.mem_cons_self ..) hk3 .syscall (f := .syscall c) rfl
    rw [List.erase_cons_head] at h4
    have hR3 := (hR2.setMutable (h2.lt_next hv2) hv2 ⟨.blocked, m.inUpcalls + 1⟩).invoke c
      .syscall (.syscall c)
    refine ⟨_, ?_, h4, hR3⟩
    rw [exitResult_of_frames (by simp)]
    simp only [handleSyscall, run_bind, run_currentThread_some hs hc, hclear]
    rw [run_lock (s := { s with heap := (s.heap.incr c).dropped c, current := none }) hv2]
    simp [hrun, setMutable, invoke]

/-- The second critical section of `Thread::handle_syscall`, with the frame's reference to `t`
as a local. -/
theorem run_afterSyscallUpcall (hs : Sound s locals leak) (hR : Sim s σ) (hf : s.frames = [])
    {t : Nat} (ht : t ∈ locals) (hk : s.heap.kind t = some .thread)
    (hσ : σ.afterSyscallUpcall t = some σ') :
    ∃ s', (afterSyscallUpcall t).run s = exitResult σ' s' ∧ Sound s' (locals.erase t) leak ∧
      Sim s' σ' := by
  obtain ⟨m, hm, hk0, hcase⟩ := ThreadSystem.afterSyscallUpcall_eq_some hσ
  obtain ⟨m', vs, hv⟩ := Heap.exists_of_kind_thread hk
  obtain rfl : m = m' := Option.some.inj (hm.symm.trans (hR.mutable t m' vs hv))
  have h1 := hs.setMutable t { m with inUpcalls := m.inUpcalls - 1 }
  have hR1 := hR.setMutable (hs.lt_next hv) hv { m with inUpcalls := m.inUpcalls - 1 }
  have hk1 : (s.heap.modifyValue t (Object.withMutable { m with inUpcalls := m.inUpcalls - 1 })).kind
      t = some .thread := by
    rw [kind_modifyValue_withMutable]
    exact hk
  rcases hcase with ⟨hk1', hterm, rfl⟩ | ⟨hnot, rfl⟩
  · have hm0 : { m with inUpcalls := m.inUpcalls - 1 } = { m with inUpcalls := 0 } := by
      rw [hk1']
    have h2 := h1.invoke ht hk1 .terminated (f := .syscallTerminated t) rfl
    refine ⟨_, ?_, h2, by rw [← hm0]; exact hR1.invoke t .terminated (.syscallTerminated t)⟩
    rw [exitResult_of_frames (by simp)]
    simp only [afterSyscallUpcall, run_bind_of_ok (run_lock hv), hk0, if_false]
    simp [setMutable, invoke, hk1', hterm]
  · have hcond : ¬ (m.inUpcalls - 1 = 0 ∧ m.state = .terminated) :=
      fun ⟨h0, h1⟩ => hnot ⟨by omega, h1⟩
    have h2 := h1.dropped ht
    obtain ⟨s', hrun', hs', hR'⟩ := run_returnToUser h2 (hR1.dropped t) hf
    refine ⟨s', ?_, hs', hR'⟩
    simp only [afterSyscallUpcall, run_bind_of_ok (run_lock hv), hk0, if_false]
    simp only [run_bind, setMutable, run_modify, hcond, if_false, run_dropRef h1 ht]
    exact hrun'

/-- The innermost upcall returns to the kernel code that waits for it. The frames are nested, so
the frame of the entry points or of `handle_syscall` is the last one, and the kernel then
returns to user. -/
theorem run_upcallReturn (hs : Sound s locals leak) (hR : Sim s σ) (hnest : Frame.Nested s.frames)
    (hσ : σ.upcallReturn = some σ') :
    ∃ s', upcallReturn.run s = exitResult σ' s' ∧ Sound s' locals leak ∧ Sim s' σ' := by
  unfold ThreadSystem.upcallReturn at hσ
  rw [← hR.frames] at hσ
  cases hf : s.frames with
  | nil => simp [hf] at hσ
  | cons f fs =>
    rw [hf] at hσ
    rw [hf] at hnest
    have h1 := hs.popFrame hf
    have hR1 : Sim { s with frames := fs } { σ with frames := fs } :=
      ⟨hR.mutable, hR.runqueue, hR.current, rfl, hR.upcalls, hR.known_lt⟩
    cases f with
    | boot =>
      simp only [Option.some.injEq] at hσ
      subst hσ
      obtain ⟨s', hrun', hs', hR'⟩ := run_returnToUser (by simpa [Frame.ref?] using h1) hR1
        (hnest.eq_nil rfl)
      exact ⟨s', by simpa [upcallReturn, hf] using hrun', hs', hR'⟩
    | syscall t =>
      have hk := hs.frame_kind (.syscall t) (by simp [hf]) t rfl
      obtain ⟨s', hrun', hs', hR'⟩ :=
        run_afterSyscallUpcall h1 hR1 (hnest.eq_nil rfl) (by simp [Frame.ref?]) hk hσ
      refine ⟨s', by simpa [upcallReturn, hf] using hrun', ?_, hR'⟩
      exact hs'.congr_locals fun x => (count_erase_append_self locals t x).symm
    | syscallTerminated t =>
      simp only [Option.some.injEq] at hσ
      subst hσ
      have h2 := (h1.dropped (by simp [Frame.ref?])).congr_locals
        fun x => (count_erase_append_self locals t x).symm
      obtain ⟨s', hrun', hs', hR'⟩ := run_returnToUser h2 (hR1.dropped t) (hnest.eq_nil rfl)
      refine ⟨s', ?_, hs', hR'⟩
      simp only [upcallReturn, run_bind, run_get, hf, run_modify,
        run_dropRef h1 (show t ∈ locals ++ [t] by simp)]
      exact hrun'
    | terminate t =>
      simp only [Option.some.injEq] at hσ
      subst hσ
      have hfs : fs ≠ [] := by
        rintro rfl
        simp [Frame.Nested, Frame.isTerminate] at hnest
      have h2 := (h1.dropped (by simp [Frame.ref?])).congr_locals
        fun x => (count_erase_append_self locals t x).symm
      refine ⟨_, ?_, h2, hR1.dropped t⟩
      rw [exitResult_of_frames hfs]
      simp only [upcallReturn, run_bind, run_get, hf, run_modify]
      exact run_dropRef h1 (by simp [Frame.ref?])

/-! ### Thread operations -/

/-- Only the sum of the leaked references matters. -/
theorem Sound.congr_leak {leak' : Nat → Nat} (hs : Sound s locals leak)
    (h : ∀ x, leak' x = leak x) : Sound s locals leak' :=
  { hs with counted := fun r => by rw [h r]; exact hs.counted r }

/-- `Thread::unblock`: `INVALID_STATE` and no change unless the thread is blocked; otherwise a new
reference to it goes to the back of the runqueue. -/
theorem run_unblock (hs : Sound s locals leak) (hR : Sim s σ) {t : Nat} (ht : t ∈ locals)
    (hk : s.heap.kind t = some .thread) (hσ : σ.unblock t = some σ') :
    ∃ r s', (unblock t).run s = .ok r s' ∧ Sound s' locals leak ∧ Sim s' σ' := by
  obtain ⟨m, hm, hcase⟩ := ThreadSystem.unblock_eq_some hσ
  obtain ⟨m', vs, hv⟩ := Heap.exists_of_kind_thread hk
  obtain rfl : m = m' := Option.some.inj (hm.symm.trans (hR.mutable t m' vs hv))
  rcases hcase with ⟨hb, rfl⟩ | ⟨hb, rfl⟩
  · refine ⟨.error .invalidState, s, ?_, hs, hR⟩
    simp [unblock, run_bind_of_ok (run_lock hv), hb]
  · have hr : 0 < (refs s).count t + locals.count t := by
      have := List.count_pos_iff.mpr ht
      omega
    have h1 := hs.incr hr
    have hv1 : (s.heap.incr t).value? t = some (.thread m vs) := by rwa [Heap.value?_incr]
    have h2 := h1.toRunqueue (List.mem_cons_self ..) (by simp [Heap.kind, hv1, Object.typeId])
      (q := s.runqueue ++ [t]) (fun x => by
        by_cases hx : x = t
        · subst hx
          simp
        · simp [hx, Ne.symm hx])
      (fun x hx => by simpa using hx)
    rw [List.erase_cons_head] at h2
    have h3 := h2.setMutable t { m with state := .runnable }
    have hR2 : Sim { s with heap := s.heap.incr t, runqueue := s.runqueue ++ [t] }
        { σ with runqueue := σ.runqueue ++ [t] } :=
      ⟨(hR.incr t).mutable, by simp [hR.runqueue], hR.current, hR.frames, hR.upcalls,
        (hR.incr t).known_lt⟩
    have hR3 := hR2.setMutable (h1.lt_next hv1) hv1 { m with state := .runnable }
    refine ⟨.ok (), _, ?_, h3, hR3⟩
    simp [unblock, run_bind_of_ok (run_lock hv), hb, run_cloneRef hs hr, pushBack, setMutable]

/-- `Thread::terminate`: `INVALID_STATE` on a terminated thread; otherwise the Terminated upcall
holds the reference now, or is deferred to the end of the thread's Syscall upcall. -/
theorem run_terminate (hs : Sound s locals leak) (hR : Sim s σ) {t : Nat} (ht : t ∈ locals)
    (hk : s.heap.kind t = some .thread) (hσ : σ.terminate t = some σ') :
    ∃ r s', (terminate t).run s = .ok r s' ∧ Sim s' σ' ∧
      (r = .ok true → Sound s' (locals.erase t) leak) ∧ (r ≠ .ok true → Sound s' locals leak) := by
  obtain ⟨m, hm, hcase⟩ := ThreadSystem.terminate_eq_some hσ
  obtain ⟨m', vs, hv⟩ := Heap.exists_of_kind_thread hk
  obtain rfl : m = m' := Option.some.inj (hm.symm.trans (hR.mutable t m' vs hv))
  have h1 := hs.setMutable t { m with state := .terminated }
  have hR1 := hR.setMutable (hs.lt_next hv) hv { m with state := .terminated }
  have hk1 : (s.heap.modifyValue t (Object.withMutable { m with state := .terminated })).kind t =
      some .thread := by
    rw [kind_modifyValue_withMutable]
    exact hk
  rcases hcase with ⟨hterm, rfl⟩ | ⟨hnt, h0, rfl⟩ | ⟨hnt, h0, rfl⟩
  · refine ⟨.error .invalidState, s, ?_, hR, (fun h => by cases h), fun _ => hs⟩
    simp [terminate, run_bind_of_ok (run_lock hv), hterm]
  · refine ⟨.ok true, _, ?_, hR1.invoke t .terminated (.terminate t),
      fun _ => h1.invoke ht hk1 .terminated (f := .terminate t) rfl, fun h => absurd rfl h⟩
    simp [terminate, run_bind_of_ok (run_lock hv), hnt, h0, setMutable, invoke]
  · refine ⟨.ok false, _, ?_, hR1, (fun h => by cases h), fun _ => h1⟩
    simp [terminate, run_bind_of_ok (run_lock hv), hnt, h0, setMutable]

/-! ### The calls of `START_INFO` -/

/-- The abstract action of a call: a thread call whose handle passes the checks of
`from_borrowed_handle`; a new thread is named by the address the heap hands out next. -/
def Call.action (next : Nat) : Call → ThreadSystem.Action
  | .threadCreate h =>
    if h.typeId = .vmSpace ∧ h.right.contains .MAP = true then .create next else .skip
  | .threadUnblock h =>
    if h.typeId = .thread ∧ h.right.contains .WRITE = true then .unblock h.raw else .skip
  | .threadTerminate h =>
    if h.typeId = .thread ∧ h.right.contains .WRITE = true then .terminate h.raw else .skip
  | _ => .skip

/-- A call's action is a handler's. -/
theorem Call.action_ne (c : Call) (next : Nat) :
    c.action next ≠ .syscall ∧ c.action next ≠ .interrupt ∧ c.action next ≠ .upcallReturn := by
  cases c <;> simp only [Call.action] <;> (try split_ifs) <;> simp

/-- The references a call loses: `thread_destroy` consumes a handle of another type than
`Thread` and drops nothing. -/
def Call.lost : Call → Nat → Nat
  | .threadDestroy h, x => if h.typeId ≠ .thread ∧ x = h.raw then 1 else 0
  | _, _ => 0

theorem count_pos_of_handle {hd : Handle} (hh : hd ∈ s.handles) :
    0 < (refs s).count hd.raw + locals.count hd.raw := by
  have := List.count_pos_iff.mpr (mem_refs_of_handle hh)
  omega

/-- A borrowed handle: one more reference, held by the call. -/
theorem Sound.borrow (hs : Sound s locals leak) {hd : Handle} (hh : hd ∈ s.handles) :
    Sound { s with heap := s.heap.incr hd.raw } (hd.raw :: locals) leak :=
  hs.incr (count_pos_of_handle hh)

theorem Sound.kind_borrow (hs : Sound s locals leak) {hd : Handle} (hh : hd ∈ s.handles) :
    (s.heap.incr hd.raw).kind hd.raw = some hd.typeId := by
  simpa [Heap.kind, Heap.value?_incr] using hs.handle_kind hd hh

theorem run_fromBorrowedHandle_ok (hs : Sound s locals leak) {handle : Handle}
    (hh : handle ∈ s.handles) {typeId : TypeId} {action : HandleRight}
    (hty : handle.typeId = typeId) (hright : handle.right.contains action = true) :
    (fromBorrowedHandle typeId handle action).run s =
      .ok (.ok handle.raw) { s with heap := s.heap.incr handle.raw } := by
  obtain ⟨o, hobj, hpos⟩ := hs.objs_of_pos (count_pos_of_handle hh)
  simp only [fromBorrowedHandle, run_focus, heapLens, SharedRef.fromBorrowedHandle, hty, hright,
    ne_eq, not_true_eq_false, if_false, Bool.not_true, Bool.false_eq_true, run_bind,
    SharedRef.run_clone hobj hpos, run_pure, Heap.incr, hobj]

theorem run_fromBorrowedHandle_error {handle : Handle} {typeId : TypeId} {action : HandleRight}
    (hfail : ¬ (handle.typeId = typeId ∧ handle.right.contains action = true)) :
    ∃ e, (fromBorrowedHandle typeId handle action).run s = .ok (.error e) s := by
  by_cases hty : handle.typeId = typeId
  · have hright : handle.right.contains action = false := by simpa [hty] using hfail
    exact ⟨.notAllowed, by simp [fromBorrowedHandle, run_focus, heapLens,
      SharedRef.fromBorrowedHandle, hty, hright]⟩
  · exact ⟨.invalidType, by simp [fromBorrowedHandle, run_focus, heapLens,
      SharedRef.fromBorrowedHandle, hty]⟩

/-- `SharedRef::new(v)?.into_handle()`: the new object's reference is the server's handle. -/
theorem Sound.allocHandle (hs : Sound s locals leak) (locals' : List Nat) (v : Object)
    (hv : ∀ r ∈ v.field?, s.heap.kind r = some .vmSpace)
    (hlocals : ∀ x, locals'.count x + v.field?.toList.count x = locals.count x)
    (right : HandleRight) :
    Sound { s with heap := s.heap.alloc v, handles := s.handles ++ [⟨s.heap.next, v.typeId, right⟩] }
      locals' leak := by
  have h1 := hs.alloc v hv hlocals
  have hmem : (⟨s.heap.next, v.typeId, right⟩ : Handle).raw ∈ s.heap.next :: locals' :=
    List.mem_cons_self ..
  have h2 := h1.giveHandle hmem (by simp [Heap.kind, Heap.value?_alloc])
  simpa using h2

theorem run_vmspaceCreate (hs : Sound s locals leak) (hR : Sim s σ) (ok : Bool) :
    ∃ r s', (vmspaceCreate ok).run s = .ok r s' ∧ Sound s' locals leak ∧ Sim s' σ := by
  cases ok with
  | false => exact ⟨.error .outOfMemory, s, by simp [vmspaceCreate], hs, hR⟩
  | true =>
    refine ⟨.ok (), _, ?_, hs.allocHandle locals .vmSpace (by simp [Object.field?])
      (by simp [Object.field?]) vmRight, (hR.alloc (by simp)).setHandles _⟩
    simp [vmspaceCreate, run_focus, heapLens, SharedRef.run_new, giveHandle,
      SharedRef.intoHandle, Heap.alloc, Object.typeId]

theorem run_vmareaAllocate (hs : Sound s locals leak) (hR : Sim s σ) (len : Nat) :
    ∃ r s', (vmareaAllocate len).run s = .ok r s' ∧ Sound s' locals leak ∧ Sim s' σ := by
  cases hnew : VmArea.newAnonymous len with
  | error e => exact ⟨.error e, s, by simp [vmareaAllocate, hnew], hs, hR⟩
  | ok area =>
    refine ⟨.ok (), _, ?_, hs.allocHandle locals .vmArea (by simp [Object.field?])
      (by simp [Object.field?]) vmRight, (hR.alloc (by simp)).setHandles _⟩
    simp [vmareaAllocate, hnew, run_focus, heapLens, SharedRef.run_new, giveHandle,
      SharedRef.intoHandle, Heap.alloc, Object.typeId]

/-- `thread_create`: the new thread owns the reference to its `VmSpace` that
`from_borrowed_handle` took. -/
theorem run_threadCreate (hs : Sound s locals leak) (hR : Sim s σ) {vmspace : Handle}
    (hh : vmspace ∈ s.handles)
    (hσ : σ.step (Call.action s.heap.next (.threadCreate vmspace)) = some σ') :
    ∃ r s', (threadCreate vmspace).run s = .ok r s' ∧ Sound s' locals leak ∧ Sim s' σ' := by
  by_cases hc : vmspace.typeId = .vmSpace ∧ vmspace.right.contains .MAP = true
  · simp only [Call.action, hc, and_self, if_true, ThreadSystem.step, Option.some.injEq] at hσ
    subst hσ
    have h1 := hs.borrow hh
    have hk : (s.heap.incr vmspace.raw).kind vmspace.raw = some .vmSpace := by
      rw [hs.kind_borrow hh, hc.1]
    have h2 := h1.allocHandle locals (.thread ⟨.blocked, 0⟩ vmspace.raw)
      (by simpa [Object.field?] using hk)
      (fun x => by
        rw [List.count_cons]
        by_cases hx : x = vmspace.raw
        · subst hx
          simp [Object.field?]
        · simp [Object.field?, Ne.symm hx]) threadRight
    have hR2 := ((hR.incr vmspace.raw).alloc_thread ⟨.blocked, 0⟩ vmspace.raw).setHandles
      (s.handles ++ [⟨s.heap.next, .thread, threadRight⟩])
    simp only [Heap.next_incr] at h2 hR2
    refine ⟨.ok (), _, ?_, h2, hR2⟩
    simp [threadCreate, run_bind_of_ok (run_fromBorrowedHandle_ok hs hh hc.1 hc.2),
      run_focus, heapLens, SharedRef.run_new, giveHandle, SharedRef.intoHandle, Heap.alloc,
      Object.typeId]
  · simp only [Call.action, hc, if_false, ThreadSystem.step, Option.some.injEq] at hσ
    subst hσ
    obtain ⟨e, he⟩ := run_fromBorrowedHandle_error (s := s) hc
    exact ⟨.error e, s, by simp [threadCreate, run_bind_of_ok he], hs, hR⟩

/-- `thread_get_context` and `thread_set_context` change no thread. -/
theorem run_contextCall (hs : Sound s locals leak) (hR : Sim s σ) {thread : Handle}
    (hh : thread ∈ s.handles) (action : HandleRight) :
    ∃ r s', (contextCall action thread).run s = .ok r s' ∧ Sound s' locals leak ∧ Sim s' σ := by
  by_cases hc : thread.typeId = .thread ∧ thread.right.contains action = true
  · have h1 := hs.borrow hh
    have hk := hs.kind_borrow hh
    rw [hc.1] at hk
    obtain ⟨m, vs, -, hlock⟩ := run_lock_of_kind (s := { s with heap := s.heap.incr thread.raw }) hk
    have h2 := h1.dropped (List.mem_cons_self ..)
    rw [List.erase_cons_head] at h2
    refine ⟨if m.state ≠ .blocked then .error .invalidState else .ok (), _, ?_, h2,
      ((hR.incr _).dropped _)⟩
    simp only [contextCall, run_bind_of_ok (run_fromBorrowedHandle_ok hs hh hc.1 hc.2),
      run_bind_of_ok hlock, run_bind_of_ok (run_dropRef h1 (List.mem_cons_self ..))]
    split <;> rfl
  · obtain ⟨e, he⟩ := run_fromBorrowedHandle_error (s := s) hc
    exact ⟨.error e, s, by simp [contextCall, run_bind_of_ok he], hs, hR⟩

theorem run_threadUnblock (hs : Sound s locals leak) (hR : Sim s σ) {thread : Handle}
    (hh : thread ∈ s.handles)
    (hσ : σ.step (Call.action n (.threadUnblock thread)) = some σ') :
    ∃ r s', (threadUnblock thread).run s = .ok r s' ∧ Sound s' locals leak ∧ Sim s' σ' := by
  by_cases hc : thread.typeId = .thread ∧ thread.right.contains .WRITE = true
  · simp only [Call.action, hc, and_self, if_true, ThreadSystem.step] at hσ
    have hk := hs.kind_borrow hh
    rw [hc.1] at hk
    obtain ⟨r, s2, hrun, hs2, hR2⟩ :=
      run_unblock (hs.borrow hh) (hR.incr _) (List.mem_cons_self ..) hk hσ
    have h3 := hs2.dropped (List.mem_cons_self ..)
    rw [List.erase_cons_head] at h3
    refine ⟨r, _, ?_, h3, hR2.dropped _⟩
    simp only [threadUnblock, run_bind_of_ok (run_fromBorrowedHandle_ok hs hh hc.1 hc.2),
      run_bind_of_ok hrun, run_bind_of_ok (run_dropRef hs2 (List.mem_cons_self ..))]
    rfl
  · simp only [Call.action, hc, if_false, ThreadSystem.step, Option.some.injEq] at hσ
    subst hσ
    obtain ⟨e, he⟩ := run_fromBorrowedHandle_error (s := s) hc
    exact ⟨.error e, s, by simp [threadUnblock, run_bind_of_ok he], hs, hR⟩

/-- `thread_terminate`: when the Terminated upcall was invoked, the frame holds the call's
reference. -/
theorem run_threadTerminate (hs : Sound s locals leak) (hR : Sim s σ) {thread : Handle}
    (hh : thread ∈ s.handles)
    (hσ : σ.step (Call.action n (.threadTerminate thread)) = some σ') :
    ∃ r s', (threadTerminate thread).run s = .ok r s' ∧ Sound s' locals leak ∧ Sim s' σ' := by
  by_cases hc : thread.typeId = .thread ∧ thread.right.contains .WRITE = true
  · simp only [Call.action, hc, and_self, if_true, ThreadSystem.step] at hσ
    have hk := hs.kind_borrow hh
    rw [hc.1] at hk
    obtain ⟨r, s2, hrun, hR2, htrue, hother⟩ :=
      run_terminate (hs.borrow hh) (hR.incr _) (List.mem_cons_self ..) hk hσ
    have hborrow := run_fromBorrowedHandle_ok hs hh hc.1 hc.2
    by_cases hr : r = .ok true
    · subst hr
      have h2 := htrue rfl
      rw [List.erase_cons_head] at h2
      refine ⟨.ok (), s2, ?_, h2, hR2⟩
      simp only [threadTerminate, run_bind_of_ok hborrow, run_bind_of_ok hrun]
      rfl
    · have hs2 := hother hr
      have h3 := hs2.dropped (List.mem_cons_self ..)
      rw [List.erase_cons_head] at h3
      have hdrop := run_dropRef hs2 (List.mem_cons_self ..)
      rcases r with e | (_ | _)
      · refine ⟨.error e, _, ?_, h3, hR2.dropped _⟩
        simp only [threadTerminate, run_bind_of_ok hborrow, run_bind_of_ok hrun,
          run_bind_of_ok hdrop]
        rfl
      · refine ⟨.ok (), _, ?_, h3, hR2.dropped _⟩
        simp only [threadTerminate, run_bind_of_ok hborrow, run_bind_of_ok hrun,
          run_bind_of_ok hdrop]
        rfl
      · exact absurd rfl hr
  · simp only [Call.action, hc, if_false, ThreadSystem.step, Option.some.injEq] at hσ
    subst hσ
    obtain ⟨e, he⟩ := run_fromBorrowedHandle_error (s := s) hc
    exact ⟨.error e, s, by simp [threadTerminate, run_bind_of_ok he], hs, hR⟩

/-- `thread_destroy`: the moved handle's reference is dropped when it names a thread, and lost
otherwise. -/
theorem run_threadDestroy (hs : Sound s locals leak) (hR : Sim s σ) {thread : Handle}
    (hh : thread ∈ s.handles) :
    ∃ r s', (threadDestroy thread).run s = .ok r s' ∧
      Sound s' locals (leak + Call.lost (.threadDestroy thread)) ∧ Sim s' σ := by
  have h1 := hs.takeHandle hh
  have hR1 := hR.setHandles (s.handles.erase thread)
  by_cases hty : thread.typeId = .thread
  · have h2 := h1.dropped (List.mem_cons_self ..)
    rw [List.erase_cons_head] at h2
    refine ⟨.ok (), _, ?_, h2.congr_leak fun x => by simp [Call.lost, hty], hR1.dropped _⟩
    simp only [threadDestroy, run_bind, run_modify, SharedRef.fromMovedHandle, hty, ne_eq,
      not_true_eq_false, if_false, run_dropRef h1 (List.mem_cons_self ..)]
    rfl
  · refine ⟨.error .invalidType, _, ?_, h1.forget.congr_leak fun x => ?_, hR1⟩
    · simp [threadDestroy, run_modify, SharedRef.fromMovedHandle, hty]
    · simp [Call.lost, hty]

theorem Sound.add_lost (hs : Sound s locals leak) {c : Call} (hc : ∀ h, c ≠ .threadDestroy h) :
    Sound s locals (leak + c.lost) :=
  hs.congr_leak fun x => by cases c <;> simp_all [Call.lost]

/-- A call other than `thread_destroy` loses no reference. -/
theorem run_call_of_ne_destroy {c : Call} (hc : ∀ h, c ≠ .threadDestroy h)
    (h : ∃ r s', (call c).run s = .ok r s' ∧ Sound s' locals leak ∧ Sim s' σ') :
    ∃ r s', (call c).run s = .ok r s' ∧ Sound s' locals (leak + c.lost) ∧ Sim s' σ' := by
  obtain ⟨r, s', hrun, hs', hR'⟩ := h
  exact ⟨r, s', hrun, hs'.add_lost hc, hR'⟩

/-- Every call the server can make, as the abstract action it refines: the call returns, the
references stay counted up to those `thread_destroy` loses, and the threads change as the
action says. -/
theorem run_call (hs : Sound s locals leak) (hR : Sim s σ) {c : Call}
    (hh : (c.handle?.all fun h => h ∈ s.handles) = true)
    (hσ : σ.step (c.action s.heap.next) = some σ') :
    ∃ r s', (call c).run s = .ok r s' ∧ Sound s' locals (leak + c.lost) ∧ Sim s' σ' := by
  have hskip (hc : c.action s.heap.next = .skip) : σ' = σ := by
    simpa [hc, ThreadSystem.step] using hσ.symm
  cases c with
  | vmspaceCreate ok =>
    obtain rfl := hskip rfl
    exact run_call_of_ne_destroy (by simp) (run_vmspaceCreate hs hR ok)
  | vmareaAllocate len =>
    obtain rfl := hskip rfl
    exact run_call_of_ne_destroy (by simp) (run_vmareaAllocate hs hR len)
  | threadCreate h =>
    exact run_call_of_ne_destroy (by simp)
      (run_threadCreate hs hR (by simpa [Call.handle?] using hh) hσ)
  | threadGetContext h =>
    obtain rfl := hskip rfl
    exact run_call_of_ne_destroy (by simp)
      (run_contextCall hs hR (by simpa [Call.handle?] using hh) .READ)
  | threadSetContext h =>
    obtain rfl := hskip rfl
    exact run_call_of_ne_destroy (by simp)
      (run_contextCall hs hR (by simpa [Call.handle?] using hh) .WRITE)
  | threadUnblock h =>
    exact run_call_of_ne_destroy (by simp)
      (run_threadUnblock hs hR (by simpa [Call.handle?] using hh) hσ)
  | threadTerminate h =>
    exact run_call_of_ne_destroy (by simp)
      (run_threadTerminate hs hR (by simpa [Call.handle?] using hh) hσ)
  | threadDestroy h =>
    obtain rfl := hskip rfl
    exact run_threadDestroy hs hR (by simpa [Call.handle?] using hh)

/-! ### Events -/

/-- The abstract action of an event in the state it happens in. -/
def Event.action (s : Kernel) : Event → ThreadSystem.Action
  | .syscall => .syscall
  | .interrupt => .interrupt
  | .call c => c.action s.heap.next
  | .upcallReturn => .upcallReturn

/-- The references an event loses. -/
def Event.lost : Event → Nat → Nat
  | .call c => c.lost
  | _ => 0

/-- An event the kernel allows is one the abstract system allows. -/
theorem enabled_action (hs : Sound s locals leak) (hR : Sim s σ) {e : Event}
    (he : enabled s e = true) : σ.enabled (e.action s) = true := by
  cases e with
  | syscall => simpa [enabled, ThreadSystem.enabled, Event.action, hR.frames, hR.current] using he
  | interrupt => simpa [enabled, ThreadSystem.enabled, Event.action, hR.frames] using he
  | upcallReturn => simpa [enabled, ThreadSystem.enabled, Event.action, hR.frames] using he
  | call c =>
    simp only [enabled, Bool.and_eq_true, Bool.not_eq_eq_eq_not, Bool.not_true] at he
    obtain ⟨hf, hh⟩ := he
    have hf' : (!σ.frames.isEmpty) = true := by simpa [← hR.frames] using hf
    have hknown {h : Handle} (hh : h ∈ s.handles) (hty : h.typeId = .thread) :
        (σ.mutable h.raw).isSome = true := by
      obtain ⟨m, vs, hv⟩ := Heap.exists_of_kind_thread (hty ▸ hs.handle_kind h hh)
      simp [hR.mutable _ _ _ hv]
    cases c with
    | threadCreate h =>
      have hnone : σ.mutable s.heap.next = none := by
        by_contra hne
        exact absurd (hR.known_lt _ hne) (Nat.lt_irrefl _)
      by_cases hc : h.typeId = .vmSpace ∧ h.right.contains .MAP = true
      · simp [Event.action, Call.action, hc, ThreadSystem.enabled, hf', hnone]
      · simp [Event.action, Call.action, hc, ThreadSystem.enabled, hf']
    | threadUnblock h =>
      by_cases hc : h.typeId = .thread ∧ h.right.contains .WRITE = true
      · simp [Event.action, Call.action, hc, ThreadSystem.enabled, hf',
          hknown (by simpa [Call.handle?] using hh) hc.1]
      · simp [Event.action, Call.action, hc, ThreadSystem.enabled, hf']
    | threadTerminate h =>
      by_cases hc : h.typeId = .thread ∧ h.right.contains .WRITE = true
      · simp [Event.action, Call.action, hc, ThreadSystem.enabled, hf',
          hknown (by simpa [Call.handle?] using hh) hc.1]
      · simp [Event.action, Call.action, hc, ThreadSystem.enabled, hf']
    | _ => simp [Event.action, Call.action, ThreadSystem.enabled, hf']

/-- Every event refines its abstract action: it ends related to the abstract state, and returns
unless that state leaves the CPU idle. -/
theorem run_step (hs : Sound s locals leak) (hR : Sim s σ) (hnest : Frame.Nested s.frames)
    {e : Event} (he : enabled s e = true) (hσ : σ.step (e.action s) = some σ') :
    ∃ s', (step e).run s = exitResult σ' s' ∧ Sound s' locals (leak + e.lost) ∧ Sim s' σ' := by
  have hzero : ∀ x, (leak + (0 : Nat → Nat)) x = leak x := fun x => by simp
  cases e with
  | syscall =>
    simp only [enabled, Bool.and_eq_true, List.isEmpty_iff] at he
    obtain ⟨s', hrun, hs', hR'⟩ := run_handleSyscall hs hR he.1 hσ
    exact ⟨s', hrun, hs'.congr_leak hzero, hR'⟩
  | interrupt =>
    simp only [enabled, List.isEmpty_iff] at he
    obtain rfl : σ.returnToUser = σ' := Option.some.inj hσ
    obtain ⟨s', hrun, hs', hR'⟩ := run_returnToUser hs hR he
    exact ⟨s', hrun, hs'.congr_leak hzero, hR'⟩
  | upcallReturn =>
    obtain ⟨s', hrun, hs', hR'⟩ := run_upcallReturn hs hR hnest hσ
    exact ⟨s', hrun, hs'.congr_leak hzero, hR'⟩
  | call c =>
    simp only [enabled, Bool.and_eq_true, Bool.not_eq_true', List.isEmpty_eq_false_iff] at he
    obtain ⟨r, s', hrun, hs', hR'⟩ := run_call hs hR he.2 hσ
    have hf : σ'.frames ≠ [] :=
      ThreadSystem.frames_ne_nil_of_call (hR.frames ▸ he.1) hσ (Call.action_ne c s.heap.next)
    refine ⟨s', ?_, hs', hR'⟩
    rw [exitResult_of_frames hf]
    simp only [step, run_bind_of_ok hrun]
    rfl

end Kernel

end Ftl

import Mathlib
import Ftl.Lib.Run
import Ftl.Kernel.Thread

/-!
# The thread system without reference counts

What the kernel does to threads, the runqueue and the upcalls, with the objects' memory and
reference counts left out. Every thread created keeps its `Mutable` here, a freed one too, and a
call names a thread directly, not through a handle. The scheduler's choice is stated as what it
is for: the current thread goes on if it is runnable; otherwise the first runnable thread of the
runqueue runs, and the threads queued before it leave the queue (`pick`).
`Ftl.Kernel.Thread.Refinement` shows that the kernel's model runs as this one does.

The invariants of the design hold in every state this system reaches (`ThreadSystem.Inv`):

* the scheduler's: a runnable thread is either the current thread or queued, and the queue holds
  a thread at most once; a queued thread is runnable or terminated; the current thread is
  runnable; and no thread is current while an upcall is under way;
* the upcalls': the kernel code waiting on the stack is one bottom frame under the Terminated
  upcalls that `thread_terminate` invokes, and a thread's `in_upcalls` counts its Syscall upcalls
  on the stack;
* the termination protocol's: a thread's Terminated upcall is invoked at most once, and it has
  been invoked exactly when the thread is terminated with no Syscall upcall under way; no Syscall
  upcall of the thread follows it.

## Main definitions

* `Ftl.ThreadSystem`, `Ftl.ThreadSystem.pick`, `Ftl.ThreadSystem.step`.
* `Ftl.ThreadSystem.Inv`.

## Main results

* `Ftl.ThreadSystem.Inv.step`: every transition keeps the invariant.
* `Ftl.ThreadSystem.Next.count_runqueue_le`: a thread that is not blocked is never queued again.
* `Ftl.ThreadSystem.Inv.step_isSome`: under the invariant, no enabled transition panics.
* `Ftl.ThreadSystem.Inv.not_idle`: while a thread is runnable, no transition leaves the CPU idle.
* `Ftl.ThreadSystem.Reachable.inv`.
-/

namespace Ftl

/-! ### The kernel stack -/

namespace Frame

/-- The frame of `thread_terminate`, waiting for a Terminated upcall it invoked. -/
def isTerminate : Frame → Bool
  | .terminate _ => true
  | _ => false

/-- The frames one CPU stacks: one bottom frame (the servers' entry points, or a Syscall or
Terminated upcall of `handle_syscall`), with the frames of `thread_terminate` above it. -/
def Nested : List Frame → Prop
  | [] => True
  | [f] => f.isTerminate = false
  | f :: g :: fs => f.isTerminate = true ∧ Nested (g :: fs)

theorem Nested.tail : ∀ {f : Frame} {fs : List Frame}, Nested (f :: fs) → Nested fs
  | _, [], _ => trivial
  | _, _ :: _, h => h.2

/-- Only the bottom frame is not a `thread_terminate`'s. -/
theorem Nested.eq_nil {f : Frame} {fs : List Frame} (h : Nested (f :: fs))
    (hf : f.isTerminate = false) : fs = [] := by
  cases fs with
  | nil => rfl
  | cons g gs => simp [Nested, hf] at h

theorem Nested.push {fs : List Frame} (h : Nested fs) (hne : fs ≠ []) (t : Nat) :
    Nested (.terminate t :: fs) := by
  cases fs with
  | nil => exact absurd rfl hne
  | cons g gs => exact ⟨rfl, h⟩

end Frame

/-! ### The abstract system -/

/-- The threads' `Mutable`s, the runqueue, the current thread, the kernel code waiting for
upcalls, and the upcalls invoked so far. -/
structure ThreadSystem where
  mutable : Nat → Option Mutable
  runqueue : List Nat
  current : Option Nat
  frames : List Frame
  upcalls : List (Nat × UpcallArg)

namespace ThreadSystem

section Ops

variable (σ : ThreadSystem)

/-- Whether the thread `t` is runnable. -/
def isRunnable (t : Nat) : Bool := (σ.mutable t).any fun m => m.state == .runnable

/-- The thread `t` gets the `Mutable` `m`. -/
def setMutable (t : Nat) (m : Mutable) : ThreadSystem :=
  { σ with mutable := Function.update σ.mutable t (some m) }

/-- The upcall `arg` of `t` is invoked; `frame` waits for it. -/
def invoke (t : Nat) (arg : UpcallArg) (frame : Frame) : ThreadSystem :=
  { σ with upcalls := σ.upcalls ++ [(t, arg)], frames := frame :: σ.frames }

/-- The scheduler's choice: the first runnable thread of the runqueue becomes the current thread,
and the threads before it leave the queue; with none, no thread is current. -/
def pick : ThreadSystem :=
  match σ.runqueue.dropWhile fun t => !σ.isRunnable t with
  | [] => { σ with runqueue := [], current := none }
  | t :: q => { σ with runqueue := q, current := some t }

/-- `return_to_user`: the current thread goes on if it is runnable; otherwise `pick`. -/
def returnToUser : ThreadSystem :=
  match σ.current with
  | some c => if σ.isRunnable c then σ else σ.pick
  | none => σ.pick

/-- The CPU idles: no thread is current and no upcall is under way. The design waits for an
interrupt there; the kernel's `arch::idle()` is still `todo!()`. -/
def Idle : Prop := σ.current = none ∧ σ.frames = []

instance : Decidable σ.Idle := inferInstanceAs (Decidable (_ ∧ _))

/-- The syscall path: the current thread, runnable, blocks and its Syscall upcall is invoked;
a terminated one is dropped. Anything else panics. -/
def handleSyscall : Option ThreadSystem :=
  match σ.current with
  | none => none
  | some c =>
    match σ.mutable c with
    | none => none
    | some m =>
      if m.state = .terminated then some { σ with current := none }.returnToUser
      else if m.state = .runnable then
        some (({ σ with current := none }.setMutable c ⟨.blocked, m.inUpcalls + 1⟩).invoke c
          .syscall (.syscall c))
      else none

/-- After the Syscall upcall of `t`: one upcall less, and the Terminated upcall if the thread
was terminated meanwhile and none is left. -/
def afterSyscallUpcall (t : Nat) : Option ThreadSystem :=
  match σ.mutable t with
  | none => none
  | some m =>
    if m.inUpcalls = 0 then none
    else
      let m' := { m with inUpcalls := m.inUpcalls - 1 }
      if m'.inUpcalls = 0 ∧ m'.state = .terminated then
        some ((σ.setMutable t m').invoke t .terminated (.syscallTerminated t))
      else some (σ.setMutable t m').returnToUser

/-- The innermost upcall returns. -/
def upcallReturn : Option ThreadSystem :=
  match σ.frames with
  | [] => none
  | frame :: frames =>
    match frame with
    | .boot => some { σ with frames := frames }.returnToUser
    | .syscall t => { σ with frames := frames }.afterSyscallUpcall t
    | .syscallTerminated _ => some { σ with frames := frames }.returnToUser
    | .terminate _ => some { σ with frames := frames }

/-- `thread_unblock`: a blocked thread becomes runnable and is queued at the back. -/
def unblock (t : Nat) : Option ThreadSystem :=
  match σ.mutable t with
  | none => none
  | some m =>
    if m.state ≠ .blocked then some σ
    else some { σ.setMutable t { m with state := .runnable } with runqueue := σ.runqueue ++ [t] }

/-- `thread_terminate`: the thread is terminated; its Terminated upcall is invoked now if no
Syscall upcall of it is under way. -/
def terminate (t : Nat) : Option ThreadSystem :=
  match σ.mutable t with
  | none => none
  | some m =>
    if m.state = .terminated then some σ
    else if m.inUpcalls = 0 then
      some ((σ.setMutable t { m with state := .terminated }).invoke t .terminated (.terminate t))
    else some (σ.setMutable t { m with state := .terminated })

end Ops

/-- What can happen next: the current thread's syscall, an interrupt, the return of the
innermost upcall, or a call of its handler that unblocks, terminates or creates a thread, or
moves none (`skip`). -/
inductive Action where
  | syscall
  | interrupt
  | upcallReturn
  | unblock (t : Nat)
  | terminate (t : Nat)
  | create (t : Nat)
  | skip
  deriving DecidableEq, Repr

/-- Whether the action can happen: user code runs when no upcall is under way, a handler's call
inside one, and a call names a thread that exists (or, to create one, a new name). -/
def enabled (σ : ThreadSystem) : Action → Bool
  | .syscall => σ.frames.isEmpty && σ.current.isSome
  | .interrupt => σ.frames.isEmpty
  | .upcallReturn => !σ.frames.isEmpty
  | .unblock t => !σ.frames.isEmpty && (σ.mutable t).isSome
  | .terminate t => !σ.frames.isEmpty && (σ.mutable t).isSome
  | .create t => !σ.frames.isEmpty && (σ.mutable t).isNone
  | .skip => !σ.frames.isEmpty

/-- What an action does; `none` is a panic. A new thread is blocked with no upcall. -/
def step (σ : ThreadSystem) : Action → Option ThreadSystem
  | .syscall => σ.handleSyscall
  | .interrupt => some σ.returnToUser
  | .upcallReturn => σ.upcallReturn
  | .unblock t => σ.unblock t
  | .terminate t => σ.terminate t
  | .create t => some (σ.setMutable t ⟨.blocked, 0⟩)
  | .skip => some σ

/-- One transition. -/
def Next (σ : ThreadSystem) (a : Action) (σ' : ThreadSystem) : Prop :=
  σ.enabled a = true ∧ σ.step a = some σ'

/-- No thread yet, and the servers' entry points running. -/
def init : ThreadSystem := ⟨fun _ => none, [], none, [.boot], []⟩

/-- The states a run from `init` reaches. -/
def Reachable (σ : ThreadSystem) : Prop := Reach Next init σ

/-! ### Lemmas about the operations -/

section Lemmas

variable {σ : ThreadSystem}

theorem isRunnable_iff {t : Nat} :
    σ.isRunnable t = true ↔ ∃ m, σ.mutable t = some m ∧ m.state = .runnable := by
  cases h : σ.mutable t <;> simp [isRunnable, h]

@[simp] theorem mutable_setMutable (t : Nat) (m : Mutable) (x : Nat) :
    (σ.setMutable t m).mutable x = if x = t then some m else σ.mutable x := by
  simp [setMutable, Function.update_apply]

/-- Giving a thread a `Mutable` keeps every thread known. -/
theorem mutable_setMutable_ne_none {t x : Nat} {m : Mutable} (hx : σ.mutable x ≠ none) :
    (σ.setMutable t m).mutable x ≠ none := by
  rw [mutable_setMutable]
  split_ifs <;> simp [hx]

/-- What holds of every thread's `Mutable` after `setMutable t m`: of `m` at `t`, and of the old
`Mutable` at every other thread. -/
theorem forall_mutable_setMutable {t : Nat} {m : Mutable} {P : Nat → Mutable → Prop}
    (ht : P t m) (hother : ∀ x m', x ≠ t → σ.mutable x = some m' → P x m') :
    ∀ x m', (σ.setMutable t m).mutable x = some m' → P x m' := by
  intro x m' hx
  rw [mutable_setMutable] at hx
  split_ifs at hx with hxt
  · cases hx
    subst hxt
    exact ht
  · exact hother x m' hxt hx

@[simp] theorem runqueue_setMutable (t : Nat) (m : Mutable) :
    (σ.setMutable t m).runqueue = σ.runqueue := rfl

@[simp] theorem current_setMutable (t : Nat) (m : Mutable) :
    (σ.setMutable t m).current = σ.current := rfl

@[simp] theorem frames_setMutable (t : Nat) (m : Mutable) :
    (σ.setMutable t m).frames = σ.frames := rfl

@[simp] theorem upcalls_setMutable (t : Nat) (m : Mutable) :
    (σ.setMutable t m).upcalls = σ.upcalls := rfl

@[simp] theorem isRunnable_setMutable (t : Nat) (m : Mutable) (x : Nat) :
    (σ.setMutable t m).isRunnable x = if x = t then m.state == .runnable else σ.isRunnable x := by
  by_cases hx : x = t <;> simp [isRunnable, hx]

@[simp] theorem isRunnable_mk (rq : List Nat) (c : Option Nat) (fs : List Frame)
    (ups : List (Nat × UpcallArg)) :
    (ThreadSystem.mk σ.mutable rq c fs ups).isRunnable = σ.isRunnable := rfl

@[simp] theorem isRunnable_invoke (t : Nat) (arg : UpcallArg) (f : Frame) :
    (σ.invoke t arg f).isRunnable = σ.isRunnable := rfl

@[simp] theorem mutable_invoke (t : Nat) (arg : UpcallArg) (f : Frame) :
    (σ.invoke t arg f).mutable = σ.mutable := rfl

@[simp] theorem runqueue_invoke (t : Nat) (arg : UpcallArg) (f : Frame) :
    (σ.invoke t arg f).runqueue = σ.runqueue := rfl

@[simp] theorem current_invoke (t : Nat) (arg : UpcallArg) (f : Frame) :
    (σ.invoke t arg f).current = σ.current := rfl

@[simp] theorem frames_invoke (t : Nat) (arg : UpcallArg) (f : Frame) :
    (σ.invoke t arg f).frames = f :: σ.frames := rfl

@[simp] theorem upcalls_invoke (t : Nat) (arg : UpcallArg) (f : Frame) :
    (σ.invoke t arg f).upcalls = σ.upcalls ++ [(t, arg)] := rfl

/-- `pick` on a queue whose front thread is runnable runs that thread. -/
theorem pick_of_runnable {t : Nat} {q : List Nat} (hq : σ.runqueue = t :: q)
    (ht : σ.isRunnable t = true) : σ.pick = { σ with runqueue := q, current := some t } := by
  simp [pick, hq, ht]

/-- `pick` passes over a front thread that is not runnable. -/
theorem pick_of_not_runnable {t : Nat} {q : List Nat} (hq : σ.runqueue = t :: q)
    (ht : σ.isRunnable t = false) : σ.pick = { σ with runqueue := q }.pick := by
  simp only [pick, hq, List.dropWhile_cons, ht, Bool.not_false, if_true]
  rfl

theorem pick_of_nil (hq : σ.runqueue = []) : σ.pick = { σ with current := none } := by
  simp only [pick, hq, List.dropWhile_nil]

/-- The scheduler invokes no upcall and leaves the stack alone. -/
@[simp] theorem upcalls_pick : σ.pick.upcalls = σ.upcalls := by
  unfold pick
  split <;> rfl

@[simp] theorem frames_pick : σ.pick.frames = σ.frames := by
  unfold pick
  split <;> rfl

@[simp] theorem upcalls_returnToUser : σ.returnToUser.upcalls = σ.upcalls := by
  unfold returnToUser
  split
  · split <;> simp
  · simp

@[simp] theorem frames_returnToUser : σ.returnToUser.frames = σ.frames := by
  unfold returnToUser
  split
  · split <;> simp
  · simp

theorem handleSyscall_eq_some {σ' : ThreadSystem} (h : σ.handleSyscall = some σ') :
    ∃ c m, σ.current = some c ∧ σ.mutable c = some m ∧
      ((m.state = .terminated ∧ σ' = { σ with current := none }.returnToUser) ∨
        (m.state = .runnable ∧ σ' = ({ σ with current := none }.setMutable c
          ⟨.blocked, m.inUpcalls + 1⟩).invoke c .syscall (.syscall c))) := by
  unfold handleSyscall at h
  split at h
  · cases h
  · rename_i c hc
    split at h
    · cases h
    · rename_i m hm
      refine ⟨c, m, hc, hm, ?_⟩
      split_ifs at h with h1 h2
      · exact .inl ⟨h1, (Option.some.inj h).symm⟩
      · exact .inr ⟨h2, (Option.some.inj h).symm⟩

theorem afterSyscallUpcall_eq_some {t : Nat} {σ' : ThreadSystem}
    (h : σ.afterSyscallUpcall t = some σ') :
    ∃ m, σ.mutable t = some m ∧ m.inUpcalls ≠ 0 ∧
      ((m.inUpcalls = 1 ∧ m.state = .terminated ∧
          σ' = (σ.setMutable t { m with inUpcalls := 0 }).invoke t .terminated
            (.syscallTerminated t)) ∨
        (¬ (m.inUpcalls = 1 ∧ m.state = .terminated) ∧
          σ' = (σ.setMutable t { m with inUpcalls := m.inUpcalls - 1 }).returnToUser)) := by
  unfold afterSyscallUpcall at h
  split at h
  · cases h
  · rename_i m hm
    refine ⟨m, hm, ?_⟩
    by_cases h0 : m.inUpcalls = 0
    · simp [h0] at h
    · simp only [h0, if_false] at h
      refine ⟨h0, ?_⟩
      split_ifs at h with h1
      · obtain ⟨h1, h2⟩ := h1
        refine .inl ⟨by omega, h2, ?_⟩
        rw [← Option.some.inj h, h1]
      · refine .inr ⟨fun ⟨h3, h4⟩ => h1 ⟨by omega, h4⟩, (Option.some.inj h).symm⟩

/-- The innermost frame returns: the entry points' and a Terminated upcall's bottom frames return
to user, a Syscall upcall's ends the upcall, and a `thread_terminate`'s goes back to its call. -/
theorem upcallReturn_eq_some {σ' : ThreadSystem} (h : σ.upcallReturn = some σ') :
    ∃ f fs, σ.frames = f :: fs ∧
      ((f = .boot ∧ σ' = { σ with frames := fs }.returnToUser) ∨
        (∃ t, f = .syscall t ∧ { σ with frames := fs }.afterSyscallUpcall t = some σ') ∨
        (∃ t, f = .syscallTerminated t ∧ σ' = { σ with frames := fs }.returnToUser) ∨
        (∃ t, f = .terminate t ∧ σ' = { σ with frames := fs })) := by
  unfold upcallReturn at h
  split at h
  · cases h
  · rename_i f fs hf
    refine ⟨f, fs, hf, ?_⟩
    cases f with
    | boot => exact .inl ⟨rfl, (Option.some.inj h).symm⟩
    | syscall t => exact .inr (.inl ⟨t, rfl, h⟩)
    | syscallTerminated t => exact .inr (.inr (.inl ⟨t, rfl, (Option.some.inj h).symm⟩))
    | terminate t => exact .inr (.inr (.inr ⟨t, rfl, (Option.some.inj h).symm⟩))

theorem unblock_eq_some {t : Nat} {σ' : ThreadSystem} (h : σ.unblock t = some σ') :
    ∃ m, σ.mutable t = some m ∧
      ((m.state ≠ .blocked ∧ σ' = σ) ∨
        (m.state = .blocked ∧ σ' = { σ.setMutable t { m with state := .runnable } with
          runqueue := σ.runqueue ++ [t] })) := by
  unfold unblock at h
  split at h
  · cases h
  · rename_i m hm
    refine ⟨m, hm, ?_⟩
    split_ifs at h with h1
    · exact .inl ⟨h1, (Option.some.inj h).symm⟩
    · exact .inr ⟨not_not.mp h1, (Option.some.inj h).symm⟩

theorem terminate_eq_some {t : Nat} {σ' : ThreadSystem} (h : σ.terminate t = some σ') :
    ∃ m, σ.mutable t = some m ∧
      ((m.state = .terminated ∧ σ' = σ) ∨
        (m.state ≠ .terminated ∧ m.inUpcalls = 0 ∧
          σ' = (σ.setMutable t { m with state := .terminated }).invoke t .terminated
            (.terminate t)) ∨
        (m.state ≠ .terminated ∧ m.inUpcalls ≠ 0 ∧
          σ' = σ.setMutable t { m with state := .terminated })) := by
  unfold terminate at h
  split at h
  · cases h
  · rename_i m hm
    refine ⟨m, hm, ?_⟩
    split_ifs at h with h1 h2
    · exact .inl ⟨h1, (Option.some.inj h).symm⟩
    · exact .inr (.inl ⟨h1, h2, (Option.some.inj h).symm⟩)
    · exact .inr (.inr ⟨h1, h2, (Option.some.inj h).symm⟩)

end Lemmas

/-! ### The upcall log -/

/-- No Syscall upcall of a thread follows its Terminated upcall. -/
def NoSyscallAfter (ups : List (Nat × UpcallArg)) : Prop :=
  ∀ t pre post, ups = pre ++ (t, .terminated) :: post → (t, .syscall) ∉ post

/-- Logging an upcall keeps `NoSyscallAfter`, unless it is a Syscall upcall of a thread whose
Terminated upcall was logged. -/
theorem NoSyscallAfter.append {ups : List (Nat × UpcallArg)} (h : NoSyscallAfter ups)
    {p : Nat × UpcallArg} (hp : p.2 = .syscall → (p.1, .terminated) ∉ ups) :
    NoSyscallAfter (ups ++ [p]) := by
  intro t pre post heq hmem
  rcases List.append_eq_append_iff.mp heq with ⟨as, hpre, hlast⟩ | ⟨bs, hups, hpost⟩
  · rcases as with _ | ⟨a, as⟩
    · simp only [List.nil_append, List.cons.injEq] at hlast
      obtain ⟨rfl, rfl⟩ := hlast
      simp at hmem
    · simp at hlast
  · rcases bs with _ | ⟨b, bs⟩
    · simp only [List.nil_append, List.cons.injEq] at hpost
      obtain ⟨rfl, rfl⟩ := hpost
      simp at hmem
    · simp only [List.cons_append, List.cons.injEq] at hpost
      obtain ⟨rfl, rfl⟩ := hpost
      rw [List.mem_append, List.mem_singleton] at hmem
      rcases hmem with hmem | rfl
      · exact h t pre bs (by simpa using hups) hmem
      · exact hp rfl (by rw [hups]; simp)

/-! ### The invariant -/

/-- The invariants of the scheduler, the upcalls and the termination protocol. -/
structure Inv (σ : ThreadSystem) : Prop where
  nodup : σ.runqueue.Nodup
  current_runnable : ∀ t ∈ σ.current, σ.isRunnable t = true
  current_not_queued : ∀ t ∈ σ.current, t ∉ σ.runqueue
  runnable_scheduled : ∀ t, σ.isRunnable t = true → t ∈ σ.current ∨ t ∈ σ.runqueue
  queued : ∀ t ∈ σ.runqueue, ∃ m, σ.mutable t = some m ∧ m.state ≠ .blocked
  idle : σ.frames ≠ [] → σ.current = none
  nested : Frame.Nested σ.frames
  inUpcalls : ∀ t m, σ.mutable t = some m → m.inUpcalls = σ.frames.count (.syscall t)
  frame_known : ∀ f ∈ σ.frames, ∀ t ∈ f.ref?, σ.mutable t ≠ none
  once : ∀ t, σ.upcalls.count (t, .terminated) ≤ 1
  terminated_iff : ∀ t m, σ.mutable t = some m →
    ((t, .terminated) ∈ σ.upcalls ↔ m.state = .terminated ∧ m.inUpcalls = 0)
  no_syscall_after : NoSyscallAfter σ.upcalls
  upcall_known : ∀ p ∈ σ.upcalls, σ.mutable p.1 ≠ none
  terminated_frame : ∀ t, Frame.terminate t ∈ σ.frames ∨ Frame.syscallTerminated t ∈ σ.frames →
    (t, .terminated) ∈ σ.upcalls

theorem inv_init : init.Inv where
  nodup := List.nodup_nil
  current_runnable := by simp [init]
  current_not_queued := by simp [init]
  runnable_scheduled := by simp [init, isRunnable]
  queued := by simp [init]
  idle := by simp [init]
  nested := rfl
  inUpcalls := by simp [init]
  frame_known := by simp [init, Frame.ref?]
  once := by simp [init]
  terminated_iff := by simp [init]
  no_syscall_after := by simp [NoSyscallAfter, init]
  upcall_known := by simp [init]
  terminated_frame := by simp [init]

/-! ### Each operation keeps the invariant -/

section Preservation

variable {σ σ' : ThreadSystem}

/-- `pick` keeps the invariant when no upcall is under way and the current thread, if any, is not
runnable. -/
theorem Inv.pick (h : σ.Inv) (hf : σ.frames = []) (hc : ∀ c ∈ σ.current, σ.isRunnable c = false) :
    σ.pick.Inv := by
  have hsplit := List.takeWhile_append_dropWhile (p := fun t => !σ.isRunnable t) (l := σ.runqueue)
  have hskip : ∀ x ∈ σ.runqueue.takeWhile (fun t => !σ.isRunnable t), σ.isRunnable x = false :=
    fun x hx => by simpa using List.mem_takeWhile_imp hx
  have hsuffix := List.dropWhile_suffix (l := σ.runqueue) (fun t => !σ.isRunnable t)
  unfold ThreadSystem.pick
  split
  · rename_i hnil
    refine { h with
      nodup := List.nodup_nil
      current_runnable := by simp
      current_not_queued := by simp
      runnable_scheduled := fun t ht => ?_
      queued := by simp
      idle := by simp }
    rcases h.runnable_scheduled t ht with hcur | hq
    · simp [hc t hcur] at ht
    · rw [← hsplit, hnil, List.append_nil] at hq
      simp [hskip t hq] at ht
  · rename_i t q hd
    have hnodup : (t :: q).Nodup := hd ▸ h.nodup.sublist hsuffix.sublist
    have ht : σ.isRunnable t = true := by
      have := List.head_dropWhile_not (fun t => !σ.isRunnable t) (l := σ.runqueue) (by simp [hd])
      simpa [hd] using this
    refine { h with
      nodup := hnodup.of_cons
      current_runnable := by simpa using ht
      current_not_queued := by simpa using hnodup.notMem
      runnable_scheduled := fun x hx => ?_
      queued := fun x hx => h.queued x ?_
      idle := by simp [hf] }
    · rcases h.runnable_scheduled x hx with hcur | hq
      · simp [hc x hcur] at hx
      · rw [← hsplit, hd, List.mem_append, List.mem_cons] at hq
        rcases hq with hq | rfl | hq
        · simp [hskip x hq] at hx
        · simp
        · simp [hq]
    · exact (hd ▸ hsuffix).subset (List.mem_cons_of_mem t hx)

/-- `return_to_user` keeps the invariant when no upcall is under way. -/
theorem Inv.returnToUser (h : σ.Inv) (hf : σ.frames = []) : σ.returnToUser.Inv := by
  unfold ThreadSystem.returnToUser
  split
  · rename_i c hc
    split
    · exact h
    · rename_i hr
      exact h.pick hf (by simpa [hc] using hr)
  · rename_i hc
    exact h.pick hf (by simp [hc])

/-- A syscall keeps the invariant: the current thread is runnable, so never terminated, and it is
blocked under its Syscall upcall. -/
theorem Inv.handleSyscall (h : σ.Inv) (hf : σ.frames = []) (hs : σ.handleSyscall = some σ') :
    σ'.Inv := by
  obtain ⟨c, m, hc, hm, ⟨hterm, -⟩ | ⟨hrun, rfl⟩⟩ := handleSyscall_eq_some hs
  · obtain ⟨m', hm', hr⟩ := isRunnable_iff.mp (h.current_runnable c (by simp [hc]))
    rw [hm] at hm'
    cases hm'
    rw [hterm] at hr
    cases hr
  · have hk : m.inUpcalls = 0 := by simpa [hf] using h.inUpcalls c m hm
    have hcq : c ∉ σ.runqueue := h.current_not_queued c (by simp [hc])
    have hlog : (c, .terminated) ∉ σ.upcalls := by
      rw [h.terminated_iff c m hm]
      simp [hrun]
    constructor
    · simpa using h.nodup
    · simp
    · simp
    · intro x hx
      simp only [isRunnable_invoke, isRunnable_setMutable, isRunnable_mk] at hx
      split_ifs at hx with hxc
      · cases hx
      · rcases h.runnable_scheduled x hx with hcur | hq
        · simp [hc] at hcur
          exact absurd hcur.symm hxc
        · simpa using hq
    · intro x hx
      have hxc : x ≠ c := fun hxc => hcq (hxc ▸ hx)
      simpa [hxc] using h.queued x (by simpa using hx)
    · simp
    · simp [hf, Frame.Nested, Frame.isTerminate]
    · refine forall_mutable_setMutable (by simp [hf, hk]) fun x m' hxc hx => ?_
      have := h.inUpcalls x m' hx
      simp [hf] at this
      simp [hf, this, Ne.symm hxc]
    · intro f hfr t ht
      simp only [frames_invoke, frames_setMutable, hf, List.mem_singleton] at hfr
      subst hfr
      simp only [Frame.ref?, Option.mem_def, Option.some.injEq] at ht
      subst ht
      simp
    · intro x
      simpa using h.once x
    · exact forall_mutable_setMutable (by simp [hlog]) fun x m' _ hx => by
        simpa using h.terminated_iff x m' hx
    · exact h.no_syscall_after.append fun _ => hlog
    · intro p hp
      simp only [upcalls_invoke, upcalls_setMutable, List.mem_append, List.mem_singleton] at hp
      rcases hp with hp | rfl
      · exact mutable_setMutable_ne_none (h.upcall_known p hp)
      · simp
    · intro x hx
      simp only [frames_invoke, frames_setMutable, hf, List.mem_singleton, reduceCtorEq,
        or_self] at hx

/-- The innermost frame returns, when it is not a Syscall upcall's. -/
theorem Inv.popFrame (h : σ.Inv) {f : Frame} {fs : List Frame} (hf : σ.frames = f :: fs)
    (hsys : ∀ t, f ≠ .syscall t) : { σ with frames := fs }.Inv := by
  have hcur : σ.current = none := h.idle (by simp [hf])
  refine { h with
    idle := fun _ => hcur
    nested := (hf ▸ h.nested).tail
    inUpcalls := fun t m hm => ?_
    frame_known := fun g hg => h.frame_known g (by simp [hf, hg])
    terminated_frame := fun t ht => h.terminated_frame t ?_ }
  · rw [h.inUpcalls t m hm, hf, List.count_cons]
    simpa using hsys t
  · rw [hf]
    rcases ht with ht | ht <;> simp [ht]

/-- After the Syscall upcall of `t`, the bottom frame, returns. -/
theorem Inv.afterSyscallUpcall (h : σ.Inv) {t : Nat} (hf : σ.frames = [.syscall t])
    (hs : { σ with frames := [] }.afterSyscallUpcall t = some σ') : σ'.Inv := by
  obtain ⟨m, hm, -, ⟨hk, hterm, rfl⟩ | ⟨hnot, rfl⟩⟩ := afterSyscallUpcall_eq_some hs
  all_goals
    simp only at hm
    have hk1 : m.inUpcalls = 1 := by simpa [hf] using h.inUpcalls t m hm
    have hcur : σ.current = none := h.idle (by simp [hf])
    have hlog : (t, .terminated) ∉ σ.upcalls := by
      rw [h.terminated_iff t m hm]
      omega
    have hidle : ∀ x m', x ≠ t → σ.mutable x = some m' → m'.inUpcalls = 0 :=
      fun x m' hxt hx => by simpa [hf, Ne.symm hxt] using h.inUpcalls x m' hx
  · constructor
    · simpa using h.nodup
    · simp [hcur]
    · simp [hcur]
    · intro x hx
      simp only [isRunnable_invoke, isRunnable_setMutable, isRunnable_mk] at hx
      split_ifs at hx with hxt
      · simp [hterm] at hx
      · simpa [hcur] using h.runnable_scheduled x hx
    · intro x hx
      simp only [runqueue_invoke, runqueue_setMutable] at hx
      simp only [mutable_invoke, mutable_setMutable]
      split_ifs with hxt
      · simp [hterm]
      · exact h.queued x hx
    · simp [hcur]
    · simp [Frame.Nested, Frame.isTerminate]
    · exact forall_mutable_setMutable (by simp) fun x m' hxt hx => by simp [hidle x m' hxt hx]
    · intro f hfr u hu
      simp only [frames_invoke, frames_setMutable, List.mem_singleton] at hfr
      subst hfr
      simp only [Frame.ref?, Option.mem_def, Option.some.injEq] at hu
      subst hu
      simp
    · intro x
      by_cases hxt : x = t
      · subst hxt
        simp [List.count_eq_zero_of_not_mem hlog]
      · simpa [List.count_cons, Ne.symm hxt] using h.once x
    · exact forall_mutable_setMutable (by simp [hterm]) fun x m' hxt hx => by
        simpa [hxt] using h.terminated_iff x m' hx
    · exact h.no_syscall_after.append fun h' => by cases h'
    · intro p hp
      simp only [upcalls_invoke, upcalls_setMutable, List.mem_append, List.mem_singleton] at hp
      rcases hp with hp | rfl
      · exact mutable_setMutable_ne_none (h.upcall_known p hp)
      · simp
    · intro x hx
      simp only [frames_invoke, frames_setMutable, List.mem_singleton, reduceCtorEq, false_or,
        Frame.syscallTerminated.injEq] at hx
      simp [hx]
  · have hstate : m.state ≠ .terminated := fun h' => hnot ⟨hk1, h'⟩
    rw [hk1]
    apply Inv.returnToUser _ (by simp)
    constructor
    · simpa using h.nodup
    · simp [hcur]
    · simp [hcur]
    · intro x hx
      simp only [isRunnable_setMutable, isRunnable_mk] at hx
      split_ifs at hx with hxt
      · subst hxt
        have : σ.isRunnable x = true := isRunnable_iff.mpr ⟨m, hm, by simpa using hx⟩
        simpa [hcur] using h.runnable_scheduled x this
      · simpa [hcur] using h.runnable_scheduled x hx
    · intro x hx
      simp only [runqueue_setMutable] at hx
      simp only [mutable_setMutable]
      split_ifs with hxt
      · subst hxt
        obtain ⟨m', hm', hb⟩ := h.queued x hx
        rw [hm] at hm'
        cases hm'
        simpa using hb
      · exact h.queued x hx
    · simp
    · trivial
    · exact forall_mutable_setMutable (by simp) fun x m' hxt hx => by simp [hidle x m' hxt hx]
    · simp
    · exact h.once
    · exact forall_mutable_setMutable (by simp [hlog, hstate])
        fun x m' _ hx => h.terminated_iff x m' hx
    · exact h.no_syscall_after
    · exact fun p hp => mutable_setMutable_ne_none (h.upcall_known p hp)
    · simp

/-- The return of an upcall keeps the invariant: a frame other than the innermost
`thread_terminate`'s is the bottom one. -/
theorem Inv.upcallReturn (h : σ.Inv) (hs : σ.upcallReturn = some σ') : σ'.Inv := by
  obtain ⟨f, fs, hf, ⟨rfl, rfl⟩ | ⟨t, rfl, hs⟩ | ⟨t, rfl, rfl⟩ | ⟨t, rfl, rfl⟩⟩ :=
    upcallReturn_eq_some hs
  · obtain rfl : fs = [] := (hf ▸ h.nested).eq_nil rfl
    exact (h.popFrame hf (fun _ => by simp)).returnToUser rfl
  · obtain rfl : fs = [] := (hf ▸ h.nested).eq_nil rfl
    exact h.afterSyscallUpcall hf hs
  · obtain rfl : fs = [] := (hf ▸ h.nested).eq_nil rfl
    exact (h.popFrame hf (fun _ => by simp)).returnToUser rfl
  · exact h.popFrame hf (fun _ => by simp)

/-- `thread_unblock` keeps the invariant: a blocked thread is not queued, so queueing it once keeps
every thread queued at most once. -/
theorem Inv.unblock (h : σ.Inv) (hf : σ.frames ≠ []) {t : Nat} (hs : σ.unblock t = some σ') :
    σ'.Inv := by
  obtain ⟨m, hm, ⟨-, rfl⟩ | ⟨hb, rfl⟩⟩ := unblock_eq_some hs
  · exact h
  have hcur : σ.current = none := h.idle hf
  have htq : t ∉ σ.runqueue := by
    intro htq
    obtain ⟨m', hm', hb'⟩ := h.queued t htq
    rw [hm] at hm'
    cases hm'
    exact hb' hb
  have hlog : (t, .terminated) ∉ σ.upcalls := by
    rw [h.terminated_iff t m hm]
    simp [hb]
  constructor
  · simpa [List.nodup_append] using ⟨h.nodup, fun a ha hat => htq (hat ▸ ha)⟩
  · simp [hcur]
  · simp [hcur]
  · intro x hx
    simp only [isRunnable_setMutable, isRunnable_mk] at hx
    split_ifs at hx with hxt
    · simp [hxt]
    · have := h.runnable_scheduled x hx
      simp only [hcur, Option.mem_def, reduceCtorEq, false_or] at this
      simp [this]
  · intro x hx
    simp only [List.mem_append, List.mem_singleton] at hx
    simp only [mutable_setMutable]
    split_ifs with hxt
    · simp
    · exact h.queued x (hx.resolve_right hxt)
  · simp [hcur]
  · exact h.nested
  · exact forall_mutable_setMutable (h.inUpcalls t m hm) fun x m' _ hx => h.inUpcalls x m' hx
  · exact fun f hfr u hu => mutable_setMutable_ne_none (h.frame_known f hfr u hu)
  · exact h.once
  · exact forall_mutable_setMutable (by simp [hlog]) fun x m' _ hx => h.terminated_iff x m' hx
  · exact h.no_syscall_after
  · exact fun p hp => mutable_setMutable_ne_none (h.upcall_known p hp)
  · exact h.terminated_frame

/-- `thread_terminate` keeps the invariant, whether it invokes the Terminated upcall now (no Syscall
upcall of the thread under way) or leaves it to the end of that upcall. -/
theorem Inv.terminate (h : σ.Inv) (hf : σ.frames ≠ []) {t : Nat}
    (hs : σ.terminate t = some σ') : σ'.Inv := by
  obtain ⟨m, hm, ⟨-, rfl⟩ | ⟨hnt, hk, rfl⟩ | ⟨hnt, hk, rfl⟩⟩ := terminate_eq_some hs
  · exact h
  all_goals
    have hcur : σ.current = none := h.idle hf
    have hlog : (t, .terminated) ∉ σ.upcalls := by
      rw [h.terminated_iff t m hm]
      simp [hnt]
  · constructor
    · simpa using h.nodup
    · simp [hcur]
    · simp [hcur]
    · intro x hx
      simp only [isRunnable_invoke, isRunnable_setMutable] at hx
      split_ifs at hx with hxt
      · simp at hx
      · simpa [hcur] using h.runnable_scheduled x hx
    · intro x hx
      simp only [runqueue_invoke, runqueue_setMutable] at hx
      simp only [mutable_invoke, mutable_setMutable]
      split_ifs with hxt
      · simp
      · exact h.queued x hx
    · simp [hcur]
    · simpa using h.nested.push hf t
    · refine forall_mutable_setMutable ?_ fun x m' _ hx => ?_
      · simpa using h.inUpcalls t m hm
      · simpa using h.inUpcalls x m' hx
    · intro f hfr u hu
      simp only [frames_invoke, frames_setMutable, List.mem_cons] at hfr
      rcases hfr with rfl | hfr
      · simp only [Frame.ref?, Option.mem_def, Option.some.injEq] at hu
        subst hu
        simp
      · exact mutable_setMutable_ne_none (h.frame_known f hfr u hu)
    · intro x
      by_cases hxt : x = t
      · subst hxt
        simp [List.count_eq_zero_of_not_mem hlog]
      · simpa [List.count_cons, Ne.symm hxt] using h.once x
    · exact forall_mutable_setMutable (by simp [hk]) fun x m' hxt hx => by
        simpa [hxt] using h.terminated_iff x m' hx
    · exact h.no_syscall_after.append fun h' => by cases h'
    · intro p hp
      simp only [upcalls_invoke, upcalls_setMutable, List.mem_append, List.mem_singleton] at hp
      rcases hp with hp | rfl
      · exact mutable_setMutable_ne_none (h.upcall_known p hp)
      · simp
    · intro x hx
      simp only [frames_invoke, frames_setMutable, List.mem_cons, Frame.terminate.injEq,
        reduceCtorEq, false_or] at hx
      simp only [upcalls_invoke, upcalls_setMutable, List.mem_append, List.mem_singleton,
        Prod.mk.injEq, and_true]
      rcases hx with (rfl | hx) | hx
      · exact .inr rfl
      · exact .inl (h.terminated_frame x (.inl hx))
      · exact .inl (h.terminated_frame x (.inr hx))
  · constructor
    · simpa using h.nodup
    · simp [hcur]
    · simp [hcur]
    · intro x hx
      simp only [isRunnable_setMutable] at hx
      split_ifs at hx with hxt
      · simp at hx
      · simpa [hcur] using h.runnable_scheduled x hx
    · intro x hx
      simp only [runqueue_setMutable] at hx
      simp only [mutable_setMutable]
      split_ifs with hxt
      · simp
      · exact h.queued x hx
    · simp [hcur]
    · exact h.nested
    · exact forall_mutable_setMutable (h.inUpcalls t m hm) fun x m' _ hx => h.inUpcalls x m' hx
    · exact fun f hfr u hu => mutable_setMutable_ne_none (h.frame_known f hfr u hu)
    · exact h.once
    · exact forall_mutable_setMutable (by simp [hlog, hk])
        fun x m' _ hx => h.terminated_iff x m' hx
    · exact h.no_syscall_after
    · exact fun p hp => mutable_setMutable_ne_none (h.upcall_known p hp)
    · exact h.terminated_frame

/-- A new thread, blocked with no upcall, under a name no thread has. -/
theorem Inv.create (h : σ.Inv) (hf : σ.frames ≠ []) {t : Nat} (ht : σ.mutable t = none) :
    (σ.setMutable t ⟨.blocked, 0⟩).Inv := by
  have hcur : σ.current = none := h.idle hf
  have htq : t ∉ σ.runqueue := fun htq => by
    obtain ⟨m', hm', -⟩ := h.queued t htq
    simp [ht] at hm'
  have htf : Frame.syscall t ∉ σ.frames := fun htf =>
    h.frame_known _ htf t (by simp [Frame.ref?]) ht
  have hlog : (t, .terminated) ∉ σ.upcalls := fun hlog => h.upcall_known _ hlog ht
  constructor
  · exact h.nodup
  · simp [hcur]
  · simp [hcur]
  · intro x hx
    simp only [isRunnable_setMutable] at hx
    split_ifs at hx with hxt
    · simp at hx
    · exact h.runnable_scheduled x hx
  · intro x hx
    have hxt : x ≠ t := fun hxt => htq (hxt ▸ hx)
    simpa [hxt] using h.queued x hx
  · simp [hcur]
  · exact h.nested
  · exact forall_mutable_setMutable (by simp [List.count_eq_zero_of_not_mem htf])
      fun x m' _ hx => h.inUpcalls x m' hx
  · exact fun f hfr u hu => mutable_setMutable_ne_none (h.frame_known f hfr u hu)
  · exact h.once
  · exact forall_mutable_setMutable (by simp [hlog]) fun x m' _ hx => h.terminated_iff x m' hx
  · exact h.no_syscall_after
  · exact fun p hp => mutable_setMutable_ne_none (h.upcall_known p hp)
  · exact h.terminated_frame

/-- A handler's call is enabled only while an upcall is under way. -/
theorem frames_ne_nil_of_enabled {a : Action} (he : σ.enabled a = true)
    (ha : a ≠ .syscall ∧ a ≠ .interrupt ∧ a ≠ .upcallReturn) : σ.frames ≠ [] := by
  cases a with
  | syscall => exact absurd rfl ha.1
  | interrupt => exact absurd rfl ha.2.1
  | upcallReturn => exact absurd rfl ha.2.2
  | unblock t | terminate t | create t =>
    simp only [enabled, Bool.and_eq_true, Bool.not_eq_true', List.isEmpty_eq_false_iff] at he
    exact he.1
  | skip =>
    simpa only [enabled, Bool.not_eq_true', List.isEmpty_eq_false_iff] using he

/-- Every transition keeps the invariant. -/
theorem Inv.step (h : σ.Inv) {a : Action} (hn : Next σ a σ') : σ'.Inv := by
  obtain ⟨he, hs⟩ := hn
  cases a with
  | syscall =>
    simp only [enabled, Bool.and_eq_true, List.isEmpty_iff] at he
    exact h.handleSyscall he.1 hs
  | interrupt =>
    simp only [enabled, List.isEmpty_iff] at he
    cases hs
    exact h.returnToUser he
  | upcallReturn => exact h.upcallReturn hs
  | unblock t => exact h.unblock (frames_ne_nil_of_enabled he (by simp)) hs
  | terminate t => exact h.terminate (frames_ne_nil_of_enabled he (by simp)) hs
  | create t =>
    simp only [enabled, Bool.and_eq_true, Bool.not_eq_true', List.isEmpty_eq_false_iff,
      Option.isNone_iff_eq_none] at he
    cases hs
    exact h.create he.1 he.2
  | skip =>
    cases hs
    exact h

theorem Reachable.inv (h : σ.Reachable) : σ.Inv :=
  Reach.invariant inv_init (fun _ _ _ _ hi hn => hi.step hn) h

/-- Under the invariant no enabled action panics: the current thread that makes a syscall is
runnable, and a Syscall upcall returns to a thread with one upcall under way. -/
theorem Inv.step_isSome (h : σ.Inv) {a : Action} (he : σ.enabled a = true) :
    (σ.step a).isSome := by
  cases a with
  | syscall =>
    simp only [enabled, Bool.and_eq_true, Option.isSome_iff_exists] at he
    obtain ⟨-, c, hc⟩ := he
    obtain ⟨m, hm, hr⟩ := isRunnable_iff.mp (h.current_runnable c (by simp [hc]))
    simp [ThreadSystem.step, ThreadSystem.handleSyscall, hc, hm, hr]
  | upcallReturn =>
    simp only [enabled, Bool.not_eq_true', List.isEmpty_eq_false_iff] at he
    obtain ⟨f, fs, hf⟩ := List.exists_cons_of_ne_nil he
    cases f with
    | syscall t =>
      obtain ⟨m, hm⟩ := Option.ne_none_iff_exists'.mp
        (h.frame_known (.syscall t) (by simp [hf]) t (by simp [Frame.ref?]))
      have hk : m.inUpcalls ≠ 0 := by
        rw [h.inUpcalls t m hm, hf]
        simp
      simp [ThreadSystem.step, ThreadSystem.upcallReturn, hf, ThreadSystem.afterSyscallUpcall, hm, hk]
      split_ifs <;> simp
    | boot => simp [ThreadSystem.step, ThreadSystem.upcallReturn, hf]
    | syscallTerminated t => simp [ThreadSystem.step, ThreadSystem.upcallReturn, hf]
    | terminate t => simp [ThreadSystem.step, ThreadSystem.upcallReturn, hf]
  | unblock t =>
    simp only [enabled, Bool.and_eq_true, Option.isSome_iff_exists] at he
    obtain ⟨-, m, hm⟩ := he
    simp only [ThreadSystem.step, ThreadSystem.unblock, hm]
    split_ifs <;> simp
  | terminate t =>
    simp only [enabled, Bool.and_eq_true, Option.isSome_iff_exists] at he
    obtain ⟨-, m, hm⟩ := he
    simp only [ThreadSystem.step, ThreadSystem.terminate, hm]
    split_ifs <;> simp
  | interrupt => simp [ThreadSystem.step]
  | create t => simp [ThreadSystem.step]
  | skip => simp [ThreadSystem.step]

/-! ### When the CPU idles -/

/-- `pick` finds a thread when a runnable one is queued. -/
theorem pick_current_ne_none {t : Nat} (ht : t ∈ σ.runqueue) (hr : σ.isRunnable t = true) :
    σ.pick.current ≠ none := by
  unfold pick
  split
  · rename_i hnil
    have hskip := List.dropWhile_eq_nil_iff.mp hnil t ht
    simp [hr] at hskip
  · simp

/-- `return_to_user` leaves a thread current when a runnable one is current or queued. -/
theorem returnToUser_current_ne_none {t : Nat} (hr : σ.isRunnable t = true)
    (hs : t ∈ σ.current ∨ t ∈ σ.runqueue) : σ.returnToUser.current ≠ none := by
  unfold returnToUser
  split
  · rename_i c hc
    split
    · simp [hc]
    · rename_i hcr
      rcases hs with ht | ht
      · rw [hc, Option.mem_some_iff] at ht
        exact absurd (ht ▸ hr) hcr
      · exact pick_current_ne_none ht hr
  · rename_i hc
    rcases hs with ht | ht
    · simp [hc] at ht
    · exact pick_current_ne_none ht hr

/-- The calls of a handler keep an upcall under way: `thread_terminate` may push its frame, the
others leave the stack alone. -/
theorem frames_ne_nil_of_call {a : Action} (hf : σ.frames ≠ []) (hs : σ.step a = some σ')
    (ha : a ≠ .syscall ∧ a ≠ .interrupt ∧ a ≠ .upcallReturn) : σ'.frames ≠ [] := by
  cases a with
  | syscall => exact absurd rfl ha.1
  | interrupt => exact absurd rfl ha.2.1
  | upcallReturn => exact absurd rfl ha.2.2
  | unblock t =>
    obtain ⟨m, -, ⟨-, rfl⟩ | ⟨-, rfl⟩⟩ := unblock_eq_some hs <;> exact hf
  | terminate t =>
    obtain ⟨m, -, ⟨-, rfl⟩ | ⟨-, -, rfl⟩ | ⟨-, -, rfl⟩⟩ := terminate_eq_some hs
    · exact hf
    · simp
    · exact hf
  | create t =>
    cases hs
    exact hf
  | skip =>
    cases hs
    exact hf

/-- A change of a thread's count of upcalls under way leaves every thread as runnable as it was. -/
theorem isRunnable_setMutable_inUpcalls {u : Nat} {m : Mutable} (hm : σ.mutable u = some m)
    (k : Nat) : (σ.setMutable u { m with inUpcalls := k }).isRunnable = σ.isRunnable := by
  funext x
  rw [isRunnable_setMutable]
  split_ifs with hx
  · subst hx
    simp [isRunnable, hm]
  · rfl

/-- While a thread is runnable, no transition leaves the CPU idle: the runnable thread is
current or queued, and the end of a Syscall upcall keeps its thread's state, so `return_to_user`
finds a thread to enter; every other transition leaves an upcall under way, a
`thread_terminate` frame never being the bottom one. -/
theorem Inv.not_idle (h : σ.Inv) {a : Action} (hn : Next σ a σ') {t : Nat}
    (hr : σ.isRunnable t = true) : ¬ σ'.Idle := by
  obtain ⟨he, hs⟩ := hn
  rintro ⟨hcur, hfr⟩
  have hsched := h.runnable_scheduled t hr
  cases a with
  | syscall =>
    obtain ⟨c, m, hc, hm, ⟨hterm, -⟩ | ⟨-, rfl⟩⟩ := handleSyscall_eq_some hs
    · obtain ⟨m', hm', hrun⟩ := isRunnable_iff.mp (h.current_runnable c (by simp [hc]))
      rw [hm, Option.some.injEq] at hm'
      rw [← hm', hterm] at hrun
      cases hrun
    · simp at hfr
  | interrupt =>
    cases hs
    exact returnToUser_current_ne_none hr hsched hcur
  | upcallReturn =>
    obtain ⟨f, fs, hf, ⟨-, rfl⟩ | ⟨u, -, hs⟩ | ⟨u, -, rfl⟩ | ⟨u, rfl, rfl⟩⟩ :=
      upcallReturn_eq_some hs
    · exact returnToUser_current_ne_none (σ := { σ with frames := fs }) hr hsched hcur
    · obtain ⟨m, hm, -, ⟨-, -, rfl⟩ | ⟨-, rfl⟩⟩ := afterSyscallUpcall_eq_some hs
      · simp at hfr
      · have hr' := congrFun (isRunnable_setMutable_inUpcalls (σ := { σ with frames := fs }) hm
          (m.inUpcalls - 1)) t
        exact returnToUser_current_ne_none (hr'.trans hr) hsched hcur
    · exact returnToUser_current_ne_none (σ := { σ with frames := fs }) hr hsched hcur
    · have hnest := h.nested
      rw [hf, show fs = [] from hfr] at hnest
      simp [Frame.Nested, Frame.isTerminate] at hnest
  | unblock u | terminate u | create u | skip =>
    exact frames_ne_nil_of_call (frames_ne_nil_of_enabled he (by simp)) hs (by simp) hfr

/-! ### How the runqueue grows -/

theorem runqueue_pick_sublist (σ : ThreadSystem) : List.Sublist σ.pick.runqueue σ.runqueue := by
  have hsuffix := List.dropWhile_suffix (l := σ.runqueue) (fun t => !σ.isRunnable t)
  unfold ThreadSystem.pick
  split
  · exact List.nil_sublist _
  · rename_i t q hd
    exact (List.sublist_cons_self t q).trans (hd ▸ hsuffix.sublist)

theorem runqueue_returnToUser_sublist (σ : ThreadSystem) :
    List.Sublist σ.returnToUser.runqueue σ.runqueue := by
  unfold ThreadSystem.returnToUser
  split
  · split
    · exact List.Sublist.refl _
    · exact runqueue_pick_sublist σ
  · exact runqueue_pick_sublist σ

/-- A transition only takes threads off the runqueue, except `thread_unblock`, which queues a
blocked thread at the back. -/
theorem Next.runqueue {a : Action} (hn : Next σ a σ') :
    List.Sublist σ'.runqueue σ.runqueue ∨
      ∃ u m, σ.mutable u = some m ∧ m.state = .blocked ∧ σ'.runqueue = σ.runqueue ++ [u] := by
  obtain ⟨-, hs⟩ := hn
  cases a with
  | syscall =>
    obtain ⟨c, m, -, -, ⟨-, rfl⟩ | ⟨-, rfl⟩⟩ := handleSyscall_eq_some hs
    · exact .inl (runqueue_returnToUser_sublist _)
    · exact .inl (by simp)
  | interrupt =>
    cases hs
    exact .inl (runqueue_returnToUser_sublist σ)
  | upcallReturn =>
    obtain ⟨f, fs, -, ⟨-, rfl⟩ | ⟨t, -, hs⟩ | ⟨t, -, rfl⟩ | ⟨t, -, rfl⟩⟩ := upcallReturn_eq_some hs
    · exact .inl (runqueue_returnToUser_sublist _)
    · obtain ⟨m, -, -, ⟨-, -, rfl⟩ | ⟨-, rfl⟩⟩ := afterSyscallUpcall_eq_some hs
      · exact .inl (by simp)
      · exact .inl (runqueue_returnToUser_sublist _)
    · exact .inl (runqueue_returnToUser_sublist _)
    · exact .inl (List.Sublist.refl _)
  | unblock t =>
    obtain ⟨m, hm, ⟨-, rfl⟩ | ⟨hb, rfl⟩⟩ := unblock_eq_some hs
    · exact .inl (List.Sublist.refl _)
    · exact .inr ⟨t, m, hm, hb, rfl⟩
  | terminate t =>
    obtain ⟨m, -, ⟨-, rfl⟩ | ⟨-, -, rfl⟩ | ⟨-, -, rfl⟩⟩ := terminate_eq_some hs
    · exact .inl (List.Sublist.refl _)
    · exact .inl (by simp)
    · exact .inl (by simp)
  | create t =>
    cases hs
    exact .inl (by simp)
  | skip =>
    cases hs
    exact .inl (List.Sublist.refl _)

/-- A thread that is not blocked is never queued again: no transition adds it to the runqueue. -/
theorem Next.count_runqueue_le {a : Action} (hn : Next σ a σ') {t : Nat} {m : Mutable}
    (hm : σ.mutable t = some m) (hb : m.state ≠ .blocked) :
    σ'.runqueue.count t ≤ σ.runqueue.count t := by
  rcases hn.runqueue with hsub | ⟨u, mu, hu, hub, hq⟩
  · exact hsub.count_le t
  · have hut : u ≠ t := by
      rintro rfl
      rw [hm] at hu
      cases hu
      exact hb hub
    simp [hq, hut]

/-! ### How the upcall log grows -/

/-- A transition invokes at most one upcall; a Terminated upcall comes with the frame that waits
for it. -/
theorem Next.upcalls {a : Action} (hn : Next σ a σ') :
    σ'.upcalls = σ.upcalls ∨ (∃ t, σ'.upcalls = σ.upcalls ++ [(t, .syscall)]) ∨
      ∃ t, σ'.upcalls = σ.upcalls ++ [(t, .terminated)] ∧
        (Frame.terminate t ∈ σ'.frames ∨ Frame.syscallTerminated t ∈ σ'.frames) := by
  obtain ⟨-, hs⟩ := hn
  cases a with
  | syscall =>
    obtain ⟨c, m, -, -, ⟨-, rfl⟩ | ⟨-, rfl⟩⟩ := handleSyscall_eq_some hs
    · exact .inl (by simp)
    · exact .inr (.inl ⟨c, by simp⟩)
  | interrupt =>
    cases hs
    exact .inl (by simp)
  | upcallReturn =>
    obtain ⟨f, fs, -, ⟨-, rfl⟩ | ⟨t, -, hs⟩ | ⟨t, -, rfl⟩ | ⟨t, -, rfl⟩⟩ := upcallReturn_eq_some hs
    · exact .inl (by simp)
    · obtain ⟨m, -, -, ⟨-, -, rfl⟩ | ⟨-, rfl⟩⟩ := afterSyscallUpcall_eq_some hs
      · exact .inr (.inr ⟨t, by simp, .inr (by simp)⟩)
      · exact .inl (by simp)
    · exact .inl (by simp)
    · exact .inl rfl
  | unblock t =>
    obtain ⟨m, -, ⟨-, rfl⟩ | ⟨-, rfl⟩⟩ := unblock_eq_some hs
    · exact .inl rfl
    · exact .inl (by simp)
  | terminate t =>
    obtain ⟨m, -, ⟨-, rfl⟩ | ⟨-, -, rfl⟩ | ⟨-, -, rfl⟩⟩ := terminate_eq_some hs
    · exact .inl rfl
    · exact .inr (.inr ⟨t, by simp, .inl (by simp)⟩)
    · exact .inl (by simp)
  | create t =>
    cases hs
    exact .inl (by simp)
  | skip =>
    cases hs
    exact .inl rfl

/-- A Terminated upcall is invoked with a frame that waits for it, on top of the stack. -/
theorem Next.frame_of_invoked {a : Action} (hn : Next σ a σ') {t : Nat}
    (hold : (t, UpcallArg.terminated) ∉ σ.upcalls) (hnew : (t, UpcallArg.terminated) ∈ σ'.upcalls) :
    Frame.terminate t ∈ σ'.frames ∨ Frame.syscallTerminated t ∈ σ'.frames := by
  rcases hn.upcalls with hu | ⟨u, hu⟩ | ⟨u, hu, hf⟩
  · exact absurd (hu ▸ hnew) hold
  · simp [hu, hold] at hnew
  · obtain rfl : t = u := by simpa [hu, hold] using hnew
    exact hf

end Preservation

end ThreadSystem

end Ftl

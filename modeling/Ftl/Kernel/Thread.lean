import Mathlib
import Ftl.Lib.Focus
import Ftl.Lib.Run
import Ftl.Kernel.SharedRef
import Ftl.Kernel.VmArea

/-!
# Threads, the scheduler, and the kernel's single-CPU run

`kernel/src/thread.rs`, `scheduler.rs`, `syscall.rs` and the thread calls of `START_INFO` in
`server.rs`, as one system on one CPU.

A thread is `Runnable`, `Blocked` or `Terminated`, and counts in `in_upcalls` the Syscall upcalls
under way. The scheduler keeps a runqueue of `SharedRef<Thread>`, and the CPU a raw pointer to the
current thread (`CurrentThread`), which owns a reference. A syscall of the current thread enters
`syscall::handle_syscall`: it takes a reference to the current thread, clears the current slot, and
`Thread::handle_syscall` marks the thread `Blocked` and invokes the server's Syscall upcall. The
server's handler runs in the kernel, on the kernel stack, with interrupts off: it calls the
kernel through `START_INFO` (`thread_unblock`, `thread_terminate`, ...), and a `terminate` may
invoke a Terminated upcall in turn. When the handler returns, `handle_syscall` finishes its second
critical section and `return_to_user` picks the next thread. With no runnable thread left it
enters `arch::idle()`, which is still `todo!()`: the kernel panics rather than idle.

The model is a state machine. `Kernel` holds the objects (`Heap Object`), the runqueue, the current
thread, the handles the servers hold, the kernel code waiting for an upcall to return (`Frame`,
innermost first, with the reference it holds), and the upcalls made so far. An `Event` is what
can happen next: the current thread makes a syscall, an interrupt arrives, the innermost
upcall's handler calls the kernel, or it returns. `step` runs the kernel code for it; a panic is a
`Fault.panic`. The run starts in `server::init`, with the servers' entry points as the first
upcall (`Frame.boot`).

Left out: registers and the arch-specific thread (`get_context` and `set_context` only check the
state), `CR3` (`enter` switches address spaces), the memory of the objects, and the calls that
move no thread and no reference (`malloc`, `print`, `vmarea_write`, `vmspace_read`);
`vmspace_map` moves a `VmArea` reference into a mapping and is modelled in `Ftl.Kernel.VmSpace`,
not here. `VmSpace::new` may run out of pages: `Call.vmspaceCreate` says whether it does. The
kernel heap has room for every `SharedRef::new` and every runqueue push.

## Main definitions

* `Ftl.Object`, `Ftl.Frame`, `Ftl.Kernel`.
* `Ftl.Kernel.dropRef`, `Ftl.Kernel.unblock`, `Ftl.Kernel.terminate`, `Ftl.Kernel.handleSyscall`,
  `Ftl.Kernel.upcallReturn`, `Ftl.Kernel.returnToUser`.
* `Ftl.Kernel.call`: the thread calls of `START_INFO`.
* `Ftl.Kernel.step`, `Ftl.Kernel.Next`, `Ftl.Kernel.Reachable`.
-/

namespace Ftl

/-- `thread::State`. -/
inductive State where
  | runnable
  | blocked
  | terminated
  deriving DecidableEq, Repr

/-- A thread's `Mutable`. -/
structure Mutable where
  state : State
  inUpcalls : Nat
  deriving DecidableEq, Repr

/-- A reference-counted kernel object, with what the model reads of it: a thread's `Mutable` and
its `vmspace`, a reference to a `VmSpace`. -/
inductive Object where
  | thread (mutable : Mutable) (vmspace : Nat)
  | vmSpace
  | vmArea
  deriving DecidableEq, Repr

namespace Object

/-- The `TypeId` of the object's type. -/
def typeId : Object → TypeId
  | .thread _ _ => .thread
  | .vmSpace => .vmSpace
  | .vmArea => .vmArea

/-- The reference the object owns. -/
def field? : Object → Option Nat
  | .thread _ vmspace => some vmspace
  | _ => none

/-- The object with its `Mutable` replaced, for a thread. -/
def withMutable (m : Mutable) : Object → Object
  | .thread _ vmspace => .thread m vmspace
  | o => o

end Object

/-- `UpcallArg`. -/
inductive UpcallArg where
  | syscall
  | terminated
  deriving DecidableEq, Repr

/-- Kernel code waiting on the kernel stack for the upcall above it to return. -/
inductive Frame where
  /-- `server::init`, running a server's entry point. -/
  | boot
  /-- `Thread::handle_syscall` of `t`, in the Syscall upcall; `syscall::handle_syscall` holds
  `current`, a reference to `t`. -/
  | syscall (t : Nat)
  /-- The same, in the Terminated upcall that `handle_syscall` invoked. -/
  | syscallTerminated (t : Nat)
  /-- `Thread::terminate` of `t`, in the Terminated upcall; `thread_terminate` holds `thread`. -/
  | terminate (t : Nat)
  deriving DecidableEq, Repr

/-- The reference the waiting code holds. -/
def Frame.ref? : Frame → Option Nat
  | .boot => none
  | .syscall t => some t
  | .syscallTerminated t => some t
  | .terminate t => some t

/-- The kernel on one CPU. -/
structure Kernel where
  heap : Heap Object
  /-- `SCHEDULER.runqueue`, front first. -/
  runqueue : List Nat
  /-- `CpuVar.current_thread`. -/
  current : Option Nat
  /-- The handles the servers hold. -/
  handles : List Handle
  /-- The kernel code waiting for upcalls, innermost first. -/
  frames : List Frame
  /-- The upcalls invoked so far, in order. -/
  upcalls : List (Nat × UpcallArg)

namespace Kernel

open EStateM

/-- The objects, as a part of the kernel. -/
def heapLens : Lens Kernel (Heap Object) where
  get s := s.heap
  set h s := { s with heap := h }
  get_set _ _ := rfl
  set_get _ := rfl

/-! ### References and thread objects -/

/-- `drop` of a `SharedRef`: when it frees a thread, the thread's `vmspace` is dropped in turn. -/
def dropRef (r : Nat) : EStateM Fault Kernel Unit := do
  match ← focus heapLens (SharedRef.drop r) with
  | some (.thread _ vmspace) =>
    let _ ← focus heapLens (SharedRef.drop vmspace)
    pure ()
  | _ => pure ()

/-- `clone` of a `SharedRef`. -/
def cloneRef (r : Nat) : EStateM Fault Kernel Unit := focus heapLens (SharedRef.clone r)

/-- `self.mutable.lock()` of the thread at `t`. -/
def lock (t : Nat) : EStateM Fault Kernel Mutable := do
  match (← get).heap.value? t with
  | some (.thread m _) => pure m
  | _ => throw .panic

/-- Store `m` as the `Mutable` of the thread at `t`. -/
def setMutable (t : Nat) (m : Mutable) : EStateM Fault Kernel Unit :=
  modify fun s => { s with heap := s.heap.modifyValue t (Object.withMutable m) }

/-- `Thread::is_runnable`. -/
def isRunnable (t : Nat) : EStateM Fault Kernel Bool := do
  let m ← lock t
  pure (m.state == .runnable)

/-- `upcall.invoke(arg)` of the thread at `t`: the server's handler now runs, and `frame` waits
for it. -/
def invoke (t : Nat) (arg : UpcallArg) (frame : Frame) : EStateM Fault Kernel Unit :=
  modify fun s => { s with upcalls := s.upcalls ++ [(t, arg)], frames := frame :: s.frames }

/-! ### The scheduler and the current thread -/

/-- `Scheduler::push_back`. -/
def pushBack (t : Nat) : EStateM Fault Kernel Unit :=
  modify fun s => { s with runqueue := s.runqueue ++ [t] }

/-- `Scheduler::push_front`. -/
def pushFront (t : Nat) : EStateM Fault Kernel Unit :=
  modify fun s => { s with runqueue := t :: s.runqueue }

/-- `CurrentThread::clear`. -/
def clear : EStateM Fault Kernel Unit := do
  let old := (← get).current
  modify fun s => { s with current := none }
  match old with
  | some t => dropRef t
  | none => pure ()

/-- `CurrentThread::thread`: a new reference to the current thread. -/
def currentThread : EStateM Fault Kernel (Option Nat) := do
  match (← get).current with
  | none => pure none
  | some t =>
    cloneRef t
    pure (some t)

/-- `CurrentThread::update(next)`: `next`'s reference becomes the current thread's pointer. -/
def update (next : Nat) : EStateM Fault Kernel Unit := do
  let old := (← get).current
  modify fun s => { s with current := some next }
  match old with
  | some t => dropRef t
  | none => pure ()

/-- The loop of `return_to_user` over the runqueue `q`: pop the front thread, enter it if it is
runnable, drop it otherwise. With nothing left, clear the current thread and enter
`arch::idle()`, which is `todo!()` on x64 and the host: a panic. The state's runqueue is `q` at
each turn, so popping it is taking `q`'s head. -/
def popLoop : List Nat → EStateM Fault Kernel Unit
  | [] => do
    clear
    throw .panic
  | t :: q => do
    modify fun s => { s with runqueue := q }
    if ← isRunnable t then
      -- `current.enter(next)`: switch address spaces, then `update`
      update t
    else
      dropRef t
      popLoop q

/-- `scheduler::return_to_user`, up to the thread it enters. -/
def returnToUser : EStateM Fault Kernel Unit := do
  match ← currentThread with
  | some current =>
    if ← isRunnable current then
      -- `.expect("out of memory in runqueue")`: the heap has room
      pushFront current
    else
      dropRef current
  | none => pure ()
  popLoop (← get).runqueue

/-! ### Thread operations -/

/-- `Thread::unblock`. -/
def unblock (t : Nat) : EStateM Fault Kernel (Except ErrorCode Unit) := do
  let m ← lock t
  if m.state ≠ .blocked then return .error .invalidState
  cloneRef t
  pushBack t
  setMutable t { m with state := .runnable }
  return .ok ()

/-- `Thread::terminate`, up to its Terminated upcall: whether it invoked the upcall. The rest,
`Ok(())`, runs when the upcall returns (`Frame.terminate`). -/
def terminate (t : Nat) : EStateM Fault Kernel (Except ErrorCode Bool) := do
  let m ← lock t
  if m.state = .terminated then return .error .invalidState
  setMutable t { m with state := .terminated }
  -- not while a Syscall upcall of the thread is under way
  if m.inUpcalls = 0 then
    invoke t .terminated (.terminate t)
    return .ok true
  return .ok false

/-- `syscall::handle_syscall`, with `Thread::handle_syscall` up to its Syscall upcall. -/
def handleSyscall : EStateM Fault Kernel Unit := do
  -- `current_thread.thread().unwrap()`
  let some current ← currentThread | throw .panic
  clear
  let m ← lock current
  if m.state = .terminated then
    -- `handle_syscall` returns at once; `drop(current)`
    dropRef current
    returnToUser
  else
    -- `assert_eq!(mutable.state, State::Runnable)`
    if m.state ≠ .runnable then throw .panic
    setMutable current { state := .blocked, inUpcalls := m.inUpcalls + 1 }
    invoke current .syscall (.syscall current)

/-- The second critical section of `Thread::handle_syscall`, after the Syscall upcall of `t`. -/
def afterSyscallUpcall (t : Nat) : EStateM Fault Kernel Unit := do
  let m ← lock t
  -- `debug_assert!(mutable.in_upcalls > 0)`
  if m.inUpcalls = 0 then throw .panic
  let m' := { m with inUpcalls := m.inUpcalls - 1 }
  setMutable t m'
  if m'.inUpcalls = 0 ∧ m'.state = .terminated then
    invoke t .terminated (.syscallTerminated t)
  else
    -- `drop(current)`
    dropRef t
    returnToUser

/-- The innermost upcall returns to the kernel code waiting for it. -/
def upcallReturn : EStateM Fault Kernel Unit := do
  match (← get).frames with
  | [] => throw .panic
  | frame :: frames =>
    modify fun s => { s with frames := frames }
    match frame with
    | .boot => returnToUser
    | .syscall t => afterSyscallUpcall t
    | .syscallTerminated t =>
      dropRef t
      returnToUser
    | .terminate t =>
      -- `Ok(())` from `terminate`; `thread_terminate` drops `thread`
      dropRef t

/-! ### The calls of `START_INFO` -/

/-- Hand a new handle to the server. -/
def giveHandle (handle : Handle) : EStateM Fault Kernel Unit :=
  modify fun s => { s with handles := s.handles ++ [handle] }

/-- `SharedRef::from_borrowed_handle`. -/
def fromBorrowedHandle (typeId : TypeId) (handle : Handle) (action : HandleRight) :
    EStateM Fault Kernel (Except ErrorCode Nat) :=
  focus heapLens (SharedRef.fromBorrowedHandle typeId handle action)

/-- `Thread::DEFAULT_RIGHT`. -/
def threadRight : HandleRight := HandleRight.READ.or HandleRight.WRITE

/-- `VmSpace::DEFAULT_RIGHT`, also `VmArea::DEFAULT_RIGHT`. -/
def vmRight : HandleRight := (HandleRight.READ.or HandleRight.WRITE).or HandleRight.MAP

/-- `vmspace_create`; `ok` says whether `VmSpace::new` finds the page of its PML4. -/
def vmspaceCreate (ok : Bool) : EStateM Fault Kernel (Except ErrorCode Unit) := do
  if !ok then return .error .outOfMemory
  let r ← focus heapLens (SharedRef.new .vmSpace)
  giveHandle (SharedRef.intoHandle r .vmSpace vmRight)
  return .ok ()

/-- `vmarea_allocate(len)`. -/
def vmareaAllocate (len : Nat) : EStateM Fault Kernel (Except ErrorCode Unit) := do
  match VmArea.newAnonymous len with
  | .error e => return .error e
  | .ok _ =>
    let r ← focus heapLens (SharedRef.new .vmArea)
    giveHandle (SharedRef.intoHandle r .vmArea vmRight)
    return .ok ()

/-- `thread_create(vmspace, upcall)`: the new thread owns the reference to its `VmSpace`. -/
def threadCreate (vmspace : Handle) : EStateM Fault Kernel (Except ErrorCode Unit) := do
  match ← fromBorrowedHandle .vmSpace vmspace .MAP with
  | .error e => return .error e
  | .ok vs =>
    let t ← focus heapLens (SharedRef.new (.thread ⟨.blocked, 0⟩ vs))
    giveHandle (SharedRef.intoHandle t .thread threadRight)
    return .ok ()

/-- `thread_get_context` (`action = READ`) and `thread_set_context` (`action = WRITE`): the
thread must be blocked; the registers are not modelled. -/
def contextCall (action : HandleRight) (thread : Handle) :
    EStateM Fault Kernel (Except ErrorCode Unit) := do
  match ← fromBorrowedHandle .thread thread action with
  | .error e => return .error e
  | .ok t =>
    let m ← lock t
    dropRef t
    if m.state ≠ .blocked then return .error .invalidState
    return .ok ()

/-- `thread_get_context`. -/
def threadGetContext (thread : Handle) : EStateM Fault Kernel (Except ErrorCode Unit) :=
  contextCall .READ thread

/-- `thread_set_context`. -/
def threadSetContext (thread : Handle) : EStateM Fault Kernel (Except ErrorCode Unit) :=
  contextCall .WRITE thread

/-- `thread_unblock`. -/
def threadUnblock (thread : Handle) : EStateM Fault Kernel (Except ErrorCode Unit) := do
  match ← fromBorrowedHandle .thread thread .WRITE with
  | .error e => return .error e
  | .ok t =>
    let r ← unblock t
    dropRef t
    return r

/-- `thread_terminate`. When `terminate` invoked the Terminated upcall, `thread` is dropped when
the upcall returns. -/
def threadTerminate (thread : Handle) : EStateM Fault Kernel (Except ErrorCode Unit) := do
  match ← fromBorrowedHandle .thread thread .WRITE with
  | .error e => return .error e
  | .ok t =>
    match ← terminate t with
    | .error e =>
      dropRef t
      return .error e
    | .ok true => return .ok ()
    | .ok false =>
      dropRef t
      return .ok ()

/-- `thread_destroy(thread)`: the handle is moved in. -/
def threadDestroy (thread : Handle) : EStateM Fault Kernel (Except ErrorCode Unit) := do
  modify fun s => { s with handles := s.handles.erase thread }
  match SharedRef.fromMovedHandle .thread thread with
  | .error e => return .error e
  | .ok t =>
    dropRef t
    return .ok ()

/-- A call of the server into the kernel. -/
inductive Call where
  | vmspaceCreate (ok : Bool)
  | vmareaAllocate (len : Nat)
  | threadCreate (vmspace : Handle)
  | threadGetContext (thread : Handle)
  | threadSetContext (thread : Handle)
  | threadUnblock (thread : Handle)
  | threadTerminate (thread : Handle)
  | threadDestroy (thread : Handle)
  deriving DecidableEq, Repr

/-- The handle a call passes, which the server must hold. -/
def Call.handle? : Call → Option Handle
  | .vmspaceCreate _ => none
  | .vmareaAllocate _ => none
  | .threadCreate h => some h
  | .threadGetContext h => some h
  | .threadSetContext h => some h
  | .threadUnblock h => some h
  | .threadTerminate h => some h
  | .threadDestroy h => some h

/-- Run a call. -/
def call : Call → EStateM Fault Kernel (Except ErrorCode Unit)
  | .vmspaceCreate ok => vmspaceCreate ok
  | .vmareaAllocate len => vmareaAllocate len
  | .threadCreate h => threadCreate h
  | .threadGetContext h => threadGetContext h
  | .threadSetContext h => threadSetContext h
  | .threadUnblock h => threadUnblock h
  | .threadTerminate h => threadTerminate h
  | .threadDestroy h => threadDestroy h

/-! ### Runs -/

/-- What can happen next on the CPU. -/
inductive Event where
  /-- The current thread executes `syscall`. -/
  | syscall
  /-- An interrupt: `handle_interrupt`, then `return_to_user`. -/
  | interrupt
  /-- The handler of the innermost upcall calls the kernel. -/
  | call (c : Call)
  /-- The handler of the innermost upcall returns. -/
  | upcallReturn
  deriving DecidableEq, Repr

/-- Whether the event can happen: user code runs when no upcall is under way, with interrupts on;
a server's handler runs inside an upcall and passes only handles it holds. -/
def enabled (s : Kernel) : Event → Bool
  | .syscall => s.frames.isEmpty && s.current.isSome
  | .interrupt => s.frames.isEmpty
  | .call c => !s.frames.isEmpty && (c.handle?.all fun h => h ∈ s.handles)
  | .upcallReturn => !s.frames.isEmpty

/-- The kernel code an event runs. -/
def step : Event → EStateM Fault Kernel Unit
  | .syscall => handleSyscall
  | .interrupt => returnToUser
  | .call c => do
    let _ ← call c
    pure ()
  | .upcallReturn => upcallReturn

/-- The kernel in `server::init`: no objects yet, and the servers' entry points running. -/
def init : Kernel := ⟨⟨fun _ => none, 0⟩, [], none, [], [.boot], []⟩

/-- One transition: an enabled event whose kernel code runs without a panic. -/
def Next (s : Kernel) (e : Event) (s' : Kernel) : Prop :=
  enabled s e = true ∧ (step e).run s = .ok () s'

/-- The states a run from `init` reaches. -/
def Reachable (s : Kernel) : Prop := Reach Next init s

end Kernel

end Ftl

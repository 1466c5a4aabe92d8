import Mathlib
import Ftl.Api.Types

/-!
# Reference-counted objects

`kernel/src/shared_ref.rs`. A `SharedRef<T>` is a pointer to a `RefCounted<T>`: a counter and the
value. `new` allocates the object with counter `1`, `clone` adds one, and `drop` takes one away
and frees the object when it took the last. `into_raw`, `from_raw` and `into_handle` move the
pointer between a `SharedRef`, a raw pointer and a `Handle` and leave the counter alone;
`clone_from_raw` is a `clone`.

The objects live in a `Heap`: the model names an object by its address, and a freed or never
allocated address holds `none`. Reaching a freed object through a reference is undefined
behaviour in Rust; so is the `debug_assert!` of `clone` and `drop` failing, which panics. Both are
modelled as a panic. The kernel heap is taken to have room for every `new`.

A `SharedRef` is its address `r : Nat`; what owns a reference (a local, a runqueue entry, the
current thread's pointer, a handle, a field) is the caller's business.

## Main definitions

* `Ftl.RefCounted`, `Ftl.Heap`, `Ftl.Heap.counter`.
* `Ftl.SharedRef.new`, `Ftl.SharedRef.clone`, `Ftl.SharedRef.drop`.
* `Ftl.SharedRef.fromBorrowedHandle`, `Ftl.SharedRef.fromMovedHandle`, `Ftl.SharedRef.intoHandle`.

## Main results

* `Ftl.SharedRef.run_new`, `Ftl.SharedRef.run_clone`, `Ftl.SharedRef.run_drop_of_one`,
  `Ftl.SharedRef.run_drop_of_lt`: what each does to the heap.
-/

namespace Ftl

/-- `RefCounted<T>`. -/
structure RefCounted (α : Type) where
  counter : Nat
  value : α

/-- The objects by address, and the next address `new` hands out. -/
structure Heap (α : Type) where
  objs : Nat → Option (RefCounted α)
  next : Nat

namespace Heap

variable {α : Type}

/-- The counter of the object at `r`; `0` once it is freed. -/
def counter (h : Heap α) (r : Nat) : Nat := ((h.objs r).map RefCounted.counter).getD 0

/-- The value of the object at `r`. -/
def value? (h : Heap α) (r : Nat) : Option α := (h.objs r).map RefCounted.value

/-- The heap with the object at `r` replaced by `o`. -/
def setObj (h : Heap α) (r : Nat) (o : Option (RefCounted α)) : Heap α :=
  { h with objs := Function.update h.objs r o }

/-- The heap with the value of the object at `r` changed by `f`. -/
def modifyValue (h : Heap α) (r : Nat) (f : α → α) : Heap α :=
  { h with objs := Function.update h.objs r ((h.objs r).map fun o => { o with value := f o.value }) }

@[simp] theorem counter_setObj (h : Heap α) (r : Nat) (o : Option (RefCounted α)) (r' : Nat) :
    (h.setObj r o).counter r' = if r' = r then (o.map RefCounted.counter).getD 0 else h.counter r' := by
  by_cases hr : r' = r
  · subst hr; simp [counter, setObj]
  · simp [counter, setObj, hr]

@[simp] theorem value?_setObj (h : Heap α) (r : Nat) (o : Option (RefCounted α)) (r' : Nat) :
    (h.setObj r o).value? r' = if r' = r then o.map RefCounted.value else h.value? r' := by
  by_cases hr : r' = r
  · subst hr; simp [value?, setObj]
  · simp [value?, setObj, hr]

@[simp] theorem next_setObj (h : Heap α) (r : Nat) (o : Option (RefCounted α)) :
    (h.setObj r o).next = h.next := rfl

@[simp] theorem counter_modifyValue (h : Heap α) (r : Nat) (f : α → α) (r' : Nat) :
    (h.modifyValue r f).counter r' = h.counter r' := by
  by_cases hr : r' = r
  · subst hr; cases hobj : h.objs r' <;> simp [counter, modifyValue, hobj]
  · simp [counter, modifyValue, hr]

@[simp] theorem value?_modifyValue (h : Heap α) (r : Nat) (f : α → α) (r' : Nat) :
    (h.modifyValue r f).value? r' = if r' = r then (h.value? r).map f else h.value? r' := by
  by_cases hr : r' = r
  · subst hr; cases hobj : h.objs r' <;> simp [value?, modifyValue, hobj]
  · simp [value?, modifyValue, hr]

end Heap

namespace SharedRef

variable {α : Type}

open EStateM

/-- `SharedRef::new(value)`: a fresh object whose counter is `1`. -/
def new (value : α) : EStateM Fault (Heap α) Nat := do
  let h ← get
  set ({ h.setObj h.next (some ⟨1, value⟩) with next := h.next + 1 } : Heap α)
  pure h.next

/-- `SharedRef::clone` (and `clone_from_raw`): one more reference. -/
def clone (r : Nat) : EStateM Fault (Heap α) Unit := do
  let h ← get
  match h.objs r with
  | none => throw .panic
  | some o =>
    -- `debug_assert!(counter > 0)`
    if o.counter = 0 then throw .panic
    set (h.setObj r (some { o with counter := o.counter + 1 }))

/-- `Drop for SharedRef`: one reference less; the value, when it was the last one and the object
is freed, so that the caller drops what the value owns. -/
def drop (r : Nat) : EStateM Fault (Heap α) (Option α) := do
  let h ← get
  match h.objs r with
  | none => throw .panic
  | some o =>
    -- `debug_assert!(counter > 0)`
    if o.counter = 0 then throw .panic
    -- `fetch_sub(1) == 1`: the counter reached zero
    if o.counter = 1 then
      set (h.setObj r none)
      pure (some o.value)
    else
      set (h.setObj r (some { o with counter := o.counter - 1 }))
      pure none

/-- `SharedRef::into_handle()` of a `T` with `T::DEFAULT_RIGHT = right`. -/
def intoHandle (r : Nat) (typeId : TypeId) (right : HandleRight) : Handle := ⟨r, typeId, right⟩

/-- `SharedRef::<T>::from_borrowed_handle(handle, action)`, for the `T` of `typeId`: a new
reference to the object the handle names. -/
def fromBorrowedHandle (typeId : TypeId) (handle : Handle) (action : HandleRight) :
    EStateM Fault (Heap α) (Except ErrorCode Nat) := do
  if handle.typeId ≠ typeId then return .error .invalidType
  if !handle.right.contains action then return .error .notAllowed
  clone handle.raw
  return .ok handle.raw

/-- `SharedRef::<T>::from_moved_handle(handle)`: the handle's reference, now as a `SharedRef`. -/
def fromMovedHandle (typeId : TypeId) (handle : Handle) : Except ErrorCode Nat :=
  if handle.typeId ≠ typeId then .error .invalidType
  else .ok handle.raw

theorem run_new (value : α) (h : Heap α) :
    (new value).run h = .ok h.next { h.setObj h.next (some ⟨1, value⟩) with next := h.next + 1 } :=
  rfl

theorem run_clone {h : Heap α} {r : Nat} {o : RefCounted α} (hobj : h.objs r = some o)
    (hpos : 0 < o.counter) :
    (clone r).run h = .ok () (h.setObj r (some { o with counter := o.counter + 1 })) := by
  simp only [clone, run_bind, run_get, hobj, Nat.pos_iff_ne_zero.mp hpos, if_false]
  rfl

theorem run_drop_of_one {h : Heap α} {r : Nat} {o : RefCounted α} (hobj : h.objs r = some o)
    (hone : o.counter = 1) : (drop r).run h = .ok (some o.value) (h.setObj r none) := by
  simp only [drop, run_bind, run_get, hobj, hone]
  rfl

theorem run_drop_of_lt {h : Heap α} {r : Nat} {o : RefCounted α} (hobj : h.objs r = some o)
    (hlt : 1 < o.counter) :
    (drop r).run h = .ok none (h.setObj r (some { o with counter := o.counter - 1 })) := by
  have h0 : o.counter ≠ 0 := by omega
  have h1 : o.counter ≠ 1 := by omega
  simp only [drop, run_bind, run_get, hobj, h0, h1, if_false]
  rfl

end SharedRef

end Ftl

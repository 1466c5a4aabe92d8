import Mathlib
import Ftl.Kernel.Thread

/-!
# Reference counts of the kernel objects

Who owns a reference to an object: a runqueue entry, the current thread's pointer, a handle a
server holds, the kernel code waiting for an upcall (`Frame.ref?`), and the `vmspace` field of a
live thread. `refs` lists them. While kernel code runs, its local `SharedRef`s own references too;
the lemmas here carry them as a list `locals`.

`Sound s locals leak` is the accounting the kernel's safety rests on: the counter of every object
is the number of its owners, plus `leak r` references that nothing owns any more. Every owner
names a live object of the right type. So `clone` and `drop` of a reference the code holds never
find a freed object or a zero counter, and an object is freed only when its last owner drops it.
A reference lost without a `drop` shows up in `leak`, never as a dangling owner.

Each primitive of the kernel code has a lemma here that computes its result and a lemma that
keeps `Sound`, with the references it moves between owners and locals.

## Main definitions

* `Ftl.Kernel.refs`, `Ftl.Kernel.fieldRefs`, `Ftl.Heap.kind`.
* `Ftl.Heap.incr`, `Ftl.Heap.release`, `Ftl.Heap.dropped`: the heap after `clone` and `drop`.
* `Ftl.Kernel.Sound`.
-/

namespace Ftl

/-! ### Counting over the addresses in use -/

section Counting

/-- Two predicates that differ at `j` only count the same over `range n`, up to `j`. -/
theorem countP_range_update {n j : Nat} (hj : j < n) {p q : Nat → Bool}
    (hpq : ∀ i, i ≠ j → p i = q i) :
    (List.range n).countP q + (if p j then 1 else 0) =
      (List.range n).countP p + (if q j then 1 else 0) := by
  induction n with
  | zero => omega
  | succ n ih =>
    rw [List.range_succ, List.countP_append, List.countP_append]
    by_cases hjn : j = n
    · subst hjn
      have hbelow : (List.range j).countP q = (List.range j).countP p :=
        List.countP_congr fun i hi => by
          rw [hpq i (by rw [List.mem_range] at hi; omega)]
      simp only [hbelow, List.countP_singleton]
      omega
    · have hn := hpq n (Ne.symm hjn)
      simp only [List.countP_singleton, hn]
      have := ih (by omega)
      omega

/-- Erasing a member takes one occurrence of it off the count. -/
theorem count_erase_add_of_mem {l : List Nat} {r : Nat} (hr : r ∈ l) (x : Nat) :
    (l.erase r).count x + (if x = r then 1 else 0) = l.count x := by
  by_cases hx : x = r
  · subst hx
    have := List.count_pos_iff.mpr hr
    rw [List.count_erase_self, if_pos rfl]
    omega
  · rw [List.count_erase_of_ne hx, if_neg hx, Nat.add_zero]

end Counting

namespace Heap

/-- The type of the object at `r`, while it is alive. -/
def kind (h : Heap Object) (r : Nat) : Option TypeId := (h.value? r).map Object.typeId

/-- The heap after `clone` of a reference to `r`. -/
def incr (h : Heap Object) (r : Nat) : Heap Object :=
  match h.objs r with
  | some o => h.setObj r (some { o with counter := o.counter + 1 })
  | none => h

/-- The heap after `SharedRef::drop` of a reference to `r`. -/
def release (h : Heap Object) (r : Nat) : Heap Object :=
  match h.objs r with
  | some o => if o.counter = 1 then h.setObj r none else h.setObj r (some { o with counter := o.counter - 1 })
  | none => h

/-- The heap after `dropRef r`: a thread freed drops its `vmspace`. -/
def dropped (h : Heap Object) (r : Nat) : Heap Object :=
  match h.objs r with
  | some ⟨1, .thread _ vmspace⟩ => (h.release r).release vmspace
  | _ => h.release r

@[simp] theorem next_incr (h : Heap Object) (r : Nat) : (h.incr r).next = h.next := by
  unfold incr; split <;> rfl

@[simp] theorem next_release (h : Heap Object) (r : Nat) : (h.release r).next = h.next := by
  unfold release; split
  · split <;> rfl
  · rfl

@[simp] theorem next_dropped (h : Heap Object) (r : Nat) : (h.dropped r).next = h.next := by
  unfold dropped; split <;> simp

theorem value?_incr (h : Heap Object) (r r' : Nat) : (h.incr r).value? r' = h.value? r' := by
  unfold incr
  split
  · rename_i o hobj
    simp only [value?_setObj]
    split
    · subst_vars; simp [value?, hobj]
    · rfl
  · rfl

theorem counter_incr (h : Heap Object) (r r' : Nat) :
    (h.incr r).counter r' = h.counter r' + (if r' = r ∧ (h.objs r).isSome then 1 else 0) := by
  unfold incr
  split
  · rename_i o hobj
    simp only [counter_setObj, hobj, Option.isSome_some, and_true]
    split
    · subst_vars; simp [counter, hobj]
    · simp
  · rename_i hobj
    simp [hobj]

theorem release_of_lt {h : Heap Object} {r : Nat} {o : RefCounted Object} (hobj : h.objs r = some o)
    (hlt : 1 < o.counter) : h.release r = h.setObj r (some { o with counter := o.counter - 1 }) := by
  simp only [release, hobj, show o.counter ≠ 1 by omega, if_false]

theorem release_of_one {h : Heap Object} {r : Nat} {o : RefCounted Object} (hobj : h.objs r = some o)
    (hone : o.counter = 1) : h.release r = h.setObj r none := by
  simp only [release, hobj, hone, if_true]

theorem dropped_of_lt {h : Heap Object} {r : Nat} {o : RefCounted Object} (hobj : h.objs r = some o)
    (hlt : 1 < o.counter) : h.dropped r = h.setObj r (some { o with counter := o.counter - 1 }) := by
  obtain ⟨c, v⟩ := o
  have hc : c ≠ 1 := by simp at hlt; omega
  rw [dropped, hobj, ← release_of_lt hobj hlt]
  split
  · rename_i heq; simp only [Option.some.injEq, RefCounted.mk.injEq] at heq; omega
  · rfl

theorem dropped_of_one {h : Heap Object} {r : Nat} {o : RefCounted Object} (hobj : h.objs r = some o)
    (hone : o.counter = 1) :
    h.dropped r = match o.value.field? with
      | some vs => (h.setObj r none).release vs
      | none => h.setObj r none := by
  obtain ⟨c, v⟩ := o
  simp only at hone
  subst hone
  cases v with
  | thread m vs => simp [dropped, hobj, release_of_one hobj rfl, Object.field?]
  | vmSpace => simp [dropped, hobj, release_of_one hobj rfl, Object.field?]
  | vmArea => simp [dropped, hobj, release_of_one hobj rfl, Object.field?]

/-- A `clone` then a `drop` of a live reference leave the heap as it was. -/
theorem dropped_incr {h : Heap Object} {r : Nat} {o : RefCounted Object} (hobj : h.objs r = some o)
    (hpos : 0 < o.counter) : (h.incr r).dropped r = h := by
  have hi : h.incr r = h.setObj r (some { o with counter := o.counter + 1 }) := by
    simp only [incr, hobj]
  have h₁ : (h.incr r).objs r = some { o with counter := o.counter + 1 } := by
    simp [hi, setObj]
  rw [dropped_of_lt h₁ (by simp only; omega), hi]
  simp only [setObj, Function.update_idem, Nat.add_sub_cancel]
  rw [← hobj, Function.update_eq_self]

theorem value?_setObj_counter {h : Heap Object} {r : Nat} {o : RefCounted Object}
    (hobj : h.objs r = some o) (c x : Nat) :
    (h.setObj r (some { o with counter := c })).value? x = h.value? x := by
  rw [value?_setObj]
  split
  · subst_vars; simp [value?, hobj]
  · rfl

/-- The reference the object at `r` owns, if the next `drop` frees it. -/
def freedField (h : Heap Object) (r : Nat) : List Nat :=
  match h.objs r with
  | some o => if o.counter = 1 then o.value.field?.toList else []
  | none => []

/-- The heap after `SharedRef::new(v)`. -/
def alloc (h : Heap Object) (v : Object) : Heap Object :=
  { h.setObj h.next (some ⟨1, v⟩) with next := h.next + 1 }

@[simp] theorem next_alloc (h : Heap Object) (v : Object) : (h.alloc v).next = h.next + 1 := rfl

theorem value?_alloc (h : Heap Object) (v : Object) (x : Nat) :
    (h.alloc v).value? x = if x = h.next then some v else h.value? x := by
  by_cases hx : x = h.next
  · subst hx; simp [alloc, value?, setObj]
  · simp [alloc, value?, setObj, hx]

theorem counter_alloc (h : Heap Object) (v : Object) (x : Nat) :
    (h.alloc v).counter x = if x = h.next then 1 else h.counter x := by
  by_cases hx : x = h.next
  · subst hx; simp [alloc, counter, setObj]
  · simp [alloc, counter, setObj, hx]

/-- `drop` frees an object or lowers its counter; the values that stay are the ones there were. -/
theorem value?_of_release {h : Heap Object} {r x : Nat} {v : Object}
    (hv : (h.release r).value? x = some v) : h.value? x = some v := by
  unfold release at hv
  split at hv
  · rename_i o hobj
    split at hv
    · rw [value?_setObj] at hv
      split at hv
      · simp at hv
      · exact hv
    · rwa [value?_setObj_counter hobj] at hv
  · exact hv

theorem value?_of_dropped {h : Heap Object} {r x : Nat} {v : Object}
    (hv : (h.dropped r).value? x = some v) : h.value? x = some v := by
  unfold dropped at hv
  split at hv
  · exact value?_of_release (value?_of_release hv)
  · exact value?_of_release hv

/-- A live object of type `thread` is a thread. -/
theorem exists_of_kind_thread {h : Heap Object} {t : Nat} (hk : h.kind t = some .thread) :
    ∃ m vs, h.value? t = some (.thread m vs) := by
  simp only [kind, Option.map_eq_some_iff] at hk
  obtain ⟨v, hv, hty⟩ := hk
  cases v with
  | thread m vs => exact ⟨m, vs, hv⟩
  | vmSpace => cases hty
  | vmArea => cases hty

/-- What a heap change keeps of an object that stays alive: its type and its field. -/
def shape (h : Heap Object) (r : Nat) : Option (TypeId × Option Nat) :=
  (h.value? r).map fun v => (v.typeId, v.field?)

end Heap

namespace Kernel

/-- The `vmspace` references the live threads own. -/
def fieldRefs (h : Heap Object) : List Nat :=
  (List.range h.next).filterMap fun j => (h.value? j).bind Object.field?

/-- The references the kernel's state owns, one entry each. -/
def refs (s : Kernel) : List Nat :=
  s.runqueue ++ s.current.toList ++ s.handles.map Handle.raw ++ s.frames.filterMap Frame.ref? ++
    fieldRefs s.heap

theorem count_refs (s : Kernel) (r : Nat) :
    (refs s).count r = s.runqueue.count r + s.current.toList.count r +
      (s.handles.map Handle.raw).count r + (s.frames.filterMap Frame.ref?).count r +
      (fieldRefs s.heap).count r := by
  simp only [refs, List.count_append]

theorem mem_refs_of_runqueue {s : Kernel} {t : Nat} (ht : t ∈ s.runqueue) : t ∈ refs s := by
  simp [refs, ht]

theorem mem_refs_of_current {s : Kernel} {t : Nat} (ht : t ∈ s.current) : t ∈ refs s := by
  simp [refs, Option.mem_toList.mpr ht]

theorem mem_refs_of_handle {s : Kernel} {hd : Handle} (hd' : hd ∈ s.handles) : hd.raw ∈ refs s := by
  simp only [refs, List.mem_append, List.mem_map]
  exact .inl (.inl (.inr ⟨hd, hd', rfl⟩))

theorem mem_refs_of_frame {s : Kernel} {f : Frame} {t : Nat} (hf : f ∈ s.frames) (ht : t ∈ f.ref?) :
    t ∈ refs s := by
  simp only [refs, List.mem_append, List.mem_filterMap]
  exact .inl (.inr ⟨f, hf, ht⟩)

theorem mem_refs_of_field {s : Kernel} {j r : Nat} {o : Object} (hjlt : j < s.heap.next)
    (hj : s.heap.value? j = some o) (hr : r ∈ o.field?) : r ∈ refs s := by
  simp only [refs, List.mem_append, List.mem_filterMap, fieldRefs, List.mem_range]
  exact .inr ⟨j, hjlt, by simpa [hj] using hr⟩

theorem fieldRefs_congr {h h' : Heap Object} (hnext : h'.next = h.next)
    (hv : ∀ j, (h'.value? j).bind Object.field? = (h.value? j).bind Object.field?) :
    fieldRefs h' = fieldRefs h := by
  unfold fieldRefs
  rw [hnext]
  congr 1
  funext j
  exact hv j

/-- Freeing the object at `j` takes its field off the owners. -/
theorem count_fieldRefs_setObj_none {h : Heap Object} {j : Nat} (hj : j < h.next) (r : Nat) :
    (fieldRefs (h.setObj j none)).count r +
      (if (h.value? j).bind Object.field? = some r then 1 else 0) = (fieldRefs h).count r := by
  simp only [fieldRefs, Heap.next_setObj, List.count_filterMap]
  have := countP_range_update hj
    (p := fun i => (h.value? i).bind Object.field? == some r)
    (q := fun i => ((h.setObj j none).value? i).bind Object.field? == some r)
    (fun i hi => by simp [Heap.value?_setObj, hi])
  simp only [Heap.value?_setObj, if_true, Option.map_none, Option.bind_none, beq_iff_eq,
    reduceCtorEq, if_false, add_zero] at this
  simpa using this

/-- A change of the heap changes the owners through the fields only. -/
theorem count_refs_heap (s : Kernel) (h' : Heap Object) (x : Nat) :
    (refs { s with heap := h' }).count x + (fieldRefs s.heap).count x =
      (refs s).count x + (fieldRefs h').count x := by
  simp only [count_refs]
  omega

/-! ### The invariant -/

/-- The accounting of references, with the references `locals` the running code holds and the
references `leak` that nothing owns. -/
structure Sound (s : Kernel) (locals : List Nat) (leak : Nat → Nat) : Prop where
  fresh : ∀ r, s.heap.next ≤ r → s.heap.objs r = none
  pos : ∀ r o, s.heap.objs r = some o → 0 < o.counter
  counted : ∀ r, (refs s).count r + locals.count r + leak r = s.heap.counter r
  runqueue_kind : ∀ t ∈ s.runqueue, s.heap.kind t = some .thread
  current_kind : ∀ t ∈ s.current, s.heap.kind t = some .thread
  frame_kind : ∀ f ∈ s.frames, ∀ t ∈ f.ref?, s.heap.kind t = some .thread
  handle_kind : ∀ h ∈ s.handles, s.heap.kind h.raw = some h.typeId
  field_kind : ∀ j o, s.heap.value? j = some o → ∀ r ∈ o.field?, s.heap.kind r = some .vmSpace

variable {s : Kernel} {locals : List Nat} {leak : Nat → Nat}

/-- An object with an owner or a local is alive. -/
theorem Sound.objs_of_pos (hs : Sound s locals leak) {r : Nat}
    (hr : 0 < (refs s).count r + locals.count r) : ∃ o, s.heap.objs r = some o ∧ 0 < o.counter := by
  have hc := hs.counted r
  cases hobj : s.heap.objs r with
  | none => simp [Heap.counter, hobj] at hc; omega
  | some o => exact ⟨o, rfl, hs.pos r o hobj⟩

/-- `Sound` after a change of the heap alone that frees objects or keeps their type and field,
once the counters are right. -/
theorem Sound.of_heap {h' : Heap Object} {locals' : List Nat} (hs : Sound s locals leak)
    (hnext : h'.next = s.heap.next) (hpos : ∀ r o, h'.objs r = some o → 0 < o.counter)
    (hshape : ∀ x, h'.value? x = none ∨ h'.shape x = s.heap.shape x)
    (hcount : ∀ r, (refs { s with heap := h' }).count r + locals'.count r + leak r = h'.counter r) :
    Sound { s with heap := h' } locals' leak := by
  have hlive : ∀ x, 0 < (refs { s with heap := h' }).count x → ∃ v, h'.value? x = some v := by
    intro x hx
    have hc := hcount x
    cases hobj : h'.objs x with
    | none => simp [Heap.counter, hobj] at hc; omega
    | some o => exact ⟨o.value, by simp [Heap.value?, hobj]⟩
  have hkind : ∀ x, 0 < (refs { s with heap := h' }).count x → h'.kind x = s.heap.kind x := by
    intro x hx
    obtain ⟨v, hv⟩ := hlive x hx
    rcases hshape x with hnone | hsh
    · rw [hv] at hnone; cases hnone
    · simp only [Heap.shape] at hsh
      simp only [Heap.kind]
      cases hold : s.heap.value? x <;> simp_all
  have hfresh : ∀ r, h'.next ≤ r → h'.objs r = none := by
    intro r hr
    have hold : s.heap.value? r = none := by simp [Heap.value?, hs.fresh r (by omega)]
    rcases hshape r with hnone | hsh
    · simpa [Heap.value?] using hnone
    · simp only [Heap.shape, hold, Option.map_none, Option.map_eq_none_iff] at hsh
      simpa [Heap.value?] using hsh
  have hpos_of_mem : ∀ x, x ∈ refs { s with heap := h' } → 0 < (refs { s with heap := h' }).count x :=
    fun x hx => List.count_pos_iff.mpr hx
  refine ⟨hfresh, hpos, hcount, fun t ht => ?_, fun t ht => ?_, fun f hf t ht => ?_, fun hd hd' => ?_,
    fun j o hj r hr => ?_⟩
  · rw [hkind t (hpos_of_mem t (mem_refs_of_runqueue (s := { s with heap := h' }) ht))]
    exact hs.runqueue_kind t ht
  · rw [hkind t (hpos_of_mem t (mem_refs_of_current (s := { s with heap := h' }) ht))]
    exact hs.current_kind t ht
  · rw [hkind t (hpos_of_mem t (mem_refs_of_frame (s := { s with heap := h' }) hf ht))]
    exact hs.frame_kind f hf t ht
  · rw [hkind hd.raw (hpos_of_mem hd.raw (mem_refs_of_handle (s := { s with heap := h' }) hd'))]
    exact hs.handle_kind hd hd'
  · have hjlt : j < h'.next := by
      by_contra hge
      have := hfresh j (by omega)
      simp [Heap.value?, this] at hj
    rw [hkind r (hpos_of_mem r (mem_refs_of_field (s := { s with heap := h' }) hjlt hj hr))]
    rcases hshape j with hnone | hsh
    · rw [hj] at hnone; cases hnone
    · simp only [Heap.shape, hj, Option.map_some] at hsh
      cases hold : s.heap.value? j with
      | none => simp [hold] at hsh
      | some v =>
        rw [hold, Option.map_some, Option.some.injEq, Prod.mk.injEq] at hsh
        exact hs.field_kind j v hold r (hsh.2 ▸ hr)

/-- `clone` of a reference the code reaches: one more local. -/
theorem Sound.incr (hs : Sound s locals leak) {r : Nat} (hr : 0 < (refs s).count r + locals.count r) :
    Sound { s with heap := s.heap.incr r } (r :: locals) leak := by
  obtain ⟨o, hobj, hpos⟩ := hs.objs_of_pos hr
  have hfields : fieldRefs (s.heap.incr r) = fieldRefs s.heap :=
    fieldRefs_congr (Heap.next_incr _ _) fun j => by rw [Heap.value?_incr]
  refine hs.of_heap (Heap.next_incr _ _) (fun x o' hx => ?_) (fun x => .inr ?_) (fun x => ?_)
  · simp only [Heap.incr, hobj, Heap.setObj, Function.update_apply] at hx
    split at hx
    · cases hx; simp
    · exact hs.pos x o' hx
  · simp only [Heap.shape, Heap.value?_incr]
  · have h1 := count_refs_heap s (s.heap.incr r) x
    have h2 := hs.counted x
    rw [hfields] at h1
    rw [Heap.counter_incr, List.count_cons]
    by_cases hx : x = r
    · subst hx; simp [hobj]; omega
    · have : (r == x) = false := by simp [Ne.symm hx]
      simp [hx, this]; omega

/-- Only the number of each local matters. -/
theorem Sound.congr_locals {locals' : List Nat} (hs : Sound s locals leak)
    (h : ∀ x, locals'.count x = locals.count x) : Sound s locals' leak :=
  { hs with counted := fun r => by rw [h r]; exact hs.counted r }

/-- A local reference that the code loses without a `drop`: nothing owns it any more. -/
theorem Sound.forget (hs : Sound s (r :: locals) leak) :
    Sound s locals (leak + fun x => if x = r then 1 else 0) :=
  { hs with
    counted := fun x => by
      have := hs.counted x
      rw [List.count_cons] at this
      by_cases hx : x = r
      · subst hx
        simp only [beq_self_eq_true, if_true] at this
        simp only [Pi.add_apply, if_true]
        omega
      · have hne : (r == x) = false := by simp [Ne.symm hx]
        simp only [hne, Bool.false_eq_true, if_false] at this
        simp only [Pi.add_apply, hx, if_false]
        omega }

/-- The objects alive have addresses the heap handed out. -/
theorem Sound.lt_next (hs : Sound s locals leak) {t : Nat} {v : Object}
    (hv : s.heap.value? t = some v) : t < s.heap.next := by
  by_contra hge
  simp [Heap.value?, hs.fresh t (by omega)] at hv

/-- An object of type `vmSpace` owns no reference. -/
theorem field?_of_kind_vmSpace {h : Heap Object} {r : Nat} {v : Object} (hv : h.value? r = some v)
    (hk : h.kind r = some .vmSpace) : v.field? = none := by
  simp only [Heap.kind, hv, Option.map_some, Option.some.injEq] at hk
  cases v <;> simp_all [Object.typeId, Object.field?]

/-- `SharedRef::drop` of a local reference; when it frees the object, the reference the object
owned becomes a local, for the drop glue. -/
theorem Sound.release (hs : Sound s locals leak) {r : Nat} (hr : r ∈ locals) :
    Sound { s with heap := s.heap.release r } (locals.erase r ++ s.heap.freedField r) leak := by
  have hcr : 0 < locals.count r := List.count_pos_iff.mpr hr
  obtain ⟨o, hobj, hpos⟩ := hs.objs_of_pos (r := r) (by omega)
  have hcnt : s.heap.counter r = o.counter := by simp [Heap.counter, hobj]
  have hc := hs.counted r
  have herase := count_erase_add_of_mem hr
  rcases Nat.lt_or_ge 1 o.counter with hlt | hle
  · have hfree : s.heap.freedField r = [] := by simp [Heap.freedField, hobj, show o.counter ≠ 1 by omega]
    rw [Heap.release_of_lt hobj hlt, hfree, List.append_nil]
    have hfields : fieldRefs (s.heap.setObj r (some { o with counter := o.counter - 1 })) =
        fieldRefs s.heap :=
      fieldRefs_congr rfl fun j => by rw [Heap.value?_setObj_counter hobj]
    refine hs.of_heap rfl (fun x o' hx => ?_) (fun x => .inr ?_) (fun x => ?_)
    · simp only [Heap.setObj, Function.update_apply] at hx
      split at hx
      · cases hx; simp; omega
      · exact hs.pos x o' hx
    · simp only [Heap.shape, Heap.value?_setObj_counter hobj]
    · have h1 := count_refs_heap s (s.heap.setObj r (some { o with counter := o.counter - 1 })) x
      have h2 := hs.counted x
      have h3 := herase x
      rw [hfields] at h1
      rw [Heap.counter_setObj]
      split
      · subst_vars
        rw [if_pos rfl] at h3
        simp only [Option.map_some, Option.getD_some]
        omega
      · simp_all
  · have hone : o.counter = 1 := by omega
    have hfree : s.heap.freedField r = o.value.field?.toList := by simp [Heap.freedField, hobj, hone]
    rw [Heap.release_of_one hobj hone, hfree]
    have hrlt : r < s.heap.next := by
      by_contra hge
      rw [hs.fresh r (by omega)] at hobj
      cases hobj
    have hval : s.heap.value? r = some o.value := by simp [Heap.value?, hobj]
    have hne : ∀ vs ∈ o.value.field?, vs ≠ r := by
      intro vs hvs hvr
      subst hvr
      have hk := hs.field_kind vs o.value hval vs hvs
      have := field?_of_kind_vmSpace hval hk
      rw [this] at hvs
      cases hvs
    refine hs.of_heap rfl (fun x o' hx => ?_) (fun x => ?_) (fun x => ?_)
    · simp only [Heap.setObj, Function.update_apply] at hx
      split at hx
      · cases hx
      · exact hs.pos x o' hx
    · by_cases hx : x = r
      · subst hx; left; simp
      · right; simp [Heap.shape, hx]
    · have h1 := count_refs_heap s (s.heap.setObj r none) x
      have h2 := hs.counted x
      have h3 := herase x
      have h4 := count_fieldRefs_setObj_none hrlt x
      rw [hval, Option.bind_some] at h4
      rw [Heap.counter_setObj, List.count_append]
      by_cases hx : x = r
      · subst hx
        rw [if_pos rfl] at h3
        have : ¬ o.value.field? = some x := fun h => hne x h rfl
        simp only [if_true, Option.map_none, Option.getD_none, this, if_false] at h1 h4 ⊢
        have : (o.value.field?.toList).count x = 0 := by
          cases hf : o.value.field? <;> simp_all
        omega
      · simp only [hx, if_false] at h3 ⊢
        have : (o.value.field?.toList).count x = if o.value.field? = some x then 1 else 0 := by
          cases hf : o.value.field? with
          | none => simp
          | some v => by_cases hv : v = x <;> simp [hv]
        omega

theorem freedField_of_kind_vmSpace {h : Heap Object} {r : Nat} (hk : h.kind r = some .vmSpace) :
    h.freedField r = [] := by
  cases hobj : h.objs r with
  | none => simp [Heap.freedField, hobj]
  | some o =>
    have := field?_of_kind_vmSpace (v := o.value) (by simp [Heap.value?, hobj]) hk
    simp [Heap.freedField, hobj, this]

/-- `drop` of a local reference, with the drop glue of a thread. -/
theorem Sound.dropped (hs : Sound s locals leak) {r : Nat} (hr : r ∈ locals) :
    Sound { s with heap := s.heap.dropped r } (locals.erase r) leak := by
  have hcr : 0 < locals.count r := List.count_pos_iff.mpr hr
  obtain ⟨o, hobj, hpos⟩ := hs.objs_of_pos (r := r) (by omega)
  have h1 := hs.release hr
  rcases Nat.lt_or_ge 1 o.counter with hlt | hle
  · have hfree : s.heap.freedField r = [] := by simp [Heap.freedField, hobj, show o.counter ≠ 1 by omega]
    rw [hfree, List.append_nil, Heap.release_of_lt hobj hlt] at h1
    rwa [Heap.dropped_of_lt hobj hlt]
  · have hone : o.counter = 1 := by omega
    have hfree : s.heap.freedField r = o.value.field?.toList := by simp [Heap.freedField, hobj, hone]
    rw [hfree, Heap.release_of_one hobj hone] at h1
    rw [Heap.dropped_of_one hobj hone]
    cases hf : o.value.field? with
    | none =>
      rw [hf] at h1
      simpa using h1
    | some vs =>
      rw [hf] at h1
      have hvs : vs ∈ locals.erase r ++ [vs] := by simp
      have h2 := h1.release hvs
      have hval : s.heap.value? r = some o.value := by simp [Heap.value?, hobj]
      have hk : s.heap.kind vs = some .vmSpace := hs.field_kind r o.value hval vs hf
      have hne : vs ≠ r := by
        intro hvr
        subst hvr
        have := field?_of_kind_vmSpace hval hk
        rw [hf] at this
        cases this
      have hk' : (s.heap.setObj r none).kind vs = some .vmSpace := by
        simpa [Heap.kind, hne] using hk
      rw [freedField_of_kind_vmSpace hk', List.append_nil] at h2
      refine h2.congr_locals fun x => ?_
      by_cases hx : x = vs
      · subst hx
        rw [List.count_erase_self, List.count_append]
        simp
      · rw [List.count_erase_of_ne hx, List.count_append]
        simp [Ne.symm hx]

/-- A `drop` that leaves an object a local reference keeps its value. -/
theorem Sound.value?_dropped (hs : Sound s locals leak) {r x : Nat} (hr : r ∈ locals)
    (hx : x ∈ locals.erase r) : (s.heap.dropped r).value? x = s.heap.value? x := by
  have hx' : 0 < (locals.erase r).count x := List.count_pos_iff.mpr hx
  obtain ⟨o, hobj, -⟩ := (hs.dropped hr).objs_of_pos (r := x) (by omega)
  change (s.heap.dropped r).objs x = some o at hobj
  have hv : (s.heap.dropped r).value? x = some o.value := by simp [Heap.value?, hobj]
  rw [hv, Heap.value?_of_dropped hv]

/-- `Sound` after a change of the owners alone, once their number is right and each has the
right type. -/
theorem Sound.of_refs {s' : Kernel} {locals' : List Nat} (hs : Sound s locals leak)
    (hheap : s'.heap = s.heap)
    (hcount : ∀ x, (refs s').count x + locals'.count x = (refs s).count x + locals.count x)
    (hrq : ∀ t ∈ s'.runqueue, s.heap.kind t = some .thread)
    (hcur : ∀ t ∈ s'.current, s.heap.kind t = some .thread)
    (hframe : ∀ f ∈ s'.frames, ∀ t ∈ f.ref?, s.heap.kind t = some .thread)
    (hhandle : ∀ h ∈ s'.handles, s.heap.kind h.raw = some h.typeId) :
    Sound s' locals' leak := by
  refine ⟨hheap ▸ hs.fresh, hheap ▸ hs.pos, fun x => ?_, hheap ▸ hrq, hheap ▸ hcur, hheap ▸ hframe,
    hheap ▸ hhandle, hheap ▸ hs.field_kind⟩
  rw [hheap, ← hs.counted x, ← hcount x]

theorem fieldRefs_alloc {h : Heap Object} (hfresh : h.objs h.next = none) (v : Object) :
    fieldRefs (h.alloc v) = fieldRefs h ++ v.field?.toList := by
  have hnone : h.value? h.next = none := by simp [Heap.value?, hfresh]
  simp only [fieldRefs, Heap.next_alloc, List.range_succ, List.filterMap_append]
  congr 1
  · refine List.filterMap_congr fun i hi => ?_
    rw [List.mem_range] at hi
    rw [Heap.value?_alloc, if_neg (by omega)]
  · simp only [List.filterMap_cons, List.filterMap_nil, Heap.value?_alloc, if_true, Option.bind_some]
    cases v.field? <;> rfl

/-- `SharedRef::new(v)`: the object is a new local; the reference its field holds was a local and
is now owned by the object. -/
theorem Sound.alloc {locals' : List Nat} (hs : Sound s locals leak) (v : Object)
    (hv : ∀ r ∈ v.field?, s.heap.kind r = some .vmSpace)
    (hlocals : ∀ x, locals'.count x + v.field?.toList.count x = locals.count x) :
    Sound { s with heap := s.heap.alloc v } (s.heap.next :: locals') leak := by
  have hfresh := hs.fresh s.heap.next le_rfl
  have hnext0 : s.heap.counter s.heap.next = 0 := by simp [Heap.counter, hfresh]
  have hkind : ∀ x, x ≠ s.heap.next → (s.heap.alloc v).kind x = s.heap.kind x := by
    intro x hx
    simp [Heap.kind, Heap.value?_alloc, hx]
  have hold : ∀ x, s.heap.kind x ≠ none → x ≠ s.heap.next := by
    intro x hx hxn
    subst hxn
    simp [Heap.kind, Heap.value?, hfresh] at hx
  refine ⟨fun r hr => ?_, fun r o hr => ?_, fun x => ?_, fun t ht => ?_, fun t ht => ?_,
    fun f hf t ht => ?_, fun hd hd' => ?_, fun j o hj r hr => ?_⟩
  · simp only [Heap.alloc] at hr
    simp only [Heap.alloc, Heap.setObj, Function.update_apply, if_neg (show r ≠ s.heap.next by omega)]
    exact hs.fresh r (by omega)
  · simp only [Heap.alloc, Heap.setObj, Function.update_apply] at hr
    split at hr
    · cases hr; simp
    · exact hs.pos r o hr
  · have h1 := count_refs_heap s (s.heap.alloc v) x
    have h2 := hs.counted x
    have h3 := hlocals x
    rw [fieldRefs_alloc hfresh, List.count_append] at h1
    rw [Heap.counter_alloc, List.count_cons]
    by_cases hx : x = s.heap.next
    · subst hx
      simp only [if_true, beq_self_eq_true]
      omega
    · have : (s.heap.next == x) = false := by simp [Ne.symm hx]
      simp only [hx, if_false, this, Bool.false_eq_true]
      omega
  · have := hs.runqueue_kind t ht
    rwa [hkind t (hold t (by simp [this]))]
  · have := hs.current_kind t ht
    rwa [hkind t (hold t (by simp [this]))]
  · have := hs.frame_kind f hf t ht
    rwa [hkind t (hold t (by simp [this]))]
  · have := hs.handle_kind hd hd'
    rwa [hkind hd.raw (hold hd.raw (by simp [this]))]
  · rw [Heap.value?_alloc] at hj
    split at hj
    · cases hj
      have := hv r hr
      rwa [hkind r (hold r (by simp [this]))]
    · have := hs.field_kind j o hj r hr
      rwa [hkind r (hold r (by simp [this]))]

/-- Storing a thread's `Mutable` changes no reference. -/
theorem Sound.setMutable (hs : Sound s locals leak) (t : Nat) (m : Mutable) :
    Sound { s with heap := s.heap.modifyValue t (Object.withMutable m) } locals leak := by
  have hfields : fieldRefs (s.heap.modifyValue t (Object.withMutable m)) = fieldRefs s.heap :=
    fieldRefs_congr rfl fun j => by
      rw [Heap.value?_modifyValue]
      split
      · subst_vars
        cases s.heap.value? j with
        | none => rfl
        | some v => cases v <;> rfl
      · rfl
  refine hs.of_heap rfl (fun x o hx => ?_) (fun x => .inr ?_) (fun x => ?_)
  · simp only [Heap.modifyValue, Function.update_apply] at hx
    split at hx
    · subst_vars
      cases hobj : s.heap.objs x with
      | none => simp [hobj] at hx
      | some o' =>
        simp only [hobj, Option.map_some, Option.some.injEq] at hx
        subst hx
        exact hs.pos x o' hobj
    · exact hs.pos x o hx
  · simp only [Heap.shape, Heap.value?_modifyValue]
    split
    · subst_vars
      cases s.heap.value? x with
      | none => rfl
      | some v => cases v <;> rfl
    · rfl
  · have h1 := count_refs_heap s (s.heap.modifyValue t (Object.withMutable m)) x
    rw [hfields] at h1
    rw [Heap.counter_modifyValue, ← hs.counted x]
    omega

/-! ### References moving between owners and locals -/

/-- A local reference to a thread becomes a runqueue entry. -/
theorem Sound.toRunqueue (hs : Sound s locals leak) {t : Nat} (ht : t ∈ locals)
    (hk : s.heap.kind t = some .thread) {q : List Nat}
    (hq : ∀ x, q.count x = s.runqueue.count x + (if x = t then 1 else 0))
    (hmem : ∀ x ∈ q, x ∈ s.runqueue ∨ x = t) :
    Sound { s with runqueue := q } (locals.erase t) leak := by
  refine hs.of_refs rfl (fun x => ?_) (fun x hx => ?_) hs.current_kind hs.frame_kind hs.handle_kind
  · have h1 := hq x
    have h2 := count_erase_add_of_mem ht x
    simp only [count_refs] at *
    omega
  · rcases hmem x hx with h | rfl
    · exact hs.runqueue_kind x h
    · exact hk

/-- The front entry of the runqueue becomes a local. -/
theorem Sound.popRunqueue (hs : Sound s locals leak) {t : Nat} {q : List Nat}
    (hq : s.runqueue = t :: q) : Sound { s with runqueue := q } (t :: locals) leak := by
  refine hs.of_refs rfl (fun x => ?_) (fun x hx => hs.runqueue_kind x (by simp [hq, hx]))
    hs.current_kind hs.frame_kind hs.handle_kind
  simp only [count_refs, hq, List.count_cons]
  split <;> omega

/-- A local reference to a thread becomes the current thread's pointer, whose old reference
becomes a local. -/
theorem Sound.toCurrent (hs : Sound s locals leak) {t : Nat} (ht : t ∈ locals)
    (hk : s.heap.kind t = some .thread) :
    Sound { s with current := some t } (locals.erase t ++ s.current.toList) leak := by
  refine hs.of_refs rfl (fun x => ?_) hs.runqueue_kind (fun x hx => ?_) hs.frame_kind hs.handle_kind
  · have h2 := count_erase_add_of_mem ht x
    simp only [count_refs, List.count_append, Option.toList_some, List.count_singleton] at *
    by_cases hx : x = t
    · subst hx; simp at h2 ⊢; omega
    · simp [hx, Ne.symm hx] at h2 ⊢; omega
  · cases hx
    exact hk

/-- The current thread's pointer is cleared; its reference becomes a local. -/
theorem Sound.clearCurrent (hs : Sound s locals leak) :
    Sound { s with current := none } (locals ++ s.current.toList) leak := by
  refine hs.of_refs rfl (fun x => ?_) hs.runqueue_kind (fun x hx => by cases hx) hs.frame_kind
    hs.handle_kind
  simp only [count_refs, List.count_append, Option.toList_none, List.count_nil]
  omega

/-- A local reference to a thread passes to a waiting frame. -/
theorem Sound.pushFrame (hs : Sound s locals leak) {f : Frame}
    (hf : ∀ t ∈ f.ref?, t ∈ locals ∧ s.heap.kind t = some .thread) :
    Sound { s with frames := f :: s.frames } (locals.diff f.ref?.toList) leak := by
  refine hs.of_refs rfl (fun x => ?_) hs.runqueue_kind hs.current_kind (fun g hg t ht => ?_)
    hs.handle_kind
  · simp only [count_refs, List.filterMap_cons]
    cases hr : f.ref? with
    | none => simp
    | some t =>
      have ht := (hf t hr).1
      simp only [Option.toList_some, List.diff_cons, List.diff_nil, List.count_cons]
      by_cases hx : x = t
      · subst hx; rw [List.count_erase_self]; simp; have := List.count_pos_iff.mpr ht; omega
      · rw [List.count_erase_of_ne hx]; simp [Ne.symm hx]
  · rcases List.mem_cons.mp hg with rfl | hg
    · exact (hf t ht).2
    · exact hs.frame_kind g hg t ht

/-- The innermost frame returns; the reference it held becomes a local. -/
theorem Sound.popFrame (hs : Sound s locals leak) {f : Frame} {fs : List Frame}
    (hfs : s.frames = f :: fs) : Sound { s with frames := fs } (locals ++ f.ref?.toList) leak := by
  refine hs.of_refs rfl (fun x => ?_) hs.runqueue_kind hs.current_kind
    (fun g hg t ht => hs.frame_kind g (by simp [hfs, hg]) t ht) hs.handle_kind
  simp only [count_refs, hfs, List.filterMap_cons, List.count_append]
  cases hr : f.ref? with
  | none => simp only [Option.toList_none, List.count_nil]; omega
  | some t => simp only [Option.toList_some, List.count_cons, List.count_nil]; omega

/-- A local reference becomes a handle given to the server. -/
theorem Sound.giveHandle (hs : Sound s locals leak) {hd : Handle} (hr : hd.raw ∈ locals)
    (hk : s.heap.kind hd.raw = some hd.typeId) :
    Sound { s with handles := s.handles ++ [hd] } (locals.erase hd.raw) leak := by
  refine hs.of_refs rfl (fun x => ?_) hs.runqueue_kind hs.current_kind hs.frame_kind
    (fun g hg => ?_)
  · simp only [count_refs, List.map_append, List.map_cons, List.map_nil, List.count_append,
      List.count_singleton]
    by_cases hx : x = hd.raw
    · subst hx; rw [List.count_erase_self]; simp; have := List.count_pos_iff.mpr hr; omega
    · rw [List.count_erase_of_ne hx]; simp [Ne.symm hx]
  · rcases List.mem_append.mp hg with hg | hg
    · exact hs.handle_kind g hg
    · rw [List.mem_singleton.mp hg]; exact hk

/-- The server moves a handle into the kernel; its reference becomes a local. -/
theorem Sound.takeHandle (hs : Sound s locals leak) {hd : Handle} (hd' : hd ∈ s.handles) :
    Sound { s with handles := s.handles.erase hd } (hd.raw :: locals) leak := by
  refine hs.of_refs rfl (fun x => ?_) hs.runqueue_kind hs.current_kind hs.frame_kind
    (fun g hg => hs.handle_kind g (List.mem_of_mem_erase hg))
  have hmap : ((s.handles.erase hd).map Handle.raw).count x + (if x = hd.raw then 1 else 0) =
      (s.handles.map Handle.raw).count x := by
    rw [((List.perm_cons_erase hd').map Handle.raw).count_eq x, List.map_cons, List.count_cons]
    by_cases hx : x = hd.raw
    · subst hx; simp
    · simp [hx, Ne.symm hx]
  simp only [count_refs, List.count_cons] at *
  by_cases hx : x = hd.raw
  · subst hx; simp at hmap ⊢; omega
  · have : (hd.raw == x) = false := by simp [Ne.symm hx]
    simp [hx, this] at hmap ⊢; omega

/-! ### The primitives of the kernel code -/

open EStateM

theorem run_cloneRef (hs : Sound s locals leak) {r : Nat}
    (hr : 0 < (refs s).count r + locals.count r) :
    (cloneRef r).run s = .ok () { s with heap := s.heap.incr r } := by
  obtain ⟨o, hobj, hpos⟩ := hs.objs_of_pos hr
  simp only [cloneRef, run_focus, heapLens, SharedRef.run_clone hobj hpos, Heap.incr, hobj]

/-- Dropping a reference the kernel holds as a local is the heap's `dropped`: the last reference
frees the object, and the drop glue of a thread finds its `VmSpace` alive, since the thread's
field owned a reference to it. -/
theorem run_dropRef (hs : Sound s locals leak) {r : Nat} (hr : r ∈ locals) :
    (dropRef r).run s = .ok () { s with heap := s.heap.dropped r } := by
  have hcr : 0 < locals.count r := List.count_pos_iff.mpr hr
  obtain ⟨o, hobj, hpos⟩ := hs.objs_of_pos (r := r) (by omega)
  rcases Nat.lt_or_ge 1 o.counter with hlt | hle
  · simp only [dropRef, run_focus_bind, heapLens, SharedRef.run_drop_of_lt hobj hlt,
      Heap.dropped_of_lt hobj hlt]
    rfl
  · have hone : o.counter = 1 := by omega
    have hval : s.heap.value? r = some o.value := by simp [Heap.value?, hobj]
    simp only [dropRef, run_focus_bind, heapLens, SharedRef.run_drop_of_one hobj hone,
      Heap.dropped_of_one hobj hone]
    cases hv : o.value with
    | thread m vs =>
      simp only [Object.field?]
      have hvs : 0 < (refs s).count vs + locals.count vs := by
        have hrlt : r < s.heap.next := by
          by_contra hge
          rw [hs.fresh r (by omega)] at hobj
          cases hobj
        have := mem_refs_of_field hrlt (hv ▸ hval) (show vs ∈ (Object.thread m vs).field? from rfl)
        have := List.count_pos_iff.mpr this
        omega
      obtain ⟨o', hobj', hpos'⟩ := hs.objs_of_pos hvs
      have hne : vs ≠ r := by
        intro hvr
        subst hvr
        have hk := hs.field_kind vs o.value hval vs (by rw [hv]; rfl)
        simp [Heap.kind, hval, hv, Object.typeId] at hk
      have hobj'' : (s.heap.setObj r none).objs vs = some o' := by
        simp [Heap.setObj, hne, hobj']
      rcases Nat.lt_or_ge 1 o'.counter with hlt' | hle'
      · simp only [run_focus_bind, SharedRef.run_drop_of_lt hobj'' hlt', Heap.release_of_lt hobj'' hlt']
        rfl
      · simp only [run_focus_bind, SharedRef.run_drop_of_one hobj'' (by omega),
          Heap.release_of_one hobj'' (by omega)]
        rfl
    | vmSpace => rfl
    | vmArea => rfl

theorem run_lock {t : Nat} {m : Mutable} {vs : Nat} (hv : s.heap.value? t = some (.thread m vs)) :
    (lock t).run s = .ok m s := by
  simp only [lock, run_bind, run_get, hv]
  rfl

end Kernel

end Ftl

import Mathlib
import Ftl.Lib.Word

/-!
# `ArrayVec`: a vector over a fixed array of possibly uninitialised slots

`ArrayVec<T, N>` (`libs/rust/ftl_arrayvec/src/array_vec.rs`) holds `N` slots of
`MaybeUninit<T>` and a length `len`. Its contents are the slots below `len`; nothing else records
them. The model keeps both fields: a slot is an `Option T`, `none` for a slot never written. The
structure carries the two facts the source's `SAFETY` comments rely on, `len ≤ N` and that the
slots below `len` are initialised, so every operation proves that it keeps them.

An operation returns what the Rust method returns together with the new vector; `clear` also
returns the values whose destructors it runs, in the order it runs them. `try_extend_from_slice`
adds `len` and `values.len()` in `usize`: in the default (debug) profile an overflow there
panics, which the model returns as `none`.

The list model `BoundedList` is what the vector is for: a list with room for `N` elements,
whose operations fail and leave the list as it was when they would make it longer than `N`.

## Main definitions

* `Ftl.ArrayVec`, `Ftl.ArrayVec.asSlice`, `Ftl.ArrayVec.get`.
* `Ftl.ArrayVec.tryPush`, `Ftl.ArrayVec.pop`, `Ftl.ArrayVec.clear`, `Ftl.ArrayVec.clone`,
  `Ftl.ArrayVec.tryExtendFromSlice`, `Ftl.ArrayVec.extendFromSliceUnchecked`.
* `Ftl.BoundedList.step`, `Ftl.ArrayVec.step`, and their runs `exec`.

## Main results

* `Ftl.ArrayVec.step_refines`: one operation of the vector is the same operation of the list
  model on `asSlice`, when `len + values.len()` fits in a `usize`; `exec_refines` for runs.
* `Ftl.BoundedList.exec_perm`: every value that a run of the list model moves in is handed
  back, dropped, or still held at the end, exactly once.
* `Ftl.ArrayVec.exec_spec`: every run of the vector that fits never panics, refines the list
  model, and so loses and duplicates no value.
* `Ftl.ArrayVec.tryExtendFromSlice_unit_overflow`: with elements of size zero the sum overflows
  and `try_extend_from_slice` panics where the list model refuses.
-/

universe u

namespace Ftl

/-- `ftl_arrayvec::CapacityError`. -/
structure CapacityError where
  deriving DecidableEq, Repr

/-- `ArrayVec<T, N>`: `N` slots and a length. A slot is `none` until it is first written
(`MaybeUninit::uninit()`). -/
structure ArrayVec (T : Type u) (N : Nat) where
  elems : Fin N → Option T
  len : Nat
  len_le : len ≤ N
  /-- The slots below `len` are initialised. -/
  init : ∀ i : Fin N, i.val < len → (elems i).isSome

namespace ArrayVec

variable {T : Type u} {N : Nat}

/-! ### Reading the slots -/

/-- The slot at index `i` read as raw memory: `none` when it is uninitialised or out of range. -/
def slot (v : ArrayVec T N) (i : Nat) : Option T :=
  if h : i < N then v.elems ⟨i, h⟩ else none

/-- `as_slice`: the slots `0 .. len`, which `from_raw_parts` reads as initialised values. -/
def asSlice (v : ArrayVec T N) : List T :=
  (List.range v.len).filterMap v.slot

/-- `get(index)`. -/
def get (v : ArrayVec T N) (index : Nat) : Option T :=
  if index ≥ v.len then none else v.slot index

/-- `is_empty()`. -/
def isEmpty (v : ArrayVec T N) : Bool := v.len == 0

theorem slot_isSome (v : ArrayVec T N) {i : Nat} (hi : i < v.len) : (v.slot i).isSome := by
  have hN : i < N := Nat.lt_of_lt_of_le hi v.len_le
  rw [slot, dif_pos hN]
  exact v.init ⟨i, hN⟩ hi

theorem slot_update_of_ne {elems : Fin N → Option T} {j : Fin N} {x : Option T} {i : Nat}
    (hij : i ≠ j.val) :
    (if h : i < N then Function.update elems j x ⟨i, h⟩ else none) =
      if h : i < N then elems ⟨i, h⟩ else none := by
  split_ifs with h
  · exact Function.update_of_ne (fun he => hij (congrArg Fin.val he)) _ _
  · rfl

/-- A slot below the length read through `filterMap`: one element. -/
private theorem filterMap_singleton_of_isSome {f : Nat → Option T} {n : Nat}
    (hn : (f n).isSome) : [n].filterMap f = [(f n).get hn] := by
  obtain ⟨x, hx⟩ := Option.isSome_iff_exists.mp hn
  simp [hx]

/-- The `filterMap` over `range n` drops nothing when every value below `n` is `some`. -/
private theorem length_filterMap_range {f : Nat → Option T} :
    ∀ {n : Nat}, (∀ i < n, (f i).isSome) → ((List.range n).filterMap f).length = n
  | 0, _ => rfl
  | n + 1, hf => by
    rw [List.range_succ, List.filterMap_append, List.length_append,
      length_filterMap_range (fun i hi => hf i (by omega)),
      filterMap_singleton_of_isSome (hf n (by omega)), List.length_singleton]

private theorem getElem?_filterMap_range {f : Nat → Option T} :
    ∀ {n : Nat}, (∀ i < n, (f i).isSome) → ∀ i : Nat,
      ((List.range n).filterMap f)[i]? = if i < n then f i else none
  | 0, _, i => by simp
  | n + 1, hf, i => by
    have hf' : ∀ j < n, (f j).isSome := fun j hj => hf j (by omega)
    have hn : (f n).isSome := hf n (by omega)
    rw [List.range_succ, List.filterMap_append, List.getElem?_append,
      length_filterMap_range hf', getElem?_filterMap_range hf' i,
      filterMap_singleton_of_isSome hn]
    rcases Nat.lt_trichotomy i n with hi | rfl | hi
    · simp [hi, Nat.lt_succ_of_lt hi]
    · simp
    · have hi' : ¬i < n + 1 := by omega
      have hsub : i - n ≠ 0 := by omega
      simp [Nat.not_lt.mpr hi.le, hi', hsub]

theorem asSlice_length (v : ArrayVec T N) : v.asSlice.length = v.len :=
  length_filterMap_range fun _ hi => v.slot_isSome hi

theorem getElem?_asSlice (v : ArrayVec T N) (i : Nat) : v.asSlice[i]? = v.get i := by
  rw [asSlice, getElem?_filterMap_range (fun j hj => v.slot_isSome hj), get]
  by_cases hi : i < v.len <;> simp [hi]

/-! ### Operations -/

/-- `ArrayVec::new()`: every slot uninitialised. -/
def new : ArrayVec T N where
  elems := fun _ => none
  len := 0
  len_le := Nat.zero_le N
  init := fun _ h => absurd h (Nat.not_lt_zero _)

/-- Writing slot `len` keeps the slots below `len + 1` initialised. -/
private theorem init_update_len (v : ArrayVec T N) (hlt : v.len < N) (value : T) (i : Fin N)
    (hi : i.val < v.len + 1) : (Function.update v.elems ⟨v.len, hlt⟩ (some value) i).isSome := by
  by_cases he : i = ⟨v.len, hlt⟩
  · rw [he, Function.update_self]
    rfl
  · rw [Function.update_of_ne he]
    exact v.init i (Nat.lt_of_le_of_ne (Nat.le_of_lt_succ hi) fun h => he (Fin.ext h))

/-- `try_push(value)`: `Err(value)` when the vector is full, else `value` goes to slot `len`. -/
def tryPush (v : ArrayVec T N) (value : T) : Except T Unit × ArrayVec T N :=
  if h : v.len = N then (.error value, v)
  else
    have hlt : v.len < N := Nat.lt_of_le_of_ne v.len_le h
    (.ok (),
      { elems := Function.update v.elems ⟨v.len, hlt⟩ (some value)
        len := v.len + 1
        len_le := hlt
        init := init_update_len v hlt value })

/-- `pop()`: the value of slot `len - 1` is moved out; the slot keeps its bits but is no longer
counted. -/
def pop (v : ArrayVec T N) : Option T × ArrayVec T N :=
  if v.len = 0 then (none, v)
  else
    (v.slot (v.len - 1),
      { v with
        len := v.len - 1
        len_le := Nat.le_trans (Nat.sub_le _ _) v.len_le
        init := fun i hi => v.init i (by omega) })

/-- `clear()`: runs the destructor of every counted slot, in order, and sets `len` to `0`. The
first component lists the values dropped. `Drop for ArrayVec` is `clear`. -/
def clear (v : ArrayVec T N) : List T × ArrayVec T N :=
  (v.asSlice,
    { v with
      len := 0
      len_le := Nat.zero_le N
      init := fun _ h => absurd h (Nat.not_lt_zero _) })

/-- `clone()` for `T: Copy`: the slots and the length, copied. -/
def clone (v : ArrayVec T N) : ArrayVec T N :=
  { elems := v.elems, len := v.len, len_le := v.len_le, init := v.init }

/-- Writing through `as_slice_mut()` or `iter_mut()`: the counted slots receive the values of
`l`, a slice of the same length. -/
def setSlice (v : ArrayVec T N) (l : List T) (hl : l.length = v.len) : ArrayVec T N where
  elems i := if i.val < v.len then l[i.val]? else v.elems i
  len := v.len
  len_le := v.len_le
  init i hi := by
    rw [if_pos hi, List.getElem?_eq_getElem (hl ▸ hi)]
    rfl

/-- The loop of `extend_from_slice_unchecked`: slot `pos + i` receives `values[i]`. The source
indexes `self.elems[self.len + i]`, in range by the caller's check. -/
def writeSlots : (elems : Fin N → Option T) → (pos : Nat) → (values : List T) →
    pos + values.length ≤ N → Fin N → Option T
  | elems, _, [], _ => elems
  | elems, pos, x :: xs, h =>
    writeSlots (Function.update elems ⟨pos, by simp at h; omega⟩ (some x)) (pos + 1) xs
      (by simp at h; omega)

theorem writeSlots_apply : ∀ (elems : Fin N → Option T) (pos : Nat) (values : List T)
    (h : pos + values.length ≤ N) (i : Fin N),
    writeSlots elems pos values h i =
      if pos ≤ i.val ∧ i.val < pos + values.length then values[i.val - pos]? else elems i
  | elems, pos, [], h, i => by
    simp only [writeSlots, List.length_nil, Nat.add_zero]
    rw [if_neg (by omega)]
  | elems, pos, x :: xs, h, i => by
    rw [writeSlots, writeSlots_apply]
    by_cases hi : i.val = pos
    · have hne : ¬(pos + 1 ≤ i.val ∧ i.val < pos + 1 + xs.length) := by omega
      have hin : pos ≤ i.val ∧ i.val < pos + (x :: xs).length := by simp; omega
      rw [if_neg hne, if_pos hin, Function.update_apply, if_pos (Fin.ext hi), hi, Nat.sub_self]
      rfl
    · rw [Function.update_of_ne (fun he => hi (congrArg Fin.val he))]
      by_cases hin : pos + 1 ≤ i.val ∧ i.val < pos + 1 + xs.length
      · have hin' : pos ≤ i.val ∧ i.val < pos + (x :: xs).length := by simp; omega
        have hsub : i.val - pos = (i.val - (pos + 1)) + 1 := by omega
        rw [if_pos hin, if_pos hin', hsub, List.getElem?_cons_succ]
      · have hout : ¬(pos ≤ i.val ∧ i.val < pos + (x :: xs).length) := by simp; omega
        rw [if_neg hin, if_neg hout]

/-- `extend_from_slice_unchecked(values)`, for a caller that has checked
`len + values.len() ≤ N`. -/
def extendFromSliceUnchecked (v : ArrayVec T N) (values : List T)
    (h : v.len + values.length ≤ N) : ArrayVec T N where
  elems := writeSlots v.elems v.len values h
  len := v.len + values.length
  len_le := h
  init := fun i hi => by
    rw [writeSlots_apply]
    split_ifs with hin
    · rw [List.getElem?_eq_getElem (by omega)]
      rfl
    · exact v.init i (by omega)

/-- `try_extend_from_slice(values)`. The sum `len + values.len()` is a `usize` addition, which
panics on overflow in the debug profile (`none`). -/
def tryExtendFromSlice (v : ArrayVec T N) (values : List T) :
    Option (Except CapacityError Unit × ArrayVec T N) :=
  if Word.MAX 64 < v.len + values.length then none
  else if h : v.len + values.length > N then some (.error ⟨⟩, v)
  else some (.ok (), v.extendFromSliceUnchecked values (Nat.le_of_not_gt h))

/-! ### What each operation does to the slice -/

/-- A slice is determined by the length and the counted slots. -/
theorem asSlice_eq_iff {v : ArrayVec T N} {l : List T} :
    v.asSlice = l ↔ v.len = l.length ∧ ∀ i < v.len, v.slot i = l[i]? := by
  constructor
  · rintro rfl
    refine ⟨(asSlice_length v).symm, fun i hi => ?_⟩
    rw [getElem?_asSlice, get, if_neg (Nat.not_le.mpr hi)]
  · rintro ⟨hlen, hslot⟩
    apply List.ext_getElem?
    intro i
    rw [getElem?_asSlice, get]
    split_ifs with hi
    · exact (List.getElem?_eq_none (hlen ▸ hi)).symm
    · exact hslot i (Nat.lt_of_not_le hi)

@[simp] theorem asSlice_new : (new : ArrayVec T N).asSlice = [] :=
  asSlice_eq_iff.mpr ⟨rfl, fun _ h => absurd h (Nat.not_lt_zero _)⟩

theorem tryPush_of_eq {v : ArrayVec T N} (h : v.len = N) (value : T) :
    v.tryPush value = (.error value, v) := by
  rw [tryPush, dif_pos h]

theorem tryPush_fst_of_lt {v : ArrayVec T N} (h : v.len < N) (value : T) :
    (v.tryPush value).1 = .ok () := by
  rw [tryPush, dif_neg (Nat.ne_of_lt h)]

theorem asSlice_tryPush_of_lt {v : ArrayVec T N} (h : v.len < N) (value : T) :
    (v.tryPush value).2.asSlice = v.asSlice ++ [value] := by
  rw [asSlice_eq_iff]
  simp only [tryPush, dif_neg (Nat.ne_of_lt h), List.length_append, asSlice_length,
    List.length_singleton, true_and]
  intro i hi
  rw [List.getElem?_append, asSlice_length]
  by_cases hil : i < v.len
  · rw [if_pos hil, getElem?_asSlice, get, if_neg (Nat.not_le.mpr hil), slot, slot]
    exact slot_update_of_ne (Nat.ne_of_lt hil)
  · have hi' : i = v.len := by omega
    subst hi'
    simp [slot, h]

/-- A push keeps the old contents and adds at most the new value. -/
theorem asSlice_tryPush_sublist (v : ArrayVec T N) (value : T) :
    (v.tryPush value).2.asSlice.Sublist (v.asSlice ++ [value]) := by
  by_cases h : v.len = N
  · rw [tryPush_of_eq h]
    exact List.sublist_append_left _ _
  · rw [asSlice_tryPush_of_lt (Nat.lt_of_le_of_ne v.len_le h)]

/-- Values pushed one by one: those past the capacity are dropped. -/
theorem asSlice_foldl_tryPush (v : ArrayVec T N) (values : List T) :
    (values.foldl (fun v x => (v.tryPush x).2) v).asSlice = (v.asSlice ++ values).take N := by
  induction values generalizing v with
  | nil =>
    rw [List.foldl_nil, List.append_nil, List.take_of_length_le (by rw [asSlice_length]; exact v.len_le)]
  | cons x values ih =>
    rw [List.foldl_cons, ih]
    by_cases h : v.len = N
    · have hlen : N ≤ v.asSlice.length := by rw [asSlice_length, h]
      rw [tryPush_of_eq h, List.take_append_of_le_length hlen, List.take_append_of_le_length hlen]
    · rw [asSlice_tryPush_of_lt (Nat.lt_of_le_of_ne v.len_le h), List.append_assoc,
        List.singleton_append]

theorem pop_fst (v : ArrayVec T N) : v.pop.1 = v.asSlice.getLast? := by
  rw [List.getLast?_eq_getElem?, asSlice_length, getElem?_asSlice, pop, get]
  split_ifs with h₀ h₁ h₁ <;> first | rfl | omega

theorem asSlice_pop (v : ArrayVec T N) : v.pop.2.asSlice = v.asSlice.dropLast := by
  rw [asSlice_eq_iff, List.length_dropLast, asSlice_length]
  unfold pop
  split_ifs with h
  · dsimp only
    exact ⟨by omega, fun i hi => absurd hi (by omega)⟩
  · refine ⟨rfl, fun i hi => ?_⟩
    dsimp only at hi ⊢
    rw [List.getElem?_dropLast, if_pos (by rw [asSlice_length]; omega), getElem?_asSlice, get,
      if_neg (by omega)]
    rfl

theorem clear_fst (v : ArrayVec T N) : v.clear.1 = v.asSlice := rfl

@[simp] theorem asSlice_clear (v : ArrayVec T N) : v.clear.2.asSlice = [] :=
  asSlice_eq_iff.mpr ⟨rfl, fun _ h => absurd h (Nat.not_lt_zero _)⟩

@[simp] theorem asSlice_setSlice (v : ArrayVec T N) (l : List T) (hl : l.length = v.len) :
    (v.setSlice l hl).asSlice = l := by
  refine asSlice_eq_iff.mpr ⟨hl.symm, fun i hi => ?_⟩
  have hN : i < N := Nat.lt_of_lt_of_le hi v.len_le
  simp only [slot, dif_pos hN]
  exact if_pos hi

theorem asSlice_extendFromSliceUnchecked (v : ArrayVec T N) (values : List T)
    (h : v.len + values.length ≤ N) :
    (v.extendFromSliceUnchecked values h).asSlice = v.asSlice ++ values := by
  rw [asSlice_eq_iff, List.length_append, asSlice_length]
  refine ⟨rfl, fun i hi => ?_⟩
  have hiN : i < N := by simp only [extendFromSliceUnchecked] at hi; omega
  rw [List.getElem?_append, asSlice_length]
  simp only [slot, extendFromSliceUnchecked, dif_pos hiN, writeSlots_apply]
  by_cases hil : i < v.len
  · rw [if_neg (by omega), if_pos hil, getElem?_asSlice, get, if_neg (Nat.not_le.mpr hil), slot,
      dif_pos hiN]
  · simp only [extendFromSliceUnchecked] at hi
    rw [if_pos (by omega), if_neg hil]

theorem tryExtendFromSlice_of_overflow {v : ArrayVec T N} {values : List T}
    (h : Word.MAX 64 < v.len + values.length) : v.tryExtendFromSlice values = none := by
  rw [tryExtendFromSlice, if_pos h]

theorem tryExtendFromSlice_of_gt {v : ArrayVec T N} {values : List T}
    (hfit : v.len + values.length ≤ Word.MAX 64) (h : N < v.len + values.length) :
    v.tryExtendFromSlice values = some (.error ⟨⟩, v) := by
  rw [tryExtendFromSlice, if_neg (Nat.not_lt.mpr hfit), dif_pos h]

theorem tryExtendFromSlice_of_le {v : ArrayVec T N} {values : List T}
    (hfit : v.len + values.length ≤ Word.MAX 64) (h : v.len + values.length ≤ N) :
    v.tryExtendFromSlice values = some (.ok (), v.extendFromSliceUnchecked values h) := by
  rw [tryExtendFromSlice, if_neg (Nat.not_lt.mpr hfit), dif_neg (Nat.not_lt.mpr h)]

/-! ### Runs of operations -/

/-- The mutators of the vector. -/
inductive Op (T : Type u) where
  | tryPush (value : T)
  | pop
  | clear
  | tryExtendFromSlice (values : List T)

/-- What a mutator returns; `clear` returns the values it drops. -/
inductive Out (T : Type u) where
  | tryPush (result : Except T Unit)
  | pop (result : Option T)
  | clear (dropped : List T)
  | tryExtendFromSlice (result : Except CapacityError Unit)

/-- The values an operation with result `o` moves or copies in: the argument of `try_push`,
even when it is handed straight back, and the copies a successful `try_extend_from_slice`
makes. -/
def Op.inflow : Op T → Out T → List T
  | .tryPush value, _ => [value]
  | .tryExtendFromSlice values, .tryExtendFromSlice (.ok ()) => values
  | _, _ => []

/-- The values a result hands back (`pop`, `try_push`'s `Err`) or drops (`clear`). -/
def Out.outflow : Out T → List T
  | .tryPush (.error value) => [value]
  | .pop (some value) => [value]
  | .clear dropped => dropped
  | _ => []

/-- An operation whose `usize` sum `len + values.len()` cannot overflow, whatever `len ≤ N`
is: every operation but a `try_extend_from_slice` with `N + values.len() > usize::MAX`, which
needs elements of size zero. -/
def Op.Fits (N : Nat) : Op T → Prop
  | .tryExtendFromSlice values => N + values.length ≤ Word.MAX 64
  | _ => True

/-- One operation on the vector; `none` when it panics. -/
def step (v : ArrayVec T N) : Op T → Option (Out T × ArrayVec T N)
  | .tryPush value => some (.tryPush (v.tryPush value).1, (v.tryPush value).2)
  | .pop => some (.pop v.pop.1, v.pop.2)
  | .clear => some (.clear v.clear.1, v.clear.2)
  | .tryExtendFromSlice values =>
    (v.tryExtendFromSlice values).map fun r => (.tryExtendFromSlice r.1, r.2)

/-- A run of operations, stopped by the first panic. -/
def exec (v : ArrayVec T N) : List (Op T) → Option (List (Out T) × ArrayVec T N)
  | [] => some ([], v)
  | op :: ops =>
    (v.step op).bind fun r => (r.2.exec ops).map fun rs => (r.1 :: rs.1, rs.2)

end ArrayVec

/-! ### The list model -/

namespace BoundedList

open ArrayVec (Op Out)

variable {T : Type u}

/-- One operation on a list with room for `N` elements: an operation that would make the list
longer than `N` fails and leaves it as it was. -/
def step (N : Nat) (l : List T) : Op T → Out T × List T
  | .tryPush value =>
    if l.length + 1 ≤ N then (.tryPush (.ok ()), l ++ [value]) else (.tryPush (.error value), l)
  | .pop => (.pop l.getLast?, l.dropLast)
  | .clear => (.clear l, [])
  | .tryExtendFromSlice values =>
    if l.length + values.length ≤ N then (.tryExtendFromSlice (.ok ()), l ++ values)
    else (.tryExtendFromSlice (.error ⟨⟩), l)

/-- A run of operations on the list model. -/
def exec (N : Nat) (l : List T) : List (Op T) → List (Out T) × List T
  | [] => ([], l)
  | op :: ops => ((step N l op).1 :: (exec N (step N l op).2 ops).1, (exec N (step N l op).2 ops).2)

/-- One operation moves no value in or out twice: what comes in is what goes out plus what
stays. -/
theorem step_perm (N : Nat) (l : List T) (op : Op T) :
    (l ++ op.inflow (step N l op).1).Perm ((step N l op).1.outflow ++ (step N l op).2) := by
  cases op with
  | tryPush value =>
    simp only [step]
    split_ifs
    · exact List.Perm.refl _
    · exact List.perm_append_comm
  | pop =>
    cases hl : l.getLast? with
    | none =>
      rw [List.getLast?_eq_none_iff] at hl
      subst hl
      exact List.Perm.refl _
    | some x =>
      simp only [step, hl, Op.inflow, Out.outflow, List.append_nil]
      conv_lhs => rw [← List.dropLast_append_getLast? x hl]
      exact List.perm_append_comm
  | clear => simp [step, Op.inflow, Out.outflow]
  | tryExtendFromSlice values =>
    simp only [step]
    split_ifs
    · simp [Op.inflow, Out.outflow]
    · simp [Op.inflow, Out.outflow]

/-- Over a run, every value moved or copied in is handed back, dropped, or still held at the
end, exactly once. -/
theorem exec_perm (N : Nat) (l : List T) (ops : List (Op T)) :
    (l ++ (List.zipWith Op.inflow ops (exec N l ops).1).flatten).Perm
      ((exec N l ops).1.flatMap Out.outflow ++ (exec N l ops).2) := by
  induction ops generalizing l with
  | nil => simp [exec]
  | cons op ops ih =>
    have hstep := step_perm N l op
    have hrest := ih (step N l op).2
    simp only [exec, List.zipWith_cons_cons, List.flatten_cons, List.flatMap_cons,
      List.append_assoc] at hrest ⊢
    set o := (step N l op).1
    set rest := exec N (step N l op).2 ops
    have h1 : (l ++ (op.inflow o ++ (List.zipWith Op.inflow ops rest.1).flatten)).Perm
        ((o.outflow ++ (step N l op).2) ++ (List.zipWith Op.inflow ops rest.1).flatten) := by
      rw [← List.append_assoc]
      exact hstep.append_right _
    have h2 : ((o.outflow ++ (step N l op).2) ++ (List.zipWith Op.inflow ops rest.1).flatten).Perm
        (o.outflow ++ (rest.1.flatMap Out.outflow ++ rest.2)) := by
      rw [List.append_assoc]
      exact hrest.append_left _
    exact h1.trans h2

end BoundedList

/-! ### The vector refines the list model -/

namespace ArrayVec

variable {T : Type u} {N : Nat}

/-- One operation of the vector is the same operation of the list model on its slice, and does
not panic, when it fits. -/
theorem step_refines (v : ArrayVec T N) (op : Op T) (hfit : op.Fits N) :
    ∃ o v', v.step op = some (o, v') ∧ BoundedList.step N v.asSlice op = (o, v'.asSlice) := by
  cases op with
  | tryPush value =>
    refine ⟨_, _, rfl, ?_⟩
    by_cases h : v.len = N
    · have hfull : ¬v.asSlice.length + 1 ≤ N := by rw [asSlice_length]; omega
      rw [BoundedList.step, if_neg hfull, tryPush_of_eq h]
    · have hlt : v.len < N := Nat.lt_of_le_of_ne v.len_le h
      have hroom : v.asSlice.length + 1 ≤ N := by rw [asSlice_length]; omega
      rw [BoundedList.step, if_pos hroom, tryPush_fst_of_lt hlt, asSlice_tryPush_of_lt hlt]
  | pop => exact ⟨_, _, rfl, by rw [BoundedList.step, pop_fst, asSlice_pop]⟩
  | clear => exact ⟨_, _, rfl, by rw [BoundedList.step, clear_fst, asSlice_clear]⟩
  | tryExtendFromSlice values =>
    have hsum : v.len + values.length ≤ Word.MAX 64 :=
      Nat.le_trans (Nat.add_le_add_right v.len_le _) hfit
    by_cases h : v.len + values.length ≤ N
    · refine ⟨_, _, by rw [step, tryExtendFromSlice_of_le hsum h]; rfl, ?_⟩
      rw [BoundedList.step, asSlice_length, if_pos h, asSlice_extendFromSliceUnchecked]
    · refine ⟨_, _, by rw [step, tryExtendFromSlice_of_gt hsum (Nat.lt_of_not_le h)]; rfl, ?_⟩
      rw [BoundedList.step, asSlice_length, if_neg h]

/-- Every run whose operations fit never panics and is the same run of the list model on the
slice: the outputs agree and the final slice is the final list. -/
theorem exec_refines (v : ArrayVec T N) (ops : List (Op T)) (hfit : ∀ op ∈ ops, op.Fits N) :
    ∃ outs v', v.exec ops = some (outs, v') ∧
      BoundedList.exec N v.asSlice ops = (outs, v'.asSlice) := by
  induction ops generalizing v with
  | nil => exact ⟨[], v, rfl, rfl⟩
  | cons op ops ih =>
    obtain ⟨o, v₁, hstep, hspec⟩ := v.step_refines op (hfit op List.mem_cons_self)
    obtain ⟨outs, v', hexec, hrest⟩ :=
      ih v₁ fun op' hop' => hfit op' (List.mem_cons_of_mem op hop')
    refine ⟨o :: outs, v', by rw [exec, hstep, Option.bind_some, hexec]; rfl, ?_⟩
    rw [BoundedList.exec, hspec]
    simp only [hrest]

/-- Every run whose operations fit never panics and is the same run of the list model on the
slice. Every value moved or copied into the vector is then handed back by `pop` or by
`try_push`'s `Err`, dropped by a `clear`, or dropped when the vector itself is dropped (`Drop`
runs `clear`), exactly once. -/
theorem exec_spec (v : ArrayVec T N) (ops : List (Op T)) (hfit : ∀ op ∈ ops, op.Fits N) :
    ∃ outs v', v.exec ops = some (outs, v') ∧
      BoundedList.exec N v.asSlice ops = (outs, v'.asSlice) ∧
      (v.asSlice ++ (List.zipWith Op.inflow ops outs).flatten).Perm
        (outs.flatMap Out.outflow ++ v'.clear.1) := by
  obtain ⟨outs, v', hexec, hspec⟩ := v.exec_refines ops hfit
  refine ⟨outs, v', hexec, hspec, ?_⟩
  have h := BoundedList.exec_perm N v.asSlice ops
  rw [hspec] at h
  exact h

/-- A run on an `ArrayVec` with room for two elements: it fills up, is refused a third push and
an extension past the capacity, pops, extends, and clears. -/
theorem exec_spec_fill_refuse_clear :
    (∀ op ∈ [.tryPush 1, .tryPush 2, .tryPush 3, .pop, .tryExtendFromSlice [4, 5],
        .tryExtendFromSlice [4], .clear], Op.Fits 2 op) ∧
      ∃ outs v', (new : ArrayVec Nat 2).exec [.tryPush 1, .tryPush 2, .tryPush 3, .pop,
          .tryExtendFromSlice [4, 5], .tryExtendFromSlice [4], .clear] = some (outs, v') ∧
        BoundedList.exec 2 (new : ArrayVec Nat 2).asSlice [.tryPush 1, .tryPush 2, .tryPush 3,
          .pop, .tryExtendFromSlice [4, 5], .tryExtendFromSlice [4], .clear] =
          (outs, v'.asSlice) ∧
        ((new : ArrayVec Nat 2).asSlice ++ (List.zipWith Op.inflow [.tryPush 1, .tryPush 2,
          .tryPush 3, .pop, .tryExtendFromSlice [4, 5], .tryExtendFromSlice [4], .clear]
          outs).flatten).Perm (outs.flatMap Out.outflow ++ v'.clear.1) := by
  have hfit : ∀ op ∈ [.tryPush 1, .tryPush 2, .tryPush 3, .pop, .tryExtendFromSlice [4, 5],
      .tryExtendFromSlice [4], .clear], Op.Fits 2 op := by
    simp [Op.Fits, Word.MAX]
  exact ⟨hfit, exec_spec new _ hfit⟩

/-- With a zero-sized element type a slice can hold `usize::MAX` elements. Then
`len + values.len()` overflows, and `try_extend_from_slice` panics where the list model fails
with `CapacityError` and leaves the list as it was. -/
theorem tryExtendFromSlice_unit_overflow :
    ((new : ArrayVec Unit 1).tryPush ()).2.tryExtendFromSlice (List.replicate (Word.MAX 64) ()) =
        none ∧
      BoundedList.step 1 ((new : ArrayVec Unit 1).tryPush ()).2.asSlice
          (.tryExtendFromSlice (List.replicate (Word.MAX 64) ())) =
        (.tryExtendFromSlice (.error ⟨⟩), [()]) := by
  have hpush : ((new : ArrayVec Unit 1).tryPush ()).2.asSlice = [()] := by
    rw [asSlice_tryPush_of_lt (by decide), asSlice_new, List.nil_append]
  have hlen : ((new : ArrayVec Unit 1).tryPush ()).2.len = 1 := by
    rw [← asSlice_length, hpush, List.length_singleton]
  refine ⟨tryExtendFromSlice_of_overflow ?_, ?_⟩
  · rw [hlen, List.length_replicate]
    decide
  · rw [hpush, BoundedList.step, if_neg]
    rw [List.length_replicate, List.length_singleton]
    decide

end ArrayVec

end Ftl

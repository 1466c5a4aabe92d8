import Mathlib
import Ftl.ArrayVec.ArrayVec
import Ftl.Lib.Utf8

/-!
# `ArrayString`: text in an `ArrayVec` of bytes

`ArrayString<N>` (`libs/rust/ftl_arrayvec/src/array_string.rs`) keeps its bytes in an
`ArrayVec<u8, N>`. Its `as_str` hands them to `str::from_utf8_unchecked`, so every value must
hold valid UTF-8, which the `SAFETY` comment of `as_str` takes for granted. The constructors and
`push_str` keep it: they take a `&str`, or check that every byte is ASCII. `push(byte: u8)` takes
any byte and does not (`push_0xFF_breaks_utf8`).

An operation that can panic returns `none` for the panic: `from_static` on a string longer than
`N`, and the `usize` overflow of `ArrayVec::try_extend_from_slice` under `push_str`.

## Main definitions

* `Ftl.ArrayString`, `Ftl.ArrayString.asBytes`, `Ftl.ArrayString.Valid`.
* `Ftl.ArrayString.fromStatic`, `Ftl.ArrayString.fromAsciiStr`, `Ftl.ArrayString.tryFrom`,
  `Ftl.ArrayString.push`, `Ftl.ArrayString.pushStr`.

## Main results

* `Ftl.ArrayString.valid_pushStr`, `Ftl.ArrayString.valid_push_of_ascii` and the constructors'
  lemmas: validity is kept by everything but `push` of a non-ASCII byte.
* `Ftl.ArrayString.exec_valid`: every run that pushes only ASCII bytes keeps validity.
* `Ftl.ArrayString.utf8_of_ascii_pushes`: so every value that a constructor builds and such a
  run changes is valid UTF-8.
* `Ftl.ArrayString.push_0xFF_breaks_utf8`: `push` of `0xFF` succeeds on an empty string and
  leaves bytes that are not UTF-8.
-/

namespace Ftl

/-- `ftl_arrayvec::FromAsciiError`. -/
inductive FromAsciiError where
  | nonAscii (byte : UInt8)
  | capacity
  deriving DecidableEq, Repr

/-- `ArrayString<N>`: up to `N` bytes of text. -/
structure ArrayString (N : Nat) where
  inner : ArrayVec UInt8 N

namespace ArrayString

variable {N : Nat}

/-- `ArrayString::new()`. -/
def new : ArrayString N := ⟨ArrayVec.new⟩

/-- `as_bytes()`. -/
def asBytes (s : ArrayString N) : List UInt8 := s.inner.asSlice

/-- The invariant `as_str` relies on: the bytes are valid UTF-8. -/
def Valid (s : ArrayString N) : Prop := Utf8.IsValid s.asBytes

instance (s : ArrayString N) : Decidable s.Valid := inferInstanceAs (Decidable (Utf8.IsValid _))

/-- `u8::is_ascii`. -/
def isAscii (byte : UInt8) : Bool := byte.toNat < 128

/-- `from_static(string)`; `none` is the panic on a string longer than `N` bytes. -/
def fromStatic (string : String) : Option (ArrayString N) :=
  if h : (Utf8.strBytes string).length > N then none
  else
    some ⟨(new : ArrayString N).inner.extendFromSliceUnchecked (Utf8.strBytes string)
      (by simpa [new, ArrayVec.new] using Nat.le_of_not_gt h)⟩

/-- `push(byte)`: any byte, `Err(CapacityError)` when full. -/
def push (s : ArrayString N) (byte : UInt8) : Except CapacityError Unit × ArrayString N :=
  match s.inner.tryPush byte with
  | (.ok (), inner) => (.ok (), ⟨inner⟩)
  | (.error _, inner) => (.error ⟨⟩, ⟨inner⟩)

/-- `push_str(string)`: the bytes of a `&str`, `Err(CapacityError)` when they do not fit. -/
def pushStr (s : ArrayString N) (string : String) :
    Option (Except CapacityError Unit × ArrayString N) :=
  (s.inner.tryExtendFromSlice (Utf8.strBytes string)).map fun r =>
    match r with
    | (.ok (), inner) => (.ok (), ⟨inner⟩)
    | (.error _, inner) => (.error ⟨⟩, ⟨inner⟩)

/-- `TryFrom<&str>`: `push_str` on a new string. -/
def tryFrom (string : String) : Option (Except CapacityError (ArrayString N)) :=
  ((new : ArrayString N).pushStr string).map fun r =>
    match r with
    | (.ok (), this) => .ok this
    | (.error e, _) => .error e

theorem isAscii_of_find?_eq_none {bytes : List UInt8}
    (h : bytes.find? (fun b => !isAscii b) = none) : ∀ b ∈ bytes, b.toNat < 128 := by
  intro b hb
  have hnot := List.find?_eq_none.mp h b hb
  simpa [isAscii] using hnot

/-- `from_ascii_str(bytes)`: the first non-ASCII byte is reported; otherwise the bytes, now a
valid `&str` through `from_utf8_unchecked`, go through `try_from`. -/
def fromAsciiStr (bytes : List UInt8) : Option (Except FromAsciiError (ArrayString N)) :=
  match h : bytes.find? (fun b => !isAscii b) with
  | some byte => some (.error (.nonAscii byte))
  | none =>
    (tryFrom (Utf8.ofValidBytes bytes (Utf8.isValid_of_ascii (isAscii_of_find?_eq_none h)))).map
      fun r =>
        match r with
        | .ok this => .ok this
        | .error _ => .error .capacity

/-- `clone()`. -/
def clone (s : ArrayString N) : ArrayString N := ⟨s.inner.clone⟩

/-! ### What each operation does to the bytes -/

@[simp] theorem asBytes_new : (new : ArrayString N).asBytes = [] := ArrayVec.asSlice_new

theorem asBytes_of_fromStatic {string : String} {s : ArrayString N}
    (h : fromStatic string = some s) : s.asBytes = Utf8.strBytes string := by
  unfold fromStatic at h
  split_ifs at h with hlen
  cases h
  rw [asBytes, ArrayVec.asSlice_extendFromSliceUnchecked]
  exact List.nil_append _

theorem push_of_full {s : ArrayString N} (h : s.inner.len = N) (byte : UInt8) :
    s.push byte = (.error ⟨⟩, s) := by
  rw [push, ArrayVec.tryPush_of_eq h]

theorem push_of_lt {s : ArrayString N} (h : s.inner.len < N) (byte : UInt8) :
    (s.push byte).1 = .ok () ∧ (s.push byte).2.asBytes = s.asBytes ++ [byte] := by
  have hfst := ArrayVec.tryPush_fst_of_lt h byte
  have hslice := ArrayVec.asSlice_tryPush_of_lt h byte
  unfold push
  split <;> simp_all [asBytes]

theorem pushStr_of_error {s t : ArrayString N} {string : String} {e : CapacityError}
    (h : s.pushStr string = some (.error e, t)) : t = s := by
  unfold pushStr at h
  rcases Nat.lt_or_ge (Word.MAX 64) (s.inner.len + (Utf8.strBytes string).length) with hov | hfit
  · rw [ArrayVec.tryExtendFromSlice_of_overflow hov] at h
    cases h
  · by_cases hroom : s.inner.len + (Utf8.strBytes string).length ≤ N
    · rw [ArrayVec.tryExtendFromSlice_of_le hfit hroom] at h
      cases h
    · rw [ArrayVec.tryExtendFromSlice_of_gt hfit (Nat.lt_of_not_le hroom)] at h
      cases h
      rfl

theorem asBytes_of_pushStr_ok {s t : ArrayString N} {string : String}
    (h : s.pushStr string = some (.ok (), t)) :
    t.asBytes = s.asBytes ++ Utf8.strBytes string := by
  unfold pushStr at h
  rcases Nat.lt_or_ge (Word.MAX 64) (s.inner.len + (Utf8.strBytes string).length) with hov | hfit
  · rw [ArrayVec.tryExtendFromSlice_of_overflow hov] at h
    cases h
  · by_cases hroom : s.inner.len + (Utf8.strBytes string).length ≤ N
    · rw [ArrayVec.tryExtendFromSlice_of_le hfit hroom] at h
      cases h
      exact ArrayVec.asSlice_extendFromSliceUnchecked _ _ _
    · rw [ArrayVec.tryExtendFromSlice_of_gt hfit (Nat.lt_of_not_le hroom)] at h
      cases h

theorem asBytes_of_tryFrom {string : String} {s : ArrayString N}
    (h : tryFrom string = some (.ok s)) : s.asBytes = Utf8.strBytes string := by
  unfold tryFrom at h
  obtain ⟨⟨r, t⟩, hpush, hr⟩ := Option.map_eq_some_iff.mp h
  cases r with
  | error e => cases hr
  | ok u =>
    cases hr
    rw [asBytes_of_pushStr_ok hpush, asBytes_new, List.nil_append]

theorem asBytes_of_fromAsciiStr {bytes : List UInt8} {s : ArrayString N}
    (h : fromAsciiStr bytes = some (.ok s)) :
    s.asBytes = bytes ∧ ∀ b ∈ bytes, b.toNat < 128 := by
  unfold fromAsciiStr at h
  split at h
  · cases h
  · rename_i hfind
    obtain ⟨r, htry, hr⟩ := Option.map_eq_some_iff.mp h
    cases r with
    | error e => cases hr
    | ok t =>
      cases hr
      exact ⟨asBytes_of_tryFrom htry, isAscii_of_find?_eq_none hfind⟩

/-! ### Validity -/

theorem valid_new : (new : ArrayString N).Valid := by
  rw [Valid, asBytes_new]
  exact Utf8.isValid_nil

theorem valid_of_fromStatic {string : String} {s : ArrayString N}
    (h : fromStatic string = some s) : s.Valid := by
  rw [Valid, asBytes_of_fromStatic h]
  exact Utf8.isValid_strBytes string

theorem valid_of_tryFrom {string : String} {s : ArrayString N}
    (h : tryFrom string = some (.ok s)) : s.Valid := by
  rw [Valid, asBytes_of_tryFrom h]
  exact Utf8.isValid_strBytes string

theorem valid_of_fromAsciiStr {bytes : List UInt8} {s : ArrayString N}
    (h : fromAsciiStr bytes = some (.ok s)) : s.Valid := by
  obtain ⟨hbytes, hascii⟩ := asBytes_of_fromAsciiStr h
  rw [Valid, hbytes]
  exact Utf8.isValid_of_ascii hascii

/-- `push_str` keeps validity, whether it succeeds or fails. -/
theorem valid_pushStr {s t : ArrayString N} (hs : s.Valid) {string : String}
    {r : Except CapacityError Unit} (h : s.pushStr string = some (r, t)) : t.Valid := by
  cases r with
  | error e => rwa [pushStr_of_error h]
  | ok u =>
    rw [Valid, asBytes_of_pushStr_ok h]
    exact hs.append (Utf8.isValid_strBytes string)

/-- `push` keeps validity when the byte is ASCII. -/
theorem valid_push_of_ascii {s : ArrayString N} (hs : s.Valid) {byte : UInt8}
    (hb : byte.toNat < 128) : (s.push byte).2.Valid := by
  rcases Nat.lt_or_ge s.inner.len N with hlt | hge
  · rw [Valid, (push_of_lt hlt byte).2]
    exact hs.append_ascii hb
  · rwa [push_of_full (Nat.le_antisymm s.inner.len_le hge)]

theorem valid_clone {s : ArrayString N} (hs : s.Valid) : s.clone.Valid := hs

/-- `push(0xFF)` on an empty `ArrayString<1>` succeeds, and the string then holds the single
byte `0xFF`, which is not UTF-8: `as_str` would build a `&str` from invalid bytes. -/
theorem push_0xFF_breaks_utf8 :
    ((new : ArrayString 1).push 0xFF).1 = .ok () ∧
      ((new : ArrayString 1).push 0xFF).2.asBytes = [0xFF] ∧
      ¬((new : ArrayString 1).push 0xFF).2.Valid := by
  have hpush := push_of_lt (s := (new : ArrayString 1)) (by decide) 0xFF
  rw [asBytes_new, List.nil_append] at hpush
  refine ⟨hpush.1, hpush.2, ?_⟩
  rw [Valid, hpush.2]
  decide

/-! ### Runs -/

/-- The mutators of an `ArrayString`. -/
inductive Op where
  | push (byte : UInt8)
  | pushStr (string : String)
  | clone

/-- One mutator; `none` when it panics. -/
def step (s : ArrayString N) : Op → Option (ArrayString N)
  | .push byte => some (s.push byte).2
  | .pushStr string => (s.pushStr string).map Prod.snd
  | .clone => some s.clone

/-- A run of mutators, stopped by the first panic. -/
def exec (s : ArrayString N) : List Op → Option (ArrayString N)
  | [] => some s
  | op :: ops => (s.step op).bind fun t => t.exec ops

/-- Every run that pushes only ASCII bytes keeps the bytes valid UTF-8. -/
theorem exec_valid {s t : ArrayString N} (hs : s.Valid) {ops : List Op}
    (hascii : ∀ byte, Op.push byte ∈ ops → byte.toNat < 128) (h : s.exec ops = some t) :
    t.Valid := by
  induction ops generalizing s with
  | nil =>
    cases h
    exact hs
  | cons op ops ih =>
    obtain ⟨s', hstep, hrest⟩ := Option.bind_eq_some_iff.mp h
    refine ih ?_ (fun byte hb => hascii byte (List.mem_cons_of_mem op hb)) hrest
    cases op with
    | push byte =>
      cases hstep
      exact valid_push_of_ascii hs (hascii byte List.mem_cons_self)
    | pushStr string =>
      obtain ⟨⟨r, t'⟩, hpush, rfl⟩ := Option.map_eq_some_iff.mp hstep
      exact valid_pushStr hs hpush
    | clone =>
      cases hstep
      exact valid_clone hs

/-- Every `ArrayString` that a constructor builds and a run of mutators then changes holds valid
UTF-8, as long as the run pushes only ASCII bytes: what `as_str` takes for granted. -/
theorem utf8_of_ascii_pushes {ops : List Op}
    (hascii : ∀ byte, Op.push byte ∈ ops → byte.toNat < 128) :
    (∀ t, (new : ArrayString N).exec ops = some t → t.Valid) ∧
      (∀ string (s t : ArrayString N), fromStatic string = some s → s.exec ops = some t →
        t.Valid) ∧
      (∀ string (s t : ArrayString N), tryFrom string = some (.ok s) → s.exec ops = some t →
        t.Valid) ∧
      (∀ bytes (s t : ArrayString N), fromAsciiStr bytes = some (.ok s) → s.exec ops = some t →
        t.Valid) := by
  refine ⟨fun t h => exec_valid valid_new hascii h, ?_, ?_, ?_⟩
  · intro string s t hs h
    exact exec_valid (valid_of_fromStatic hs) hascii h
  · intro string s t hs h
    exact exec_valid (valid_of_tryFrom hs) hascii h
  · intro bytes s t hs h
    exact exec_valid (valid_of_fromAsciiStr hs) hascii h

/-- Runs on an `ArrayString<8>` that push the two bytes of `"é"` with `push_str`, then the ASCII
byte `A`, then clone; from `new` the run holds `C3 A9 41`. -/
theorem utf8_of_ascii_pushes_accent :
    ((new : ArrayString 8).exec [.pushStr "é", .push 0x41, .clone]).map asBytes =
        some [0xC3, 0xA9, 0x41] ∧
      (∀ byte, Op.push byte ∈ [.pushStr "é", .push 0x41, .clone] → byte.toNat < 128) ∧
      (∀ t, (new : ArrayString 8).exec [.pushStr "é", .push 0x41, .clone] = some t → t.Valid) ∧
      (∀ string (s t : ArrayString 8), fromStatic string = some s →
        s.exec [.pushStr "é", .push 0x41, .clone] = some t → t.Valid) ∧
      (∀ string (s t : ArrayString 8), tryFrom string = some (.ok s) →
        s.exec [.pushStr "é", .push 0x41, .clone] = some t → t.Valid) ∧
      (∀ bytes (s t : ArrayString 8), fromAsciiStr bytes = some (.ok s) →
        s.exec [.pushStr "é", .push 0x41, .clone] = some t → t.Valid) := by
  have hascii : ∀ byte, Op.push byte ∈ [.pushStr "é", .push 0x41, .clone] →
      byte.toNat < 128 := by
    intro byte hb
    simp only [List.mem_cons, List.not_mem_nil, Op.push.injEq, reduceCtorEq, or_false,
      false_or] at hb
    subst hb
    decide
  exact ⟨by decide +kernel, hascii, utf8_of_ascii_pushes hascii⟩

end ArrayString

end Ftl

import Mathlib

/-!
# Little-endian words in byte lists

A buffer is a list of bytes. A word of `n` bytes is stored least significant byte first:
`ofNatLE n v` is the `n` bytes of `v` (its higher bytes dropped), `toNatLE` reads a list of bytes
back as a number, and `readLE buf off n` reads the `n`-byte word at offset `off` of `buf`, which
is what a Rust program does when it casts a pointer into a buffer to a packed struct of integers
on a little-endian machine.

The round trips (`toNatLE_ofNatLE`, `ofNatLE_toNatLE`) and the slices of a buffer built by
concatenation (`slice_append_of_slice`, `readLE_flatMap_ofNatLE`) are what the decoders of this
development are proved with.

## Main definitions

* `Bytes.toNatLE`, `Bytes.ofNatLE`, `Bytes.readLE`, `Bytes.writeAt`, `Bytes.slice`.

## Main results

* `Bytes.toNatLE_ofNatLE`, `Bytes.ofNatLE_toNatLE`: the round trips.
* `Bytes.slice_append_of_slice`, `Bytes.slice_flatten`: slices of concatenated buffers.
* `Bytes.readLE_flatMap_ofNatLE`: a word stored in a table of words reads back at its offset.
-/

namespace Bytes

/-- The number with the given bytes, least significant first. -/
def toNatLE : List UInt8 → Nat
  | [] => 0
  | b :: bs => b.toNat + 256 * toNatLE bs

/-- The `n` bytes of `v`, least significant first; what does not fit in `n` bytes is dropped. -/
def ofNatLE : Nat → Nat → List UInt8
  | 0, _ => []
  | n + 1, v => UInt8.ofNat (v % 256) :: ofNatLE n (v / 256)

/-- The `n`-byte word at offset `off` of `buf`; bytes past the end of `buf` are missing and read
as nothing. -/
def readLE (buf : List UInt8) (off n : Nat) : Nat := toNatLE ((buf.drop off).take n)

@[simp] theorem toNatLE_nil : toNatLE [] = 0 := rfl

@[simp] theorem toNatLE_cons (b : UInt8) (bs : List UInt8) :
    toNatLE (b :: bs) = b.toNat + 256 * toNatLE bs := rfl

@[simp] theorem length_ofNatLE (n v : Nat) : (ofNatLE n v).length = n := by
  induction n generalizing v with
  | zero => rfl
  | succ n ih => simp [ofNatLE, ih]

theorem toNatLE_ofNatLE (n v : Nat) : toNatLE (ofNatLE n v) = v % 256 ^ n := by
  induction n generalizing v with
  | zero => simp [ofNatLE, Nat.mod_one]
  | succ n ih =>
    have hlow : (v % 256) % 2 ^ 8 = v % 256 := Nat.mod_eq_of_lt (Nat.mod_lt v (by decide))
    rw [ofNatLE, toNatLE_cons, ih, UInt8.toNat_ofNat', hlow, pow_succ', Nat.mod_mul]

theorem ofNatLE_toNatLE (bs : List UInt8) : ofNatLE bs.length (toNatLE bs) = bs := by
  induction bs with
  | nil => rfl
  | cons b bs ih =>
    have hb : b.toNat < 256 := b.toNat_lt
    rw [List.length_cons, ofNatLE, toNatLE_cons, Nat.add_mul_mod_self_left, Nat.mod_eq_of_lt hb,
      UInt8.ofNat_toNat, Nat.add_mul_div_left _ _ (by decide), Nat.div_eq_of_lt hb, Nat.zero_add, ih]

example : readLE [0x34, 0x12, 0xff] 0 2 = 0x1234 := by decide

/-- `buf[off..off + data.len()].copy_from_slice(data)`: the bytes of `data` stored from `off`
on. A caller checks the range first; a byte that would land past the end of `buf` is dropped,
so the buffer keeps its length. -/
def writeAt (buf : List UInt8) (off : Nat) (data : List UInt8) : List UInt8 :=
  buf.mapIdx fun i b => if off ≤ i then data.getD (i - off) b else b

example : writeAt [1, 2, 3, 4] 1 [7, 8, 9] = [1, 7, 8, 9] := by decide

/-- `buf.get(off..off + n)`: the `n` bytes at `off`, or `none` when they run past the end. -/
def slice (buf : List UInt8) (off n : Nat) : Option (List UInt8) :=
  if off + n ≤ buf.length then some ((buf.drop off).take n) else none

theorem slice_eq_some {buf bs : List UInt8} {off n : Nat} (h : slice buf off n = some bs) :
    off + n ≤ buf.length ∧ bs = (buf.drop off).take n := by
  unfold slice at h
  split_ifs at h with hle
  exact ⟨hle, (Option.some.inj h).symm⟩

theorem isInfix_of_slice {buf bs : List UInt8} {off n : Nat} (h : slice buf off n = some bs) :
    bs <:+: buf := by
  obtain ⟨-, rfl⟩ := slice_eq_some h
  exact (List.take_prefix n _).isInfix.trans (List.drop_suffix off buf).isInfix

/-- A slice inside the first part of a buffer. -/
theorem slice_append_left {buf rest : List UInt8} {off n : Nat} (h : off + n ≤ buf.length) :
    slice (buf ++ rest) off n = slice buf off n := by
  rw [slice, slice, if_pos (by simp; omega), if_pos h, List.drop_append_of_le_length (by omega),
    List.take_append_of_le_length (by rw [List.length_drop]; omega)]

/-- A slice past the first part of a buffer. -/
theorem slice_append_right {pre buf : List UInt8} {off n : Nat} (h : pre.length ≤ off) :
    slice (pre ++ buf) off n = slice buf (off - pre.length) n := by
  have hdrop : (pre ++ buf).drop off = buf.drop (off - pre.length) := by
    rw [List.drop_append, List.drop_eq_nil_of_le h, List.nil_append]
  unfold slice
  rw [hdrop, List.length_append]
  congr 1
  exact propext (by omega)

@[simp] theorem slice_self (buf : List UInt8) : slice buf 0 buf.length = some buf := by
  simp [slice]

/-- A slice of a buffer is a slice of any longer buffer. -/
theorem slice_append_of_slice {buf bs : List UInt8} {off n : Nat} (h : slice buf off n = some bs)
    (rest : List UInt8) : slice (buf ++ rest) off n = some bs := by
  rw [slice_append_left (slice_eq_some h).1, h]

/-- The middle part of a buffer of three. -/
theorem slice_mid (pre buf post : List UInt8) : slice (pre ++ buf ++ post) pre.length buf.length = some buf := by
  rw [List.append_assoc, slice_append_right le_rfl, Nat.sub_self, slice_append_left (by omega), slice_self]

/-- A word read where a slice is taken is the number of the slice's bytes. -/
theorem readLE_of_slice {buf bs : List UInt8} {off n : Nat} (h : slice buf off n = some bs) :
    readLE buf off n = toNatLE bs := by
  obtain ⟨-, rfl⟩ := slice_eq_some h
  rfl

/-- The `i`-th piece of a concatenation starts after the pieces before it. -/
theorem slice_flatten : ∀ (bss : List (List UInt8)) (i : Nat) (hi : i < bss.length),
    slice bss.flatten ((bss.take i).map List.length).sum bss[i].length = some bss[i]
  | bs :: bss, 0, _ => by
    rw [List.flatten_cons, List.take_zero, List.map_nil, List.sum_nil, List.getElem_cons_zero,
      slice_append_left (by omega), slice_self]
  | bs :: bss, i + 1, hi => by
    rw [List.flatten_cons, List.take_succ_cons, List.map_cons, List.sum_cons,
      slice_append_right (by omega), Nat.add_sub_cancel_left]
    exact slice_flatten bss i (by simpa using hi)

/-- The `k`-th piece of a concatenation of pieces of one length `n` starts at `n * k`. -/
theorem slice_flatMap_of_length {α : Type} (f : α → List UInt8) {n : Nat}
    (hf : ∀ a, (f a).length = n) :
    ∀ (xs : List α) {k : Nat} {a : α}, xs[k]? = some a → slice (xs.flatMap f) (n * k) n = some (f a)
  | x :: xs, 0, a, h => by
    obtain rfl : x = a := by simpa using h
    rw [List.flatMap_cons, Nat.mul_zero, slice_append_left (by rw [hf]; omega), ← hf x, slice_self]
  | x :: xs, k + 1, a, h => by
    rw [List.flatMap_cons, slice_append_right (by rw [hf]; rw [Nat.mul_succ]; omega), hf,
      show n * (k + 1) - n = n * k by rw [Nat.mul_succ]; omega]
    exact slice_flatMap_of_length f hf xs (by simpa using h)

/-- The `k`-th of the `n`-byte words at the start of a buffer. -/
theorem readLE_flatMap_ofNatLE {n : Nat} {ws : List Nat} {k v : Nat} (h : ws[k]? = some v)
    (rest : List UInt8) : readLE (ws.flatMap (ofNatLE n) ++ rest) (n * k) n = v % 256 ^ n := by
  have hk : k < ws.length := (List.getElem?_eq_some_iff.mp h).1
  have hlen : (ws.flatMap (ofNatLE n)).length = n * ws.length := by
    rw [List.length_flatMap]
    simp [Nat.mul_comm]
  have hslice := slice_flatMap_of_length (ofNatLE n) (fun v => length_ofNatLE n v) ws h
  rw [← @slice_append_left _ rest _ _ (by rw [hlen]; exact Nat.mul_le_mul_left n hk)] at hslice
  rw [readLE_of_slice hslice, toNatLE_ofNatLE]

example : slice [1, 2, 3, 4] 1 2 = some [2, 3] := by decide

end Bytes

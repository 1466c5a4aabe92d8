import Mathlib

/-!
# Valid UTF-8 byte lists

A list of bytes is valid UTF-8 when it is the encoding of a list of Unicode scalar values; this is
core Lean's `ByteArray.IsValidUTF8`, the invariant of `String`, read on a list. It is the
precondition of Rust's `str::from_utf8_unchecked`.

Validity is closed under concatenation and under appending an ASCII byte, and the bytes of a
string are valid. It is decidable, so that a byte list such as `[0xFF]` can be checked.

## Main definitions

* `Utf8.IsValid`, `Utf8.strBytes`, `Utf8.ofValidBytes`.

## Main results

* `Utf8.IsValid.append`, `Utf8.IsValid.append_ascii`, `Utf8.isValid_strBytes`.
-/

namespace Utf8

/-- The bytes are the UTF-8 encoding of a list of Unicode scalar values. -/
def IsValid (bytes : List UInt8) : Prop := (ByteArray.mk bytes.toArray).IsValidUTF8

instance (bytes : List UInt8) : Decidable (IsValid bytes) :=
  inferInstanceAs (Decidable (ByteArray.IsValidUTF8 _))

/-- The bytes of a string, `str::as_bytes()`. -/
def strBytes (s : String) : List UInt8 := s.toByteArray.data.toList

/-- The string with the given valid bytes, `str::from_utf8_unchecked`. -/
def ofValidBytes (bytes : List UInt8) (h : IsValid bytes) : String :=
  String.ofByteArray ⟨bytes.toArray⟩ h

theorem isValid_nil : IsValid [] := ByteArray.isValidUTF8_empty

theorem isValid_strBytes (s : String) : IsValid (strBytes s) := by
  unfold IsValid strBytes
  simpa using s.isValidUTF8

theorem IsValid.append {a b : List UInt8} (ha : IsValid a) (hb : IsValid b) :
    IsValid (a ++ b) := by
  have h := ByteArray.IsValidUTF8.append ha hb
  unfold IsValid
  convert h using 1
  apply ByteArray.ext
  simp [ByteArray.data_append]

private theorem toUInt8_ofUInt8 (b : UInt8) : (Char.ofUInt8 b).toUInt8 = b := by
  apply UInt8.toNat_inj.mp
  simp [Char.ofUInt8, ← Char.toUInt8_val]

private theorem utf8Size_ofUInt8 {b : UInt8} (hb : b.toNat < 128) :
    (Char.ofUInt8 b).utf8Size = 1 := by
  rw [Char.utf8Size_eq_one_iff]
  simp only [Char.ofUInt8, UInt32.le_iff_toNat_le, UInt8.toNat_toUInt32]
  simpa using Nat.le_of_lt_succ hb

/-- An ASCII byte is a one-byte encoding of a scalar value. -/
theorem IsValid.append_ascii {bytes : List UInt8} (h : IsValid bytes) {b : UInt8}
    (hb : b.toNat < 128) : IsValid (bytes ++ [b]) := by
  have hpush := ByteArray.IsValidUTF8.push h (utf8Size_ofUInt8 hb)
  rw [toUInt8_ofUInt8] at hpush
  unfold IsValid
  convert hpush using 1
  apply ByteArray.ext
  simp [ByteArray.push]

/-- A list of ASCII bytes is valid. -/
theorem isValid_of_ascii : ∀ {bytes : List UInt8}, (∀ b ∈ bytes, b.toNat < 128) → IsValid bytes
  | [], _ => isValid_nil
  | b :: bytes, h => by
    have hb : IsValid [b] := by
      simpa using isValid_nil.append_ascii (h b List.mem_cons_self)
    exact hb.append (isValid_of_ascii fun c hc => h c (List.mem_cons_of_mem b hc))

end Utf8

import Mathlib

/-!
# Machine words as natural numbers

Rust's `usize` and `u32` are modelled as natural numbers below `2 ^ 64` and `2 ^ 32`. An
arithmetic operation that can overflow is written with the checked operation the source uses,
which returns `none` on overflow, or with an explicit bound; a plain `+` of the source is a
`+` of `Nat` where its operands are known to stay below the bound.

Power-of-two alignment is computed with masks: `value & !(align - 1)` keeps the bits of `value`
at and above `log₂ align` and drops the rest. For `align = 2 ^ k` this is `value` rounded down
to a multiple of `align`, taken modulo the word size (`land_compl_low_mask`).

## Main definitions

* `Word.MAX`, `Word.checkedAdd`, `Word.checkedSub`, `Word.checkedMul`, `Word.compl`.
* `Word.ofInt`, `Word.toSigned`, `Word.checkedAddSigned`: signed words and the casts.

## Main results

* `Word.checkedAdd_eq_some`, `Word.checkedSub_eq_some`: the checked operations.
* `Word.land_compl_low_mask`: the alignment mask rounds down.
* `Word.land_low_mask_eq_zero_iff`: the low bits vanish exactly at multiples.
* `Word.lor_eq_add_of_lt`: fields that do not overlap are joined by `|||` as by `+`.
-/

namespace Word

/-- The largest value of an unsigned word of `w` bits. -/
def MAX (w : Nat) : Nat := 2 ^ w - 1

/-- `a.checked_add(b)` on a word of `w` bits. -/
def checkedAdd (w a b : Nat) : Option Nat :=
  if a + b ≤ MAX w then some (a + b) else none

/-- `a.checked_sub(b)` on an unsigned word. -/
def checkedSub (a b : Nat) : Option Nat :=
  if b ≤ a then some (a - b) else none

/-- `!x`, the bitwise complement of a word of `w` bits. -/
def compl (w x : Nat) : Nat := MAX w ^^^ x

/-- `a.checked_mul(b)` on a word of `w` bits; a plain `*` of the source, which panics on
overflow in the debug profile, is this with `none` for the panic. -/
def checkedMul (w a b : Nat) : Option Nat :=
  if a * b ≤ MAX w then some (a * b) else none

/-- `x as usize` (or `as u64`) for a signed `x` of `w` bits: its two's complement bits. -/
def ofInt (w : Nat) (x : Int) : Nat := (x % 2 ^ w).toNat

/-- `v as isize` for an unsigned `v` of `w` bits: the signed value of its bits. -/
def toSigned (w v : Nat) : Int := if v < 2 ^ (w - 1) then v else (v : Int) - 2 ^ w

/-- `a + b` on signed words of `w` bits, `none` where the debug profile panics. -/
def checkedAddSigned (w : Nat) (a b : Int) : Option Int :=
  if -2 ^ (w - 1) ≤ a + b ∧ a + b < 2 ^ (w - 1) then some (a + b) else none

theorem checkedAdd_eq_some {w a b c : Nat} :
    checkedAdd w a b = some c ↔ a + b ≤ MAX w ∧ c = a + b := by
  unfold checkedAdd
  split_ifs with h <;> simp [h, eq_comm]

theorem checkedAdd_eq_none {w a b : Nat} : checkedAdd w a b = none ↔ MAX w < a + b := by
  unfold checkedAdd
  split_ifs with h <;> simp [h]
  omega

theorem checkedMul_eq_none {w a b : Nat} : checkedMul w a b = none ↔ MAX w < a * b := by
  unfold checkedMul
  split_ifs with h <;> simp [h]
  omega

/-- A negative signed word cast to unsigned is the word plus `2 ^ w`. -/
theorem ofInt_of_neg {w : Nat} {x : Int} (hneg : x < 0) (hmin : -2 ^ w ≤ x) :
    (ofInt w x : Int) = x + 2 ^ w := by
  have hpos : (0 : Int) < 2 ^ w := by positivity
  have hmod : x % 2 ^ w = x + 2 ^ w := by
    rw [Int.emod_eq_add_self_emod, Int.emod_eq_of_lt (by omega) (by omega)]
  rw [ofInt, hmod, Int.toNat_of_nonneg (by omega)]

theorem checkedSub_eq_some {a b c : Nat} : checkedSub a b = some c ↔ b ≤ a ∧ c = a - b := by
  unfold checkedSub
  split_ifs with h <;> simp [h, eq_comm]

theorem checkedSub_eq_none {a b : Nat} : checkedSub a b = none ↔ a < b := by
  unfold checkedSub
  split_ifs with h <;> simp [h]
  omega

theorem testBit_MAX (w i : Nat) : (MAX w).testBit i = decide (i < w) := by
  rw [MAX, Nat.testBit_two_pow_sub_one]

/-- Masking with the complement of `2 ^ k - 1` in a word of `w ≥ k` bits rounds down to a
multiple of `2 ^ k` and truncates to the word. -/
theorem land_compl_low_mask {w k : Nat} (hk : k ≤ w) (x : Nat) :
    x &&& compl w (2 ^ k - 1) = x % 2 ^ w / 2 ^ k * 2 ^ k := by
  apply Nat.eq_of_testBit_eq
  intro i
  have hmul : x % 2 ^ w / 2 ^ k * 2 ^ k = ((x % 2 ^ w) >>> k) <<< k := by
    rw [Nat.shiftLeft_eq, Nat.shiftRight_eq_div_pow]
  rw [hmul, Nat.testBit_shiftLeft, compl, Nat.testBit_land, Nat.testBit_xor, testBit_MAX,
    Nat.testBit_two_pow_sub_one]
  by_cases hik : k ≤ i
  · rw [Nat.testBit_shiftRight, Nat.add_sub_cancel' hik, Nat.testBit_mod_two_pow]
    by_cases hiw : i < w <;> simp [hik, hiw, Nat.not_lt.mpr hik]
  · have hiw : i < w := by omega
    simp [hik, hiw, Nat.lt_of_not_le hik]

/-- The low `k` bits of `x` are zero exactly when `2 ^ k` divides `x`. -/
theorem land_low_mask_eq_zero_iff (x k : Nat) : x &&& (2 ^ k - 1) = 0 ↔ x % 2 ^ k = 0 := by
  rw [Nat.and_two_pow_sub_one_eq_mod]

/-- Bit `k` of `x` is clear exactly when `x` masked with `2 ^ k` is zero. -/
theorem land_two_pow_eq_zero_iff (x k : Nat) : x &&& 2 ^ k = 0 ↔ x / 2 ^ k % 2 = 0 := by
  have hmask : x &&& 2 ^ k = if x.testBit k then 2 ^ k else 0 := by
    apply Nat.eq_of_testBit_eq
    intro i
    rw [Nat.testBit_and, Nat.testBit_two_pow]
    by_cases hki : k = i
    · subst hki
      split_ifs with h <;> simp [h]
    · split_ifs <;> simp [hki]
  rw [hmask, Nat.testBit_eq_decide_div_mod_eq]
  have hpos := Nat.two_pow_pos k
  split_ifs with h
  · simp only [decide_eq_true_eq] at h
    omega
  · simp only [decide_eq_true_eq] at h
    omega

/-- A multiple of `2 ^ k` and a value below `2 ^ k` have no bit in common, so `|||` adds them. -/
theorem lor_eq_add_of_lt {a b k : Nat} (ha : a % 2 ^ k = 0) (hb : b < 2 ^ k) : a ||| b = a + b := by
  obtain ⟨q, rfl⟩ := Nat.dvd_of_mod_eq_zero ha
  rw [mul_comm, ← Nat.shiftLeft_eq, Nat.shiftLeft_add_eq_or_of_lt hb]

end Word

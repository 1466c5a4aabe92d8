import Mathlib

/-!
# Byte-addressed memory

A memory is a function from addresses to bytes. Words are stored little-endian: `readLE m a n`
reads the `n`-byte word at `a`, `writeLE m a v n` stores the low `n` bytes of `v` there. `fill`
sets a range to one byte, `writeBytes` stores a list of bytes and `readBytes` reads one back.

Every operation is given by what it does at each address (`writeLE_apply`, `fill_apply`,
`writeBytes_apply`), and a word read depends only on the bytes of its range (`readLE_congr`).
Frame reasoning goes through these two kinds of lemmas: a write outside the range of a read does
not change what it reads.

## Main definitions

* `ByteMem`, `ByteMem.readLE`, `ByteMem.writeLE`, `ByteMem.fill`, `ByteMem.readBytes`,
  `ByteMem.writeBytes`.

## Main results

* `ByteMem.readLE_writeLE_self`: a word reads back as stored, truncated to its width.
* `ByteMem.readLE_congr`: a word read sees only its range.
* `ByteMem.readLE_fill_zero`: a zero-filled range reads as `0`.
-/

/-- A byte-addressed memory. -/
abbrev ByteMem : Type := Nat → UInt8

namespace ByteMem

/-- The memory holding `0` everywhere. -/
def zero : ByteMem := fun _ => 0

/-- The `n`-byte little-endian word at `addr`. -/
def readLE (m : ByteMem) (addr : Nat) : Nat → Nat
  | 0 => 0
  | n + 1 => (m addr).toNat + 256 * readLE m (addr + 1) n

/-- Store the low `n` bytes of `v` at `addr`, least significant first. -/
def writeLE (m : ByteMem) (addr v : Nat) : Nat → ByteMem
  | 0 => m
  | n + 1 => writeLE (Function.update m addr (UInt8.ofNat (v % 256))) (addr + 1) (v / 256) n

/-- Set the `len` bytes from `addr` to `b`. -/
def fill (m : ByteMem) (addr len : Nat) (b : UInt8) : ByteMem :=
  fun a => if addr ≤ a ∧ a < addr + len then b else m a

/-- The `n` bytes from `addr`. -/
def readBytes (m : ByteMem) (addr : Nat) : Nat → List UInt8
  | 0 => []
  | n + 1 => m addr :: readBytes m (addr + 1) n

/-- Store `data` from `addr` on. -/
def writeBytes (m : ByteMem) (addr : Nat) : List UInt8 → ByteMem
  | [] => m
  | b :: data => writeBytes (Function.update m addr b) (addr + 1) data

/-! ### Writes, address by address -/

theorem fill_apply (m : ByteMem) (addr len : Nat) (b : UInt8) (a : Nat) :
    m.fill addr len b a = if addr ≤ a ∧ a < addr + len then b else m a := rfl

theorem fill_apply_of_not_mem (m : ByteMem) {addr len a : Nat} (b : UInt8)
    (ha : a ∉ Set.Ico addr (addr + len)) : m.fill addr len b a = m a := by
  rw [fill_apply, if_neg (by simpa using ha)]

theorem writeLE_apply : ∀ (m : ByteMem) (addr v n a : Nat),
    m.writeLE addr v n a =
      if addr ≤ a ∧ a < addr + n then UInt8.ofNat (v / 256 ^ (a - addr) % 256) else m a
  | m, addr, v, 0, a => by
    rw [writeLE, if_neg (by omega)]
  | m, addr, v, n + 1, a => by
    rw [writeLE, writeLE_apply]
    by_cases ha : a = addr
    · subst ha
      rw [if_neg (by omega), if_pos (by omega), Function.update_self, Nat.sub_self, Nat.pow_zero,
        Nat.div_one]
    · rw [Function.update_of_ne ha]
      by_cases hin : addr + 1 ≤ a ∧ a < addr + 1 + n
      · have hsub : a - addr = (a - (addr + 1)) + 1 := by omega
        rw [if_pos hin, if_pos (by omega), hsub, Nat.pow_succ, Nat.mul_comm, ← Nat.div_div_eq_div_mul]
      · rw [if_neg hin, if_neg (by omega)]

theorem writeLE_apply_of_not_mem (m : ByteMem) {addr v n a : Nat} (ha : a < addr ∨ addr + n ≤ a) :
    m.writeLE addr v n a = m a := by
  rw [writeLE_apply, if_neg (by omega)]

theorem writeBytes_apply : ∀ (m : ByteMem) (addr : Nat) (data : List UInt8) (a : Nat),
    m.writeBytes addr data a =
      if addr ≤ a ∧ a < addr + data.length then data[a - addr]?.getD 0 else m a
  | m, addr, [], a => by
    rw [writeBytes, if_neg (by simp)]
  | m, addr, b :: data, a => by
    rw [writeBytes, writeBytes_apply, List.length_cons]
    by_cases ha : a = addr
    · subst ha
      rw [if_neg (by omega), if_pos (by omega), Function.update_self, Nat.sub_self]
      rfl
    · rw [Function.update_of_ne ha]
      by_cases hin : addr + 1 ≤ a ∧ a < addr + 1 + data.length
      · have hsub : a - addr = (a - (addr + 1)) + 1 := by omega
        rw [if_pos hin, if_pos (by omega), hsub, List.getElem?_cons_succ]
      · rw [if_neg hin, if_neg (by omega)]

theorem writeBytes_apply_of_not_mem (m : ByteMem) {addr a : Nat} {data : List UInt8}
    (ha : a ∉ Set.Ico addr (addr + data.length)) : m.writeBytes addr data a = m a := by
  rw [writeBytes_apply, if_neg (by simpa using ha)]

/-! ### Reads see only their range -/

theorem readLE_congr {m m' : ByteMem} {addr : Nat} :
    ∀ {n : Nat}, (∀ a, addr ≤ a → a < addr + n → m a = m' a) → m.readLE addr n = m'.readLE addr n
  | 0, _ => rfl
  | n + 1, h => by
    rw [readLE, readLE, h addr (Nat.le_refl _) (by omega),
      readLE_congr (n := n) fun a ha ha' => h a (by omega) (by omega)]

theorem readLE_lt (m : ByteMem) : ∀ (addr n : Nat), m.readLE addr n < 256 ^ n
  | _, 0 => by simp [readLE]
  | addr, n + 1 => by
    have hb := (m addr).toNat_lt
    have ih := readLE_lt m (addr + 1) n
    rw [readLE, Nat.pow_succ]
    omega

/-- The bytes read, one by one. -/
theorem readBytes_eq_map (m : ByteMem) :
    ∀ (addr n : Nat), m.readBytes addr n = (List.range n).map fun j => m (addr + j)
  | _, 0 => rfl
  | addr, n + 1 => by
    rw [readBytes, readBytes_eq_map m (addr + 1) n, List.range_succ_eq_map, List.map_cons,
      List.map_map, Nat.add_zero]
    congr 2
    funext j
    simp only [Function.comp_apply, Nat.add_assoc, Nat.add_comm 1 j]

/-- A word reads back as stored, truncated to its width. -/
theorem readLE_writeLE_self : ∀ (m : ByteMem) (addr v n : Nat),
    (m.writeLE addr v n).readLE addr n = v % 256 ^ n
  | _, _, v, 0 => by simp [readLE, Nat.mod_one]
  | m, addr, v, n + 1 => by
    have hrest : (m.writeLE addr v (n + 1)).readLE (addr + 1) n = (v / 256) % 256 ^ n := by
      rw [writeLE, readLE_writeLE_self]
    have hlow : m.writeLE addr v (n + 1) addr = UInt8.ofNat (v % 256) := by
      rw [writeLE_apply, if_pos (by omega), Nat.sub_self, Nat.pow_zero, Nat.div_one]
    have hbyte : (UInt8.ofNat (v % 256)).toNat = v % 256 :=
      UInt8.toNat_ofNat_of_lt' (Nat.mod_lt _ (by decide))
    rw [readLE, hrest, hlow, hbyte, Nat.pow_succ, Nat.mul_comm (256 ^ n) 256, Nat.mod_mul]

/-- A zero-filled range reads as `0`. -/
theorem readLE_fill_zero {m : ByteMem} {start len addr n : Nat} (hlo : start ≤ addr)
    (hhi : addr + n ≤ start + len) : (m.fill start len 0).readLE addr n = 0 := by
  induction n generalizing addr with
  | zero => rfl
  | succ n ih =>
    rw [readLE, ih (by omega) (by omega), fill_apply, if_pos (by omega)]
    rfl

/-! ### What a write leaves alone -/

theorem eqOn_fill (m : ByteMem) (addr len : Nat) (b : UInt8) :
    Set.EqOn (m.fill addr len b) m (Set.Ico addr (addr + len))ᶜ :=
  fun _ ha => fill_apply_of_not_mem m b ha

theorem eqOn_writeLE (m : ByteMem) (addr v n : Nat) :
    Set.EqOn (m.writeLE addr v n) m (Set.Ico addr (addr + n))ᶜ := by
  intro a ha
  rw [Set.mem_compl_iff, Set.mem_Ico] at ha
  exact writeLE_apply_of_not_mem m (by omega)

/-- A word read inside a set on which two memories agree. -/
theorem readLE_eq_of_eqOn {m m' : ByteMem} {S : Set Nat} (h : Set.EqOn m m' S) {addr n : Nat}
    (hsub : Set.Ico addr (addr + n) ⊆ S) : m.readLE addr n = m'.readLE addr n :=
  readLE_congr fun _ ha ha' => h (hsub ⟨ha, ha'⟩)

end ByteMem

import Mathlib
import Ftl.Api.Types
import Ftl.Lib.Word
import Ftl.Lib.Bytes

/-!
# The Linux server's `write` and `writev`

`servers/lx/src/syscall.rs`. The server emulates Linux system calls for the program it runs;
`handle_syscall` passes the registers, reinterpreted as `isize`, to `sys_write` and `sys_writev`.
Both accept only the file descriptors 1 and 2, and read user memory through
`VmSpace::read_bytes`, here a function `read uaddr n` that returns the `n` bytes at `uaddr` or an
error.

`sys_write(fd, uaddr, count)` casts `count` to `usize` and copies it out in chunks of at most 256
bytes. `sys_writev(fd, iov_uaddr, iovcnt)` refuses `iovcnt > 16`, reads `iovcnt` iovecs of 16 bytes
into a buffer of 16, through a byte view of length `iovcnt as usize * 16`, and sums what
`sys_write` returns for each.

The result is `none` when the code panics; an arithmetic operation of the source panics on
overflow in the default (debug) profile. The only guard on `iovcnt` is `iovcnt > 16`, so a
negative `iovcnt` passes it, and its cast to `usize` is `2 ^ 64 + iovcnt`, at least `2 ^ 63`:
`iovcnt as usize * 16` overflows, and `sys_writev` panics for every negative `iovcnt`
(`sysWritev_of_neg`).

## Main definitions

* `Ftl.Lx.sysWrite`, `Ftl.Lx.sysWritev`.

## Main results

* `Ftl.Lx.sysWritev_of_neg`: `sys_writev` panics on every negative `iovcnt`.
-/

namespace Ftl.Lx

/-- `Errno`: the error numbers these calls return. -/
inductive Errno where
  | ebadf
  | efault
  | einval
  | enosys
  deriving DecidableEq, Repr

/-- `Iovec`. -/
structure Iovec where
  base : Nat
  len : Nat
  deriving DecidableEq, Repr

/-- The `i`-th `Iovec` of a buffer of iovecs. -/
def Iovec.decode (buf : List UInt8) (i : Nat) : Iovec :=
  ⟨Bytes.readLE buf (16 * i) 8, Bytes.readLE buf (16 * i + 8) 8⟩

section Calls

variable (read : Nat → Nat → Except ErrorCode (List UInt8))

/-- The loop of `sys_write`: the chunks of the `remaining` bytes from `uaddr`. -/
def writeLoop (uaddr remaining : Nat) : Option (Except Errno Unit) :=
  if _h : remaining = 0 then some (.ok ())
  else
    let n := min remaining 256
    match read uaddr n with
    | .error _ => some (.error .efault)
    | .ok _ =>
      -- `uaddr += n`
      match Word.checkedAdd 64 uaddr n with
      | none => none
      | some uaddr' => writeLoop uaddr' (remaining - n)
termination_by remaining
decreasing_by omega

/-- `sys_write(fd, uaddr, count)`. -/
def sysWrite (fd : Nat) (uaddr count : Int) : Option (Except Errno Int) :=
  if fd ≠ 1 ∧ fd ≠ 2 then some (.error .ebadf)
  else (writeLoop read (Word.ofInt 64 uaddr) (Word.ofInt 64 count)).map fun r => r.map fun _ => count

/-- The loop of `sys_writev` over the iovecs, with the total so far. -/
def writevLoop (fd : Nat) : List Iovec → Int → Option (Except Errno Int)
  | [], total => some (.ok total)
  | iovec :: iovecs, total =>
    match sysWrite read fd (Word.toSigned 64 iovec.base) (Word.toSigned 64 iovec.len) with
    | none => none
    | some (.error e) => some (.error e)
    | some (.ok n) =>
      -- `total += ...` on `isize`
      match Word.checkedAddSigned 64 total n with
      | none => none
      | some total' => writevLoop fd iovecs total'

/-- `sys_writev(fd, iov_uaddr, iovcnt)`. -/
def sysWritev (fd : Nat) (iovUaddr iovcnt : Int) : Option (Except Errno Int) :=
  if fd ≠ 1 ∧ fd ≠ 2 then some (.error .ebadf)
  else if iovcnt > 16 then some (.error .einval)
  else
    -- the length of the byte view over `iovecs_buf`: `iovcnt as usize * 16`
    match Word.checkedMul 64 (Word.ofInt 64 iovcnt) 16 with
    | none => none
    | some len =>
      match read (Word.ofInt 64 iovUaddr) len with
      | .error _ => some (.error .efault)
      | .ok bytes =>
        -- `&iovecs_buf[..iovcnt as usize]` panics past the 16 iovecs
        if Word.ofInt 64 iovcnt > 16 then none
        else writevLoop read fd ((List.range (Word.ofInt 64 iovcnt)).map (Iovec.decode bytes)) 0

end Calls

/-- For every negative `iovcnt` of an `isize`, on the file descriptors it accepts, `sys_writev`
panics: the length of the byte view overflows. -/
theorem sysWritev_of_neg (read : Nat → Nat → Except ErrorCode (List UInt8)) {fd : Nat}
    (hfd : fd = 1 ∨ fd = 2) (iovUaddr : Int) {iovcnt : Int} (hneg : iovcnt < 0)
    (hmin : -2 ^ 63 ≤ iovcnt) : sysWritev read fd iovUaddr iovcnt = none := by
  have hcast := Word.ofInt_of_neg (w := 64) hneg (by omega)
  have hover : Word.MAX 64 < Word.ofInt 64 iovcnt * 16 := by
    rw [Word.MAX]
    omega
  have hfd' : ¬ (fd ≠ 1 ∧ fd ≠ 2) := by omega
  rw [sysWritev, if_neg hfd', if_neg (by omega), Word.checkedMul_eq_none.mpr hover]

/-- `sys_writev(1, iov_uaddr, -2 ^ 60)` panics, whatever user memory holds. -/
theorem sysWritev_minus_two_pow_60_panics (read : Nat → Nat → Except ErrorCode (List UInt8))
    (iovUaddr : Int) : sysWritev read 1 iovUaddr (-2 ^ 60) = none :=
  sysWritev_of_neg read (.inl rfl) iovUaddr (by decide) (by decide)

end Ftl.Lx

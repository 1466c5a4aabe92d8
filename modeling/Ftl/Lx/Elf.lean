import Mathlib
import Ftl.Elf
import Ftl.Api.Types
import Ftl.Lib.Bytes
import Ftl.Utils.Alignment

/-!
# The initial stack of a Linux program

`servers/lx/src/elf.rs`. Before it starts a program, the Linux server writes its initial stack as
the System V ABI lays it out: `argc`, the `argv` pointers and a null, the `envp` pointers and a
null, the auxiliary vector of eight `(tag, value)` pairs, then the strings of `argv` and `env`, the
16 random bytes that `AT_RANDOM` points at, and padding to a multiple of 16 bytes, the stack
pointer at the start.

The layout is computed twice. `estimate_stack_size` adds the sizes up, checks that every string
ends in NUL and that the total fits in `STACK_SIZE`, and places the stack pointer `total` bytes
below the top of the stack; the pointers in the image are addresses in that layout. Then
`build_initial_stack` emits the image through a `StackWriter`, which checks every write against
the room left and every word against an 8-byte alignment, and writes the buffer at the end of the
stack's area. The two agree (`buildInitialStack_eq`): the image the writer emits is `stackImage`,
it takes exactly the computed total, and no word is ever unaligned.

The strings are slices in the server's memory; the model adds their lengths in unbounded
arithmetic, and rounds those sums up with `alignUpNat`, `align_up` without the overflow of its
sum, which offsets into memory never reach.

## Main definitions

* `Ftl.Lx.StackWriter` and its writes, `Ftl.Lx.estimateStackSize`, `Ftl.Lx.buildInitialStack`.
* `Ftl.Lx.stackTotal`, `Ftl.Lx.stackImage`: the layout the code means.
-/

namespace Ftl.Lx

/-- `STACK_BASE`. -/
def stackBase : Nat := 0x0000_7000_0000_0000

/-- `STACK_SIZE`. -/
def stackSize : Nat := 64 * 1024

/-- `PAGE_SIZE` of `process.rs`. -/
def pageSize : Nat := 4096

/-- `AT_NULL`. -/
def atNull : Nat := 0
/-- `AT_PHDR`. -/
def atPhdr : Nat := 3
/-- `AT_PHENT`. -/
def atPhent : Nat := 4
/-- `AT_PHNUM`. -/
def atPhnum : Nat := 5
/-- `AT_PAGESZ`. -/
def atPagesz : Nat := 6
/-- `AT_ENTRY`. -/
def atEntry : Nat := 9
/-- `AT_RANDOM`. -/
def atRandom : Nat := 25
/-- `AT_EXECFN`. -/
def atExecfn : Nat := 31

/-- `AUXV_COUNT` of `build_initial_stack`. -/
def auxvCount : Nat := 8

/-- `elf::Error`. -/
inductive Error where
  | stackTooSmall
  | unalignedWrite
  | notNulTerminated
  | vmAreaWrite (e : ErrorCode)
  deriving DecidableEq, Repr

/-- `StackWriter`: the bytes written so far and the room left. -/
structure StackWriter where
  buf : List UInt8
  remaining : Nat
  deriving DecidableEq, Repr

namespace StackWriter

/-- `StackWriter::new(max_size)`. -/
def new (maxSize : Nat) : StackWriter := ⟨[], maxSize⟩

/-- `offset()`. -/
def offset (w : StackWriter) : Nat := w.buf.length

/-- `write_bytes(bytes)`. -/
def writeBytes (w : StackWriter) (bytes : List UInt8) : Except Error StackWriter :=
  if w.remaining < bytes.length then .error .stackTooSmall
  else .ok ⟨w.buf ++ bytes, w.remaining - bytes.length⟩

/-- `write_usize(value)`: the eight bytes of `value`, little-endian on x86-64. -/
def writeUsize (w : StackWriter) (value : Nat) : Except Error StackWriter :=
  if !isAligned w.offset 8 then .error .unalignedWrite
  else w.writeBytes (Bytes.ofNatLE 8 value)

/-- `align(align)`: zeros up to the next multiple of `align`. -/
def align (w : StackWriter) (align : Nat) : Except Error StackWriter :=
  let paddingLen := alignUpNat w.offset align - w.offset
  if w.remaining < paddingLen then .error .stackTooSmall
  else .ok ⟨w.buf ++ List.replicate paddingLen 0, w.remaining - paddingLen⟩

/-- `finish(vmarea)`: the buffer written at offset `remaining` of the area, by `write`. -/
def finish (w : StackWriter) (write : Nat → List UInt8 → Except ErrorCode Unit) :
    Except Error Unit :=
  (write w.remaining w.buf).mapError .vmAreaWrite

/-- The loop that writes the pointers to the strings `ss`, the first at `uaddr`. -/
def writePointers (w : StackWriter) (uaddr : Nat) : List (List UInt8) → Except Error StackWriter
  | [] => .ok w
  | s :: ss => do
    let w ← w.writeUsize uaddr
    writePointers w (uaddr + s.length) ss

/-- The loop over the auxiliary vector. -/
def writeAuxv (w : StackWriter) : List (Nat × Nat) → Except Error StackWriter
  | [] => .ok w
  | (tag, value) :: auxv => do
    let w ← w.writeUsize tag
    let w ← w.writeUsize value
    writeAuxv w auxv

/-- The loop that writes the strings `ss`. -/
def writeStrings (w : StackWriter) : List (List UInt8) → Except Error StackWriter
  | [] => .ok w
  | s :: ss => do
    let w ← w.writeBytes s
    writeStrings w ss

end StackWriter

/-- `Layout`. -/
structure Layout where
  sp : Nat
  argvBase : Nat
  envBase : Nat
  randomUaddr : Nat
  deriving DecidableEq, Repr

/-- The loop of `estimate_stack_size` over the strings `ss`: each must end in NUL. -/
def stringsEnd : List (List UInt8) → Nat → Except Error Nat
  | [], offset => .ok offset
  | s :: ss, offset =>
    if s.getLast? ≠ some 0 then .error .notNulTerminated
    else stringsEnd ss (offset + s.length)

/-- `estimate_stack_size(argv, env, random_len, auxv_count)`. -/
def estimateStackSize (argv env : List (List UInt8)) (randomLen auxvCount : Nat) :
    Except Error Layout := do
  -- argc, argv[i], NULL, envp[i], NULL, auxv[i]
  let argvOffset := 8 + 8 * argv.length + 8 + 8 * env.length + 8 + 8 * auxvCount * 2
  let envOffset ← stringsEnd argv argvOffset
  let randomOffset ← stringsEnd env envOffset
  let offset := randomOffset + randomLen
  let pad := alignUpNat offset 16 - offset
  let total := offset + pad
  if total > stackSize then throw .stackTooSmall
  let sp := stackBase + stackSize - total
  pure ⟨sp, sp + argvOffset, sp + envOffset, sp + randomOffset⟩

/-- The auxiliary vector of `build_initial_stack`. -/
def auxv (layout : Layout) (ehdr : Elf.Ehdr) (phdrUaddr : Option Nat) : List (Nat × Nat) :=
  [(atRandom, layout.randomUaddr), (atExecfn, layout.argvBase), (atPhdr, phdrUaddr.getD 0),
    (atPhent, ehdr.phentsize), (atPhnum, ehdr.phnum), (atPagesz, pageSize),
    (atEntry, ehdr.entry), (atNull, 0)]

/-- `build_initial_stack(stack, elf, argv, env, phdr_uaddr, random)`, the stack's area written
by `write`. -/
def buildInitialStack (write : Nat → List UInt8 → Except ErrorCode Unit) (ehdr : Elf.Ehdr)
    (argv env : List (List UInt8)) (phdrUaddr : Option Nat) (random : List.Vector UInt8 16) :
    Except Error Nat := do
  let layout ← estimateStackSize argv env random.toList.length auxvCount
  let w := StackWriter.new stackSize
  let w ← w.writeUsize argv.length
  let w ← w.writePointers layout.argvBase argv
  let w ← w.writeUsize 0
  let w ← w.writePointers layout.envBase env
  let w ← w.writeUsize 0
  let w ← w.writeAuxv (auxv layout ehdr phdrUaddr)
  -- the strings, NUL-terminated as `estimate_stack_size` checked
  let w ← w.writeStrings argv
  let w ← w.writeStrings env
  let w ← w.writeBytes random.toList
  -- align to 16 bytes, as the x86-64 ABI requires
  let w ← w.align 16
  w.finish write
  pure layout.sp

/-- `build_initial_stack` up to its last call: where in the stack's area `finish` writes, what it
writes, and the stack pointer. -/
def emitInitialStack (ehdr : Elf.Ehdr) (argv env : List (List UInt8)) (phdrUaddr : Option Nat)
    (random : List.Vector UInt8 16) : Except Error (Nat × List UInt8 × Nat) := do
  let layout ← estimateStackSize argv env random.toList.length auxvCount
  let w := StackWriter.new stackSize
  let w ← w.writeUsize argv.length
  let w ← w.writePointers layout.argvBase argv
  let w ← w.writeUsize 0
  let w ← w.writePointers layout.envBase env
  let w ← w.writeUsize 0
  let w ← w.writeAuxv (auxv layout ehdr phdrUaddr)
  let w ← w.writeStrings argv
  let w ← w.writeStrings env
  let w ← w.writeBytes random.toList
  let w ← w.align 16
  pure (w.remaining, w.buf, layout.sp)

/-- `build_initial_stack` is the image it emits, written by `finish`. -/
theorem buildInitialStack_eq_emit (write : Nat → List UInt8 → Except ErrorCode Unit)
    (ehdr : Elf.Ehdr) (argv env : List (List UInt8)) (phdrUaddr : Option Nat)
    (random : List.Vector UInt8 16) :
    buildInitialStack write ehdr argv env phdrUaddr random = (do
      let (offset, buf, sp) ← emitInitialStack ehdr argv env phdrUaddr random
      (write offset buf).mapError .vmAreaWrite
      pure sp) := by
  simp only [buildInitialStack, emitInitialStack, StackWriter.finish, bind_assoc, pure_bind]

/-! ### The layout the code means -/

/-- The bytes of the words before the strings: `argc`, the pointers of `argc` and `envc` strings
with their two nulls, and the auxiliary vector. -/
def wordsSize (argc envc : Nat) : Nat := 8 * (3 + argc + envc + 2 * auxvCount)

/-- The end of the random bytes, the strings and the random bytes coming after the words. -/
def randomEnd (argv env : List (List UInt8)) : Nat :=
  wordsSize argv.length env.length + argv.flatten.length + env.flatten.length + 16

/-- The size of the stack image: the random bytes' end rounded up to 16. -/
def stackTotal (argv env : List (List UInt8)) : Nat := (randomEnd argv env + 15) / 16 * 16

/-- The user addresses of the strings `ss`, laid out one after the other from `base`. -/
def pointers (base : Nat) : List (List UInt8) → List Nat
  | [] => []
  | s :: ss => base :: pointers (base + s.length) ss

/-- The layout of the image at the stack pointer. -/
def stackLayout (argv env : List (List UInt8)) : Layout :=
  let sp := stackBase + stackSize - stackTotal argv env
  let argvBase := sp + wordsSize argv.length env.length
  ⟨sp, argvBase, argvBase + argv.flatten.length, argvBase + argv.flatten.length + env.flatten.length⟩

/-- The words of the image: `argc`, the `argv` pointers, a null, the `envp` pointers, a null and
the auxiliary vector. -/
def stackWords (ehdr : Elf.Ehdr) (argv env : List (List UInt8)) (phdrUaddr : Option Nat) : List Nat :=
  let layout := stackLayout argv env
  argv.length :: pointers layout.argvBase argv ++ 0 :: pointers layout.envBase env ++
    0 :: (auxv layout ehdr phdrUaddr).flatMap fun p => [p.1, p.2]

/-- The image of the stack from the stack pointer up: the words, the strings, the random bytes and
the padding. -/
def stackImage (ehdr : Elf.Ehdr) (argv env : List (List UInt8)) (phdrUaddr : Option Nat)
    (random : List.Vector UInt8 16) : List UInt8 :=
  (stackWords ehdr argv env phdrUaddr).flatMap (Bytes.ofNatLE 8) ++ argv.flatten ++ env.flatten ++
    random.toList ++ List.replicate (stackTotal argv env - randomEnd argv env) 0

/-- The `k`-th word of the stack at its pointer. -/
def stackWord (img : List UInt8) (k : Nat) : Nat := Bytes.readLE img (8 * k) 8

/-- The bytes `img` at the stack pointer `sp` are the initial stack of a program with the
arguments `argv`, the environment `env`, the random bytes `random` and the auxiliary vector
`auxv`, as the System V ABI for x86-64 lays it out. -/
structure IsStackImage (img : List UInt8) (sp : Nat) (argv env : List (List UInt8))
    (random : List UInt8) (auxv : List (Nat × Nat)) : Prop where
  argc : stackWord img 0 = argv.length
  argv_ptr : ∀ i (hi : i < argv.length), sp ≤ stackWord img (1 + i) ∧
    Bytes.slice img (stackWord img (1 + i) - sp) argv[i].length = some argv[i]
  argv_null : stackWord img (1 + argv.length) = 0
  env_ptr : ∀ i (hi : i < env.length), sp ≤ stackWord img (2 + argv.length + i) ∧
    Bytes.slice img (stackWord img (2 + argv.length + i) - sp) env[i].length = some env[i]
  env_null : stackWord img (2 + argv.length + env.length) = 0
  auxv_pair : ∀ j (hj : j < auxv.length),
    stackWord img (3 + argv.length + env.length + 2 * j) = auxv[j].1 % 2 ^ 64 ∧
      stackWord img (4 + argv.length + env.length + 2 * j) = auxv[j].2 % 2 ^ 64
  strings : Bytes.slice img (8 * (3 + argv.length + env.length + 2 * auxv.length))
    (argv.flatten.length + env.flatten.length + random.length) =
      some (argv.flatten ++ env.flatten ++ random)
  padding : ∀ b ∈ img.drop (8 * (3 + argv.length + env.length + 2 * auxv.length) +
    argv.flatten.length + env.flatten.length + random.length), b = 0

/-! ### The writer -/

@[simp] theorem ok_bind {ε α β : Type} (a : α) (f : α → Except ε β) : (Except.ok a >>= f) = f a := rfl

@[simp] theorem error_bind {ε α β : Type} (e : ε) (f : α → Except ε β) :
    (Except.error e >>= f) = .error e := rfl

namespace StackWriter

/-- The writer of capacity `cap` that has written `buf`. -/
def filled (cap : Nat) (buf : List UInt8) : StackWriter := ⟨buf, cap - buf.length⟩

theorem new_eq_filled (cap : Nat) : new cap = filled cap [] := rfl

variable {cap : Nat} {buf : List UInt8}

theorem writeBytes_filled {bytes : List UInt8} (h : buf.length + bytes.length ≤ cap) :
    (filled cap buf).writeBytes bytes = .ok (filled cap (buf ++ bytes)) := by
  rw [writeBytes, if_neg (by simp only [filled]; omega), filled, filled, List.length_append,
    Nat.sub_sub]

theorem writeUsize_filled (hal : buf.length % 8 = 0) (h : buf.length + 8 ≤ cap) (value : Nat) :
    (filled cap buf).writeUsize value = .ok (filled cap (buf ++ Bytes.ofNatLE 8 value)) := by
  have haligned : isAligned (filled cap buf).offset 8 = true := by
    rw [show (8 : Nat) = 2 ^ 3 from rfl, isAligned_iff]
    exact hal
  rw [writeUsize, haligned, Bool.not_true, if_neg Bool.false_ne_true,
    writeBytes_filled (by rw [Bytes.length_ofNatLE]; exact h)]

/-- Pointers written at a multiple of 8 with room for them. -/
theorem writePointers_filled : ∀ {buf : List UInt8} (uaddr : Nat) (ss : List (List UInt8)),
    buf.length % 8 = 0 → buf.length + 8 * ss.length ≤ cap →
      (filled cap buf).writePointers uaddr ss =
        .ok (filled cap (buf ++ (pointers uaddr ss).flatMap (Bytes.ofNatLE 8)))
  | buf, _, [], _, _ => by simp [writePointers, pointers]
  | buf, uaddr, s :: ss, hal, h => by
    simp only [List.length_cons] at h
    rw [writePointers, writeUsize_filled hal (by omega), ok_bind,
      writePointers_filled _ ss (by simp; omega) (by simp; omega)]
    simp only [pointers, List.flatMap_cons, List.append_assoc]

theorem writeAuxv_filled : ∀ {buf : List UInt8} (auxv : List (Nat × Nat)),
    buf.length % 8 = 0 → buf.length + 16 * auxv.length ≤ cap →
      (filled cap buf).writeAuxv auxv =
        .ok (filled cap (buf ++ (auxv.flatMap fun p => [p.1, p.2]).flatMap (Bytes.ofNatLE 8)))
  | buf, [], _, _ => by simp [writeAuxv]
  | buf, (tag, value) :: auxv, hal, h => by
    simp only [List.length_cons] at h
    rw [writeAuxv, writeUsize_filled hal (by omega), ok_bind,
      writeUsize_filled (by simp; omega) (by simp; omega), ok_bind,
      writeAuxv_filled auxv (by simp; omega) (by simp; omega)]
    simp only [List.flatMap_cons, List.append_assoc, List.cons_append, List.nil_append]

theorem writeStrings_filled : ∀ {buf : List UInt8} (ss : List (List UInt8)),
    buf.length + ss.flatten.length ≤ cap →
      (filled cap buf).writeStrings ss = .ok (filled cap (buf ++ ss.flatten))
  | buf, [], _ => by simp [writeStrings]
  | buf, s :: ss, h => by
    simp only [List.flatten_cons, List.length_append] at h
    rw [writeStrings, writeBytes_filled (by omega), ok_bind,
      writeStrings_filled ss (by simp only [List.length_append]; omega)]
    simp only [List.flatten_cons, List.append_assoc]

theorem align_filled {a : Nat} (h : alignUpNat buf.length a - buf.length ≤ cap - buf.length) :
    (filled cap buf).align a =
      .ok (filled cap (buf ++ List.replicate (alignUpNat buf.length a - buf.length) 0)) := by
  simp only [align, offset, filled, if_neg (Nat.not_lt.mpr h), List.length_append,
    List.length_replicate, Nat.sub_sub]

end StackWriter

/-! ### The estimate -/

/-- Every string ends in NUL. -/
def Terminated (ss : List (List UInt8)) : Prop := ∀ s ∈ ss, s.getLast? = some 0

theorem stringsEnd_of_terminated : ∀ (ss : List (List UInt8)) (offset : Nat), Terminated ss →
    stringsEnd ss offset = .ok (offset + ss.flatten.length)
  | [], offset, _ => by simp [stringsEnd]
  | s :: ss, offset, h => by
    rw [stringsEnd, if_neg (not_not.mpr (h s List.mem_cons_self)),
      stringsEnd_of_terminated ss _ (fun s' hs' => h s' (List.mem_cons_of_mem _ hs'))]
    simp [Nat.add_assoc]

theorem stringsEnd_of_not_terminated : ∀ (ss : List (List UInt8)) (offset : Nat), ¬ Terminated ss →
    stringsEnd ss offset = .error .notNulTerminated
  | [], _, h => absurd (fun _ hs => absurd hs List.not_mem_nil) h
  | s :: ss, offset, h => by
    rw [stringsEnd]
    split_ifs with hs
    · rfl
    · refine stringsEnd_of_not_terminated ss _ fun hss => h fun s' hs' => ?_
      rcases List.mem_cons.mp hs' with rfl | hs'
      · exact not_not.mp hs
      · exact hss s' hs'

/-- The total `estimate_stack_size` computes is `stackTotal` whenever rounding up does not
overflow; otherwise both are past `STACK_SIZE`. -/
theorem estimate_total (offset : Nat) :
    (stackSize < offset + (alignUpNat offset 16 - offset) ↔ stackSize < (offset + 15) / 16 * 16) ∧
      ((offset + 15) / 16 * 16 ≤ stackSize →
        offset + (alignUpNat offset 16 - offset) = (offset + 15) / 16 * 16) := by
  by_cases hsmall : offset + 15 < 2 ^ 64
  · have hup : alignUpNat offset 16 = (offset + 15) / 16 * 16 :=
      @alignUpNat_eq 4 offset (by decide) (by simpa using hsmall)
    rw [hup]
    constructor <;> omega
  · have hsize : stackSize = 65536 := rfl
    constructor <;> omega

/-- With every string ending in NUL, the estimate fails exactly when the total passes
`STACK_SIZE`, and otherwise gives `stackLayout`. -/
theorem estimateStackSize_of_terminated {argv env : List (List UInt8)}
    (hargv : Terminated argv) (henv : Terminated env) :
    estimateStackSize argv env 16 auxvCount =
      if stackSize < stackTotal argv env then .error .stackTooSmall
      else .ok (stackLayout argv env) := by
  have hwords : 8 + 8 * argv.length + 8 + 8 * env.length + 8 + 8 * auxvCount * 2 =
      wordsSize argv.length env.length := by
    simp only [wordsSize, auxvCount]
    omega
  obtain ⟨hiff, heq⟩ := estimate_total (randomEnd argv env)
  simp only [estimateStackSize, hwords, stringsEnd_of_terminated _ _ hargv, ok_bind,
    stringsEnd_of_terminated _ _ henv]
  have hend : wordsSize argv.length env.length + argv.flatten.length + env.flatten.length + 16 =
      randomEnd argv env := rfl
  rw [hend]
  by_cases htoo : stackSize < stackTotal argv env
  · rw [if_pos (hiff.mpr htoo), if_pos htoo]
    rfl
  · rw [if_neg (fun h => htoo (hiff.mp h)), if_neg htoo, heq (Nat.le_of_not_lt htoo)]
    simp only [stackLayout, stackTotal, Nat.add_assoc]
    rfl

theorem estimateStackSize_of_not_terminated {argv env : List (List UInt8)} {randomLen c : Nat}
    (h : ¬ (Terminated argv ∧ Terminated env)) :
    estimateStackSize argv env randomLen c = .error .notNulTerminated := by
  by_cases hargv : Terminated argv
  · have henv : ¬ Terminated env := fun henv => h ⟨hargv, henv⟩
    simp only [estimateStackSize, stringsEnd_of_terminated _ _ hargv, ok_bind,
      stringsEnd_of_not_terminated _ _ henv, error_bind]
  · simp only [estimateStackSize, stringsEnd_of_not_terminated _ _ hargv, error_bind]

/-! ### The image the writer emits -/

@[simp] theorem length_flatMap_ofNatLE (ws : List Nat) :
    (ws.flatMap (Bytes.ofNatLE 8)).length = 8 * ws.length := by
  induction ws with
  | nil => rfl
  | cons w ws ih => simp [List.flatMap_cons, ih]; ring

@[simp] theorem length_flatMap_pair (ps : List (Nat × Nat)) :
    (ps.flatMap fun p => [p.1, p.2]).length = 2 * ps.length := by
  induction ps with
  | nil => rfl
  | cons p ps ih => simp [List.flatMap_cons, ih]; ring

@[simp] theorem length_pointers (base : Nat) (ss : List (List UInt8)) :
    (pointers base ss).length = ss.length := by
  induction ss generalizing base with
  | nil => rfl
  | cons s ss ih => simp [pointers, ih]

theorem randomEnd_le_stackTotal (argv env : List (List UInt8)) :
    randomEnd argv env ≤ stackTotal argv env := by
  unfold stackTotal
  omega

@[simp] theorem length_auxv (layout : Layout) (ehdr : Elf.Ehdr) (phdrUaddr : Option Nat) :
    (auxv layout ehdr phdrUaddr).length = auxvCount := rfl

theorem flatMap_stackWords (ehdr : Elf.Ehdr) (argv env : List (List UInt8)) (phdrUaddr : Option Nat) :
    (stackWords ehdr argv env phdrUaddr).flatMap (Bytes.ofNatLE 8) =
      Bytes.ofNatLE 8 argv.length ++
        (pointers (stackLayout argv env).argvBase argv).flatMap (Bytes.ofNatLE 8) ++
        Bytes.ofNatLE 8 0 ++ (pointers (stackLayout argv env).envBase env).flatMap (Bytes.ofNatLE 8) ++
        Bytes.ofNatLE 8 0 ++
        ((auxv (stackLayout argv env) ehdr phdrUaddr).flatMap fun p => [p.1, p.2]).flatMap
          (Bytes.ofNatLE 8) := by
  simp [stackWords, List.flatMap_append, List.append_assoc]

theorem length_stackWords (ehdr : Elf.Ehdr) (argv env : List (List UInt8)) (phdrUaddr : Option Nat) :
    8 * (stackWords ehdr argv env phdrUaddr).length = wordsSize argv.length env.length := by
  simp only [stackWords, List.length_cons, List.length_append, length_pointers, length_flatMap_pair,
    length_auxv, wordsSize, auxvCount]
  omega

theorem length_stackPrefix (ehdr : Elf.Ehdr) (argv env : List (List UInt8)) (phdrUaddr : Option Nat)
    (random : List.Vector UInt8 16) :
    ((stackWords ehdr argv env phdrUaddr).flatMap (Bytes.ofNatLE 8) ++ argv.flatten ++ env.flatten ++
      random.toList).length = randomEnd argv env := by
  simp only [List.length_append, length_flatMap_ofNatLE, length_stackWords, List.Vector.toList_length]
  rfl

/-- The image runs from the stack pointer up to the top of the stack. -/
theorem length_stackImage (ehdr : Elf.Ehdr) (argv env : List (List UInt8)) (phdrUaddr : Option Nat)
    (random : List.Vector UInt8 16) :
    (stackImage ehdr argv env phdrUaddr random).length = stackTotal argv env := by
  have hT := randomEnd_le_stackTotal argv env
  rw [stackImage, List.length_append, length_stackPrefix, List.length_replicate]
  omega

/-! ### The layout of the image -/

theorem getElem?_pointers (ss : List (List UInt8)) :
    ∀ (base : Nat) {i : Nat}, i < ss.length →
      (pointers base ss)[i]? = some (base + ((ss.take i).map List.length).sum) := by
  induction ss with
  | nil => intro base i hi; simp at hi
  | cons s ss ih =>
    intro base i hi
    cases i with
    | zero => simp [pointers]
    | succ i =>
      rw [pointers, List.getElem?_cons_succ, ih _ (by simpa using hi)]
      simp [Nat.add_assoc]

section Words

variable (ehdr : Elf.Ehdr) (argv env : List (List UInt8)) (phdrUaddr : Option Nat)

theorem stackWords_argc : (stackWords ehdr argv env phdrUaddr)[0]? = some argv.length := by
  simp [stackWords]

theorem stackWords_argv {i : Nat} (hi : i < argv.length) :
    (stackWords ehdr argv env phdrUaddr)[1 + i]? =
      some ((stackLayout argv env).argvBase + ((argv.take i).map List.length).sum) := by
  rw [← getElem?_pointers argv _ hi]
  simp only [stackWords, List.getElem?_append, List.getElem?_cons, List.length_cons,
    List.length_append, length_pointers]
  split_ifs <;> first | omega | (congr 1; omega)

theorem stackWords_argvNull : (stackWords ehdr argv env phdrUaddr)[1 + argv.length]? = some 0 := by
  simp only [stackWords, List.getElem?_append, List.getElem?_cons, List.length_cons,
    List.length_append, length_pointers]
  split_ifs <;> first | omega | rfl

theorem stackWords_env {i : Nat} (hi : i < env.length) :
    (stackWords ehdr argv env phdrUaddr)[2 + argv.length + i]? =
      some ((stackLayout argv env).envBase + ((env.take i).map List.length).sum) := by
  rw [← getElem?_pointers env _ hi]
  simp only [stackWords, List.getElem?_append, List.getElem?_cons, List.length_cons,
    List.length_append, length_pointers]
  split_ifs <;> first | omega | (congr 1; omega)

theorem stackWords_envNull :
    (stackWords ehdr argv env phdrUaddr)[2 + argv.length + env.length]? = some 0 := by
  simp only [stackWords, List.getElem?_append, List.getElem?_cons, List.length_cons,
    List.length_append, length_pointers]
  split_ifs <;> first | omega | rfl

theorem getElem?_flatMap_pair : ∀ (ps : List (Nat × Nat)) (j : Nat),
    (ps.flatMap fun p => [p.1, p.2])[2 * j]? = ps[j]?.map Prod.fst ∧
      (ps.flatMap fun p => [p.1, p.2])[2 * j + 1]? = ps[j]?.map Prod.snd
  | [], _ => by simp
  | p :: ps, 0 => by simp
  | p :: ps, j + 1 => by
    simp only [List.flatMap_cons, List.cons_append, List.nil_append, List.getElem?_cons_succ,
      show 2 * (j + 1) = 2 * j + 1 + 1 by ring]
    exact getElem?_flatMap_pair ps j

theorem stackWords_auxv (j : Nat) :
    (stackWords ehdr argv env phdrUaddr)[3 + argv.length + env.length + 2 * j]? =
        (auxv (stackLayout argv env) ehdr phdrUaddr)[j]?.map Prod.fst ∧
      (stackWords ehdr argv env phdrUaddr)[4 + argv.length + env.length + 2 * j]? =
        (auxv (stackLayout argv env) ehdr phdrUaddr)[j]?.map Prod.snd := by
  obtain ⟨hfst, hsnd⟩ := getElem?_flatMap_pair (auxv (stackLayout argv env) ehdr phdrUaddr) j
  rw [← hfst, ← hsnd]
  simp only [stackWords, List.getElem?_append, List.getElem?_cons, List.length_cons,
    List.length_append, length_pointers]
  constructor <;> split_ifs <;> first | omega | (congr 1; omega)

end Words

theorem stackImage_assoc (ehdr : Elf.Ehdr) (argv env : List (List UInt8)) (phdrUaddr : Option Nat)
    (random : List.Vector UInt8 16) :
    stackImage ehdr argv env phdrUaddr random =
      (stackWords ehdr argv env phdrUaddr).flatMap (Bytes.ofNatLE 8) ++ (argv.flatten ++
        (env.flatten ++ (random.toList ++
          List.replicate (stackTotal argv env - randomEnd argv env) 0))) := by
  simp only [stackImage, List.append_assoc]

/-- `AT_RANDOM` points at the random bytes. -/
theorem slice_stackImage_random (ehdr : Elf.Ehdr) (argv env : List (List UInt8))
    (phdrUaddr : Option Nat) (random : List.Vector UInt8 16) :
    Bytes.slice (stackImage ehdr argv env phdrUaddr random)
      ((stackLayout argv env).randomUaddr - (stackLayout argv env).sp) 16 = some random.toList := by
  have hW := length_stackWords ehdr argv env phdrUaddr
  have hoff : (stackLayout argv env).randomUaddr - (stackLayout argv env).sp =
      ((stackWords ehdr argv env phdrUaddr).flatMap (Bytes.ofNatLE 8)).length +
        (argv.flatten.length + (env.flatten.length + 0)) := by
    simp only [stackLayout, length_flatMap_ofNatLE]
    omega
  rw [hoff, stackImage_assoc, Bytes.slice_append_right (Nat.le_add_right _ _), Nat.add_sub_cancel_left,
    Bytes.slice_append_right (Nat.le_add_right _ _), Nat.add_sub_cancel_left,
    Bytes.slice_append_right (Nat.le_add_right _ _), Nat.add_sub_cancel_left,
    Bytes.slice_append_of_slice (by simpa using Bytes.slice_self random.toList)]

/-- `AT_EXECFN` points at the bytes of `argv[0]`. -/
theorem slice_stackImage_execfn (ehdr : Elf.Ehdr) {argv : List (List UInt8)} (env : List (List UInt8))
    (phdrUaddr : Option Nat) (random : List.Vector UInt8 16) (hne : 0 < argv.length) :
    Bytes.slice (stackImage ehdr argv env phdrUaddr random)
      ((stackLayout argv env).argvBase - (stackLayout argv env).sp) argv[0].length = some argv[0] := by
  have hW := length_stackWords ehdr argv env phdrUaddr
  have hsl := Bytes.slice_flatten argv 0 hne
  simp only [List.take_zero, List.map_nil, List.sum_nil] at hsl
  have hoff : (stackLayout argv env).argvBase - (stackLayout argv env).sp =
      ((stackWords ehdr argv env phdrUaddr).flatMap (Bytes.ofNatLE 8)).length + 0 := by
    simp only [stackLayout, length_flatMap_ofNatLE]
    omega
  rw [hoff, stackImage_assoc, Bytes.slice_append_right (Nat.le_add_right _ _), Nat.add_sub_cancel_left,
    Bytes.slice_append_of_slice hsl]

/-- With a total within `STACK_SIZE`, `stackImage` is the initial stack its pointers describe:
every pointer of `argv` and `envp` is the address of its string's bytes. -/
theorem isStackImage_stackImage (ehdr : Elf.Ehdr) {argv env : List (List UInt8)}
    (phdrUaddr : Option Nat) (random : List.Vector UInt8 16) (hfit : stackTotal argv env ≤ stackSize) :
    IsStackImage (stackImage ehdr argv env phdrUaddr random) (stackLayout argv env).sp argv env
      random.toList (auxv (stackLayout argv env) ehdr phdrUaddr) := by
  set words := stackWords ehdr argv env phdrUaddr
  set pad := List.replicate (stackTotal argv env - randomEnd argv env) (0 : UInt8)
  have himg : stackImage ehdr argv env phdrUaddr random =
      words.flatMap (Bytes.ofNatLE 8) ++ (argv.flatten ++ (env.flatten ++ (random.toList ++ pad))) :=
    stackImage_assoc ehdr argv env phdrUaddr random
  have hW : (words.flatMap (Bytes.ofNatLE 8)).length = wordsSize argv.length env.length := by
    rw [length_flatMap_ofNatLE, length_stackWords]
  have hT := randomEnd_le_stackTotal argv env
  have hrandom : random.toList.length = 16 := random.toList_length
  have hsizes : stackSize = 65536 ∧ stackBase + stackSize < 2 ^ 64 := ⟨rfl, by decide⟩
  have hsp : (stackLayout argv env).sp + stackTotal argv env = stackBase + stackSize := by
    simp only [stackLayout]
    omega
  unfold randomEnd at hT
  have hword : ∀ {k v : Nat}, words[k]? = some v → v < 2 ^ 64 →
      stackWord (stackImage ehdr argv env phdrUaddr random) k = v := by
    intro k v hk hv
    rw [stackWord, himg, Bytes.readLE_flatMap_ofNatLE hk, Nat.mod_eq_of_lt (by simpa using hv)]
  refine ⟨?argcWord, ?argvPtr, ?argvNull, ?envPtr, ?envNull, ?auxvPair, ?stringsSlice, ?paddingZero⟩
  case argcWord =>
    refine hword (stackWords_argc ehdr argv env phdrUaddr) ?_
    simp only [wordsSize, auxvCount] at hT
    omega
  case argvPtr =>
    intro i hi
    have hsl := Bytes.slice_flatten argv i hi
    have hb := (Bytes.slice_eq_some hsl).1
    rw [hword (stackWords_argv ehdr argv env phdrUaddr hi) (by simp only [stackLayout]; omega)]
    refine ⟨by simp only [stackLayout]; omega, ?_⟩
    rw [show (stackLayout argv env).argvBase + ((argv.take i).map List.length).sum -
        (stackLayout argv env).sp = (words.flatMap (Bytes.ofNatLE 8)).length +
          ((argv.take i).map List.length).sum by simp only [stackLayout, hW]; omega,
      himg, Bytes.slice_append_right (by omega), Nat.add_sub_cancel_left,
      Bytes.slice_append_of_slice hsl]
  case argvNull =>
    exact hword (stackWords_argvNull ehdr argv env phdrUaddr) (by decide)
  case envPtr =>
    intro i hi
    have hsl := Bytes.slice_flatten env i hi
    have hb := (Bytes.slice_eq_some hsl).1
    rw [hword (stackWords_env ehdr argv env phdrUaddr hi) (by simp only [stackLayout]; omega)]
    refine ⟨by simp only [stackLayout]; omega, ?_⟩
    rw [show (stackLayout argv env).envBase + ((env.take i).map List.length).sum -
        (stackLayout argv env).sp = (words.flatMap (Bytes.ofNatLE 8)).length + argv.flatten.length +
          ((env.take i).map List.length).sum by simp only [stackLayout, hW]; omega,
      himg, Bytes.slice_append_right (by omega), Nat.add_assoc, Nat.add_sub_cancel_left,
      Bytes.slice_append_right (by omega), Nat.add_sub_cancel_left, Bytes.slice_append_of_slice hsl]
  case envNull =>
    exact hword (stackWords_envNull ehdr argv env phdrUaddr) (by decide)
  case auxvPair =>
    intro j hj
    obtain ⟨hfst, hsnd⟩ := stackWords_auxv ehdr argv env phdrUaddr j
    rw [List.getElem?_eq_getElem hj, Option.map_some] at hfst hsnd
    simp only [stackWord, himg]
    rw [Bytes.readLE_flatMap_ofNatLE hfst, Bytes.readLE_flatMap_ofNatLE hsnd]
    exact ⟨rfl, rfl⟩
  case stringsSlice =>
    have hsl := Bytes.slice_append_of_slice
      (Bytes.slice_self (argv.flatten ++ env.flatten ++ random.toList)) pad
    rw [himg, length_auxv, Bytes.slice_append_right (by simp only [hW, wordsSize]; omega)]
    simpa only [hW, wordsSize, Nat.sub_self, List.length_append, List.append_assoc, hrandom,
      Nat.add_assoc] using hsl
  case paddingZero =>
    intro b hb
    have hpre : (words.flatMap (Bytes.ofNatLE 8) ++ argv.flatten ++ env.flatten ++ random.toList).length =
        8 * (3 + argv.length + env.length + 2 * (auxv (stackLayout argv env) ehdr phdrUaddr).length) +
          argv.flatten.length + env.flatten.length + random.toList.length := by
      simp only [List.length_append, hW, wordsSize, length_auxv]
    rw [← hpre, stackImage, List.drop_left] at hb
    exact List.eq_of_mem_replicate hb

section Build

variable (write : Nat → List UInt8 → Except ErrorCode Unit) (ehdr : Elf.Ehdr)
  {argv env : List (List UInt8)} (phdrUaddr : Option Nat) (random : List.Vector UInt8 16)

/-- With all strings ending in NUL and a total within `STACK_SIZE`, the writer emits
`stackImage` and writes it at the end of the stack's area, and the stack pointer is returned. -/
theorem buildInitialStack_of_fits (hargv : Terminated argv) (henv : Terminated env)
    (hfit : stackTotal argv env ≤ stackSize) :
    buildInitialStack write ehdr argv env phdrUaddr random =
      ((write (stackSize - stackTotal argv env) (stackImage ehdr argv env phdrUaddr random)).mapError
        .vmAreaWrite >>= fun _ => pure (stackLayout argv env).sp) := by
  have hT := randomEnd_le_stackTotal argv env
  have hend : randomEnd argv env = 8 * (3 + argv.length + env.length + 2 * auxvCount) +
      argv.flatten.length + env.flatten.length + 16 := rfl
  have hcount : auxvCount = 8 := rfl
  have hauxv (L : Layout) : (auxv L ehdr phdrUaddr).length = 8 := rfl
  have hrandom : random.toList.length = 16 := random.toList_length
  have hpad : alignUpNat (randomEnd argv env) 16 - randomEnd argv env =
      stackTotal argv env - randomEnd argv env := by
    rw [show (16 : Nat) = 2 ^ 4 from rfl, alignUpNat_eq (by decide) (by
      have : stackSize = 65536 := rfl
      omega)]
    rfl
  rw [buildInitialStack, hrandom, estimateStackSize_of_terminated hargv henv,
    if_neg (Nat.not_lt.mpr hfit), ok_bind, StackWriter.new_eq_filled]
  dsimp only
  rw [StackWriter.writeUsize_filled (by rfl) ?_, ok_bind,
    StackWriter.writePointers_filled _ _ ?_ ?_, ok_bind,
    StackWriter.writeUsize_filled ?_ ?_, ok_bind,
    StackWriter.writePointers_filled _ _ ?_ ?_, ok_bind,
    StackWriter.writeUsize_filled ?_ ?_, ok_bind,
    StackWriter.writeAuxv_filled _ ?_ ?_, ok_bind,
    StackWriter.writeStrings_filled _ ?_, ok_bind,
    StackWriter.writeStrings_filled _ ?_, ok_bind,
    StackWriter.writeBytes_filled ?_, ok_bind]
  · rw [List.nil_append, ← flatMap_stackWords, StackWriter.align_filled
      (by rw [length_stackPrefix, hpad]; omega), ok_bind, length_stackPrefix, hpad]
    show (StackWriter.filled stackSize (stackImage ehdr argv env phdrUaddr random)).finish write >>= _ = _
    rw [StackWriter.finish, StackWriter.filled, length_stackImage]
  all_goals simp only [List.length_append, List.length_nil, Bytes.length_ofNatLE,
    length_flatMap_ofNatLE, length_pointers, length_flatMap_pair, hauxv, hrandom]
  all_goals omega

/-- With all strings ending in NUL and a total within `STACK_SIZE`, the writer emits `stackImage`
for the end of the stack's area. -/
theorem emitInitialStack_of_fits (hargv : Terminated argv) (henv : Terminated env)
    (hfit : stackTotal argv env ≤ stackSize) :
    emitInitialStack ehdr argv env phdrUaddr random = .ok (stackSize - stackTotal argv env,
      stackImage ehdr argv env phdrUaddr random, (stackLayout argv env).sp) := by
  have h := buildInitialStack_of_fits (fun offset buf =>
    if offset = stackSize - stackTotal argv env ∧ buf = stackImage ehdr argv env phdrUaddr random
    then .ok () else .error .invalidArg) ehdr phdrUaddr random hargv henv hfit
  rw [buildInitialStack_eq_emit, if_pos ⟨rfl, rfl⟩] at h
  rcases hemit : emitInitialStack ehdr argv env phdrUaddr random with e | ⟨offset, buf, sp⟩
  · rw [hemit] at h
    cases h
  · rw [hemit] at h
    by_cases hw : offset = stackSize - stackTotal argv env ∧
      buf = stackImage ehdr argv env phdrUaddr random
    · simp only [hw] at h
      obtain ⟨rfl, rfl⟩ := hw
      simp only [ok_bind] at h
      cases h
      rfl
    · simp only [hw, if_false, ok_bind] at h
      cases h

theorem buildInitialStack_of_not_terminated (h : ¬ (Terminated argv ∧ Terminated env)) :
    buildInitialStack write ehdr argv env phdrUaddr random = .error .notNulTerminated := by
  rw [buildInitialStack, estimateStackSize_of_not_terminated h]
  rfl

theorem buildInitialStack_of_too_small (hargv : Terminated argv) (henv : Terminated env)
    (h : stackSize < stackTotal argv env) :
    buildInitialStack write ehdr argv env phdrUaddr random = .error .stackTooSmall := by
  rw [buildInitialStack, random.toList_length, estimateStackSize_of_terminated hargv henv, if_pos h]
  rfl

end Build

/-- After the writer, the call fails only as the area's write does. -/
theorem finish_ne_error (x : Except ErrorCode Unit) (sp : Nat) {e : Error}
    (he : ∀ c, e ≠ .vmAreaWrite c) : (x.mapError .vmAreaWrite >>= fun _ => pure sp) ≠ .error e := by
  cases x with
  | error c => exact fun h => he c (by cases h; rfl)
  | ok _ => exact fun h => by cases h

theorem terminated_append_iff {argv env : List (List UInt8)} :
    (∀ s ∈ argv ++ env, s.getLast? = some 0) ↔ Terminated argv ∧ Terminated env := by
  simp only [List.mem_append, or_imp, forall_and, Terminated]

/-- `build_initial_stack` returns `NotNulTerminated` exactly when a string does not end in NUL,
`StackTooSmall` exactly when the precomputed total passes `STACK_SIZE`, and never
`UnalignedWrite`. Otherwise it writes `stackImage` from the 16-aligned stack pointer up to the top
of the stack, and returns the stack pointer: `argc`, the `argv` and `envp` pointers, each the
address of its string's bytes, the auxiliary vector with `AT_RANDOM` at the random bytes and
`AT_EXECFN` at `argv[0]`, the strings, the random bytes and the padding. -/
theorem buildInitialStack_matches_layout (write : Nat → List UInt8 → Except ErrorCode Unit)
    (ehdr : Elf.Ehdr) (argv env : List (List UInt8)) (phdrUaddr : Option Nat)
    (random : List.Vector UInt8 16) :
    (buildInitialStack write ehdr argv env phdrUaddr random = .error .notNulTerminated ↔
      ∃ s ∈ argv ++ env, s.getLast? ≠ some 0) ∧
    (buildInitialStack write ehdr argv env phdrUaddr random = .error .stackTooSmall ↔
      (∀ s ∈ argv ++ env, s.getLast? = some 0) ∧ stackSize < stackTotal argv env) ∧
    buildInitialStack write ehdr argv env phdrUaddr random ≠ .error .unalignedWrite ∧
    ((∀ s ∈ argv ++ env, s.getLast? = some 0) → stackTotal argv env ≤ stackSize →
      buildInitialStack write ehdr argv env phdrUaddr random =
        ((write (stackSize - stackTotal argv env) (stackImage ehdr argv env phdrUaddr random)).mapError
          .vmAreaWrite >>= fun _ => pure (stackLayout argv env).sp) ∧
      (stackLayout argv env).sp = stackBase + stackSize - stackTotal argv env ∧
      (stackLayout argv env).sp % 16 = 0 ∧
      (stackLayout argv env).sp + (stackImage ehdr argv env phdrUaddr random).length =
        stackBase + stackSize ∧
      IsStackImage (stackImage ehdr argv env phdrUaddr random) (stackLayout argv env).sp argv env
        random.toList (auxv (stackLayout argv env) ehdr phdrUaddr) ∧
      (auxv (stackLayout argv env) ehdr phdrUaddr).take 2 =
        [(atRandom, (stackLayout argv env).randomUaddr), (atExecfn, (stackLayout argv env).argvBase)] ∧
      Bytes.slice (stackImage ehdr argv env phdrUaddr random)
        ((stackLayout argv env).randomUaddr - (stackLayout argv env).sp) 16 = some random.toList ∧
      ∀ hne : 0 < argv.length, Bytes.slice (stackImage ehdr argv env phdrUaddr random)
        ((stackLayout argv env).argvBase - (stackLayout argv env).sp) argv[0].length =
          some argv[0]) := by
  have hnot : (∃ s ∈ argv ++ env, s.getLast? ≠ some 0) ↔ ¬ (Terminated argv ∧ Terminated env) := by
    rw [← terminated_append_iff]
    simp only [not_forall, exists_prop, ne_eq]
  rw [hnot, terminated_append_iff]
  by_cases hterm : Terminated argv ∧ Terminated env
  · by_cases hfit : stackTotal argv env ≤ stackSize
    · have hrun := buildInitialStack_of_fits write ehdr phdrUaddr random hterm.1 hterm.2 hfit
      have hT := randomEnd_le_stackTotal argv env
      have hsp : (stackLayout argv env).sp + stackTotal argv env = stackBase + stackSize := by
        simp only [stackLayout]
        omega
      refine ⟨iff_of_false (hrun ▸ finish_ne_error _ _ (fun _ => by simp)) (not_not.mpr hterm),
        iff_of_false (hrun ▸ finish_ne_error _ _ (fun _ => by simp)) (fun h => absurd h.2 (by omega)),
        hrun ▸ finish_ne_error _ _ (fun _ => by simp), fun _ _ => ⟨hrun, rfl, ?_, ?_,
        isStackImage_stackImage ehdr phdrUaddr random hfit, rfl,
        slice_stackImage_random ehdr argv env phdrUaddr random,
        slice_stackImage_execfn ehdr env phdrUaddr random⟩⟩
      · simp only [stackLayout, stackTotal, stackBase, stackSize] at hfit ⊢
        omega
      · rw [length_stackImage, hsp]
    · have hrun := buildInitialStack_of_too_small write ehdr phdrUaddr random hterm.1 hterm.2
        (Nat.lt_of_not_le hfit)
      rw [hrun]
      exact ⟨iff_of_false (by simp) (not_not.mpr hterm), iff_of_true rfl ⟨hterm, Nat.lt_of_not_le hfit⟩,
        by simp, fun h₁ h₂ => absurd h₂ hfit⟩
  · have hrun := buildInitialStack_of_not_terminated write ehdr phdrUaddr random hterm
    rw [hrun]
    exact ⟨iff_of_true rfl hterm, iff_of_false (by simp) (fun h => hterm h.1), by simp,
      fun h => absurd h hterm⟩

/-- The stack of `hello -v` with `HOME=/` and `TERM=vt100` in its environment and sixteen `'4'`
as its random bytes. -/
theorem buildInitialStack_matches_layout_env :
    ((∀ s ∈ [[0x68, 0x65, 0x6c, 0x6c, 0x6f, 0], [0x2d, 0x76, 0]] ++
        [[0x48, 0x4f, 0x4d, 0x45, 0x3d, 0x2f, 0], [0x54, 0x45, 0x52, 0x4d, 0x3d, 0x76, 0x74, 0x31,
          0x30, 0x30, 0]], s.getLast? = some 0) ∧
      stackTotal [[0x68, 0x65, 0x6c, 0x6c, 0x6f, 0], [0x2d, 0x76, 0]]
        [[0x48, 0x4f, 0x4d, 0x45, 0x3d, 0x2f, 0], [0x54, 0x45, 0x52, 0x4d, 0x3d, 0x76, 0x74, 0x31,
          0x30, 0x30, 0]] ≤ stackSize) ∧
    buildInitialStack (fun _ _ => .ok ()) ⟨[], 2, 62, 0x40_1000, 64, 64, 56, 1⟩
        [[0x68, 0x65, 0x6c, 0x6c, 0x6f, 0], [0x2d, 0x76, 0]]
        [[0x48, 0x4f, 0x4d, 0x45, 0x3d, 0x2f, 0], [0x54, 0x45, 0x52, 0x4d, 0x3d, 0x76, 0x74, 0x31,
          0x30, 0x30, 0]] none ⟨List.replicate 16 0x34, List.length_replicate⟩ =
      .ok (stackLayout [[0x68, 0x65, 0x6c, 0x6c, 0x6f, 0], [0x2d, 0x76, 0]]
        [[0x48, 0x4f, 0x4d, 0x45, 0x3d, 0x2f, 0], [0x54, 0x45, 0x52, 0x4d, 0x3d, 0x76, 0x74, 0x31,
          0x30, 0x30, 0]]).sp :=
  ⟨⟨by decide, by decide⟩, ((buildInitialStack_matches_layout _ _ _ _ _ _).2.2.2 (by decide)
    (by decide)).1.trans rfl⟩

end Ftl.Lx

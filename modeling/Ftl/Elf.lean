import Mathlib
import Ftl.Lib.Word
import Ftl.Lib.Bytes

/-!
# The ELF header parser

`libs/rust/ftl_elf/src/lib.rs`. `Elf::parse(buf, expected_type)` reads the ELF header at the start
of `buf` by casting the buffer's pointer, checks its magic, type, machine and the sizes of the
header and of a program header, checks that the program header table `e_phoff ..
e_phoff + e_phnum * size_of::<Phdr>()` fits in `buf`, and returns the header with a slice of
`e_phnum` program headers at `e_phoff`.

The structs are `#[repr(C)]` and the target is little-endian, so a field is the little-endian
word at its offset (`Bytes.readLE`). Only the fields some modelled code reads are kept. The result
is `none` when the code panics: the sum `e_phoff as usize + phdrs_size` is a `usize` addition,
which panics on overflow in the default (debug) profile.

`e_phoff` is the file's own 64-bit value: for `e_phoff` near `2 ^ 64` the sum overflows, and
`parse` panics on a header that passes every other check (`parse_eq_none_iff`). In the release
profile the sum wraps instead, and `parse` accepts a table that lies past the end of `buf`.

## Main definitions

* `Ftl.Elf.Ehdr`, `Ftl.Elf.Phdr`, `Ftl.Elf` and their decoders.
* `Ftl.Elf.parse`.

## Main results

* `Ftl.Elf.parse_eq_none_iff`: `parse` panics exactly when the table's end overflows.
-/

namespace Ftl

namespace Elf

/-- `size_of::<Ehdr>()`. -/
def ehdrSize : Nat := 64

/-- `size_of::<Phdr>()`. -/
def phdrSize : Nat := 56

/-- `EM_NATIVE` on x86-64. -/
def emNative : Nat := 62

/-- `ET_EXEC`. -/
def etExec : Nat := 2

/-- `ET_DYN`. -/
def etDyn : Nat := 3

/-- `PhdrType`, the segment types the source names. -/
inductive PhdrType where
  | null
  | load
  | dynamic
  | interp
  | note
  | shLib
  | phdr
  | tls
  deriving DecidableEq, Repr

/-- `PhdrType as u32`. -/
def PhdrType.toNat : PhdrType → Nat
  | .null => 0
  | .load => 1
  | .dynamic => 2
  | .interp => 3
  | .note => 4
  | .shLib => 5
  | .phdr => 6
  | .tls => 7

/-- `Ehdr`: the fields some modelled code reads. -/
structure Ehdr where
  ident : List UInt8
  type : Nat
  machine : Nat
  entry : Nat
  phoff : Nat
  ehsize : Nat
  phentsize : Nat
  phnum : Nat
  deriving DecidableEq, Repr

/-- The header at the start of `buf`, as the cast `&*(buf.as_ptr() as *const Ehdr)` reads it. -/
def Ehdr.decode (buf : List UInt8) : Ehdr where
  ident := buf.take 16
  type := Bytes.readLE buf 16 2
  machine := Bytes.readLE buf 18 2
  entry := Bytes.readLE buf 24 8
  phoff := Bytes.readLE buf 32 8
  ehsize := Bytes.readLE buf 52 2
  phentsize := Bytes.readLE buf 54 2
  phnum := Bytes.readLE buf 56 2

/-- `Phdr64`: the fields some modelled code reads. -/
structure Phdr where
  type : Nat
  flags : Nat
  offset : Nat
  vaddr : Nat
  filesz : Nat
  memsz : Nat
  deriving DecidableEq, Repr

/-- The program header at offset `off` of `buf`. -/
def Phdr.decode (buf : List UInt8) (off : Nat) : Phdr where
  type := Bytes.readLE buf off 4
  flags := Bytes.readLE buf (off + 4) 4
  offset := Bytes.readLE buf (off + 8) 8
  vaddr := Bytes.readLE buf (off + 16) 8
  filesz := Bytes.readLE buf (off + 32) 8
  memsz := Bytes.readLE buf (off + 40) 8

/-- `Phdr::writable`. -/
def Phdr.writable (p : Phdr) : Bool := p.flags &&& 0x2 != 0

/-- `Phdr::executable`. -/
def Phdr.executable (p : Phdr) : Bool := p.flags &&& 0x1 != 0

/-- `ParseError`. -/
inductive ParseError where
  | bufferTooShort
  | invalidMagic
  | invalidEtype
  | invalidMachine
  | invalidEhdrSize
  | invalidPhdrSize
  deriving DecidableEq, Repr

end Elf

/-- `Elf`: the header and the program headers. -/
structure Elf where
  ehdr : Elf.Ehdr
  phdrs : List Elf.Phdr
  deriving DecidableEq, Repr

namespace Elf

/-- The `phnum` program headers of the table at `phoff`. -/
def phdrTable (buf : List UInt8) (phoff phnum : Nat) : List Phdr :=
  (List.range phnum).map fun i => Phdr.decode buf (phoff + i * phdrSize)

/-- `Elf::parse(buf, expected_type)`; `none` when it panics. -/
def parse (buf : List UInt8) (expectedType : Nat) : Option (Except ParseError Elf) :=
  if buf.length < ehdrSize then some (.error .bufferTooShort) else
  let ehdr := Ehdr.decode buf
  if ehdr.ident.take 4 ≠ [0x7f, 0x45, 0x4c, 0x46] then some (.error .invalidMagic)
  else if ehdr.type ≠ expectedType then some (.error .invalidEtype)
  else if ehdr.machine ≠ emNative then some (.error .invalidMachine)
  else if ehdr.ehsize ≠ ehdrSize then some (.error .invalidEhdrSize)
  else if ehdr.phentsize ≠ phdrSize then some (.error .invalidPhdrSize)
  else
    -- `e_phnum` is a `u16`, so `phdrs_size` fits; the sum with `e_phoff` may not
    let phdrsSize := ehdr.phnum * phdrSize
    match Word.checkedAdd 64 ehdr.phoff phdrsSize with
    | none => none
    | some tableEnd =>
      if buf.length < tableEnd then some (.error .bufferTooShort)
      else some (.ok ⟨ehdr, phdrTable buf ehdr.phoff ehdr.phnum⟩)

/-- The checks of the header before the table's bounds. -/
def HeaderOk (buf : List UInt8) (expectedType : Nat) : Prop :=
  ehdrSize ≤ buf.length ∧ (Ehdr.decode buf).ident.take 4 = [0x7f, 0x45, 0x4c, 0x46] ∧
    (Ehdr.decode buf).type = expectedType ∧ (Ehdr.decode buf).machine = emNative ∧
    (Ehdr.decode buf).ehsize = ehdrSize ∧ (Ehdr.decode buf).phentsize = phdrSize

instance (buf : List UInt8) (expectedType : Nat) : Decidable (HeaderOk buf expectedType) :=
  inferInstanceAs (Decidable (_ ∧ _))

variable {buf : List UInt8} {expectedType : Nat}

/-- `parse` after the header checks: the table's end is checked against the buffer. -/
theorem parse_of_headerOk (h : HeaderOk buf expectedType) :
    parse buf expectedType =
      match Word.checkedAdd 64 (Ehdr.decode buf).phoff ((Ehdr.decode buf).phnum * phdrSize) with
      | none => none
      | some tableEnd =>
        if buf.length < tableEnd then some (.error .bufferTooShort)
        else some (.ok ⟨Ehdr.decode buf, phdrTable buf (Ehdr.decode buf).phoff
          (Ehdr.decode buf).phnum⟩) := by
  obtain ⟨hlen, hmagic, htype, hmachine, hehsize, hphentsize⟩ := h
  simp only [parse, Nat.not_lt.mpr hlen, if_false, hmagic, htype, hmachine, hehsize, hphentsize,
    ne_eq, not_true_eq_false]

/-- A header that fails a check is refused with an error, and `parse` returns. -/
theorem parse_of_not_headerOk (h : ¬ HeaderOk buf expectedType) :
    ∃ e, parse buf expectedType = some (.error e) := by
  dsimp only [parse]
  split_ifs with h1 h2 h3 h4 h5 h6
  all_goals try exact ⟨_, rfl⟩
  exact absurd ⟨Nat.le_of_not_lt h1, not_not.mp h2, not_not.mp h3, not_not.mp h4,
    not_not.mp h5, not_not.mp h6⟩ h

/-- `parse` panics exactly on a header that passes its checks and whose table end overflows a
`usize`. -/
theorem parse_eq_none_iff :
    parse buf expectedType = none ↔ HeaderOk buf expectedType ∧
      Word.MAX 64 < (Ehdr.decode buf).phoff + (Ehdr.decode buf).phnum * phdrSize := by
  by_cases hok : HeaderOk buf expectedType
  · rw [parse_of_headerOk hok]
    constructor
    · intro h
      split at h
      · rename_i hsum
        exact ⟨hok, Word.checkedAdd_eq_none.mp hsum⟩
      · split_ifs at h
    · rintro ⟨-, hover⟩
      rw [Word.checkedAdd_eq_none.mpr hover]
  · obtain ⟨e, he⟩ := parse_of_not_headerOk hok
    simp [he, hok]

/-- A 64-byte `ET_DYN` header for x86-64 with one program header at `e_phoff = 2 ^ 64 - 1`. -/
def overflowingHeader : List UInt8 :=
  [0x7f, 0x45, 0x4c, 0x46, 2, 1, 1, 0, 0, 0, 0, 0, 0, 0, 0, 0] ++ Bytes.ofNatLE 2 etDyn ++
    Bytes.ofNatLE 2 emNative ++ Bytes.ofNatLE 4 1 ++ Bytes.ofNatLE 8 0 ++
    Bytes.ofNatLE 8 (2 ^ 64 - 1) ++ Bytes.ofNatLE 8 0 ++ Bytes.ofNatLE 4 0 ++
    Bytes.ofNatLE 2 ehdrSize ++ Bytes.ofNatLE 2 phdrSize ++ Bytes.ofNatLE 2 1 ++
    Bytes.ofNatLE 6 0

/-- On the header above, `parse` panics: `e_phoff + 56` overflows. -/
theorem parse_overflowingHeader_panics : parse overflowingHeader etDyn = none := by
  rw [parse_eq_none_iff]
  decide

end Elf

end Ftl

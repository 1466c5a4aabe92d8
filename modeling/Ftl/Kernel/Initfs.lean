import Mathlib
import Ftl.Lib.Word
import Ftl.Lib.Bytes
import Ftl.Utils.Alignment

/-!
# The initial file system

`kernel/src/initfs.rs`. The boot loader hands the kernel a `cpio` archive in the "new ASCII"
format (`newc`, cpio(5)), built by `build.sh` with `cpio -o -H newc`. An entry is a 110-byte
header of the magic `070701` and thirteen fields of eight hexadecimal digits, the file's name
with a terminating NUL, padded to a multiple of 4 bytes, and the file's data, padded likewise; an
entry named `TRAILER!!!` ends the archive.

`InitFsLoader` iterates over the archive from an offset. `next` checks the magic, parses
`c_namesize` and `c_filesize` with `parse_hex`, takes the name, strips one trailing NUL, stops at
the trailer, takes the data at the next multiple of 4, and moves the offset to the multiple of 4
after the data. Every read is `slice::get`, so a malformed archive ends the iteration. A slice has
at most `isize::MAX` bytes (`InitFsLoader.file_le`), so none of the `usize` sums of `next`
overflows: the two that `align_up` rounds end inside the slice (`alignUp_four_of_le`), and the
`none` that stands for `align_up`'s panic in `next` is never reached.

The offset grows with every file, so the iteration ends on every slice, and what it yields are
pieces of the slice (`exists_yields_pieces`). On an archive as cpio(5) writes it (`encode`), it
yields exactly the files written, in order (`yields_encode_from`).

## Main definitions

* `Ftl.Initfs.parseHex`, `Ftl.Initfs.InitFsLoader.next`, the files it yields,
  `Ftl.Initfs.InitFsLoader.files`, and what a run of calls yields, `Ftl.Initfs.Yields`.
* `Ftl.Initfs.encode`: an archive as cpio(5) describes it.

## Main results

* `Ftl.Initfs.exists_yields_pieces`: the iteration ends, and yields pieces of the slice.
* `Ftl.Initfs.loader_decodes_encode`: the loader inverts the encoder.
-/

namespace Ftl.Initfs

/-- `size_of::<CpioHeader>()`. -/
def headerSize : Nat := 110

/-- `offset_of!(CpioHeader, filesize)`. -/
def filesizeOffset : Nat := 54

/-- `offset_of!(CpioHeader, namesize)`. -/
def namesizeOffset : Nat := 94

/-- `b"070701"`. -/
def magic : List UInt8 := [0x30, 0x37, 0x30, 0x37, 0x30, 0x31]

/-- `b"TRAILER!!!"`. -/
def trailer : List UInt8 := [0x54, 0x52, 0x41, 0x49, 0x4c, 0x45, 0x52, 0x21, 0x21, 0x21]

/-- The digit of one byte of `parse_hex`. -/
def hexDigit (byte : UInt8) : Option Nat :=
  if 0x30 ≤ byte ∧ byte ≤ 0x39 then some (byte.toNat - 0x30)
  else if 0x61 ≤ byte ∧ byte ≤ 0x66 then some (byte.toNat - 0x61 + 10)
  else if 0x41 ≤ byte ∧ byte ≤ 0x46 then some (byte.toNat - 0x41 + 10)
  else none

/-- The loop of `parse_hex`, from the value so far. -/
def parseHexLoop : List UInt8 → Nat → Option Nat
  | [], value => some value
  | byte :: bytes, value => (hexDigit byte).bind fun digit => parseHexLoop bytes (value * 16 + digit)

/-- `parse_hex(s)`. -/
def parseHex (s : List UInt8) : Option Nat := parseHexLoop s 0

/-- `File`: a name and data, both slices of the archive. -/
structure File where
  name : List UInt8
  data : List UInt8
  deriving DecidableEq, Repr

/-- `InitFsLoader`: the archive and the offset of the next entry. -/
structure InitFsLoader where
  file : List UInt8
  offset : Nat
  /-- A slice has at most `isize::MAX` bytes. -/
  file_le : file.length ≤ Word.MAX 63

/-- `InitFsLoader::next()`: the file at the offset, and the loader after it. -/
def InitFsLoader.next (l : InitFsLoader) : Option (File × InitFsLoader) :=
  (Bytes.slice l.file l.offset 6).bind fun magic' =>
  if magic' ≠ magic then none else
  ((Bytes.slice l.file (l.offset + namesizeOffset) 8).bind parseHex).bind fun namesize =>
  ((Bytes.slice l.file (l.offset + filesizeOffset) 8).bind parseHex).bind fun filesize =>
  (Bytes.slice l.file (l.offset + headerSize) namesize).bind fun name =>
  -- remove the trailing NUL
  let name := if name.getLast? = some 0 then name.dropLast else name
  if name = trailer then none else
  (alignUp (l.offset + headerSize + namesize) 4).bind fun dataOffset =>
  (Bytes.slice l.file dataOffset filesize).bind fun data =>
  (alignUp (dataOffset + filesize) 4).map fun offset => (⟨name, data⟩, { l with offset })

/-! ### What one call of `next` reads -/

/-- Rounding up an offset inside a slice does not overflow: it pads the offset to a multiple
of 4. -/
theorem alignUp_four_of_le {value : Nat} (hv : value ≤ Word.MAX 63) :
    alignUp value 4 = some (value + (4 - value % 4) % 4) := by
  simp only [Word.MAX] at hv
  rw [alignUp_of_le (by simp only [Word.MAX]; omega), alignUpNat_four (by omega)]

/-- A call of `next` that yields a file moves the offset forward from inside the slice, keeps the
slice, and yields pieces of it. -/
theorem next_eq_some {l l' : InitFsLoader} {f : File} (h : l.next = some (f, l')) :
    l'.file = l.file ∧ l.offset < l'.offset ∧ l.offset + headerSize ≤ l.file.length ∧
      f.name <:+: l.file ∧ f.data <:+: l.file := by
  simp only [InitFsLoader.next, Option.bind_eq_some_iff] at h
  obtain ⟨magic', -, h⟩ := h
  split_ifs at h
  simp only [Option.bind_eq_some_iff] at h
  obtain ⟨namesize, -, filesize, -, name, hname, h⟩ := h
  have hprefix : (if name.getLast? = some 0 then name.dropLast else name) <+: name := by
    split_ifs
    · exact List.dropLast_prefix name
    · exact List.prefix_refl name
  generalize (if name.getLast? = some 0 then name.dropLast else name) = name' at h hprefix
  split_ifs at h
  simp only [Option.bind_eq_some_iff] at h
  obtain ⟨dataOffset, hdataOffset, data, hdata, h⟩ := h
  obtain ⟨offset, hoffset, hfl⟩ := Option.map_eq_some_iff.mp h
  simp only [Prod.mk.injEq] at hfl
  obtain ⟨rfl, rfl⟩ := hfl
  have hfile := l.file_le
  have hheader : headerSize = 110 := rfl
  obtain ⟨hnameEnd, -⟩ := Bytes.slice_eq_some hname
  obtain ⟨hdataEnd, -⟩ := Bytes.slice_eq_some hdata
  rw [alignUp_four_of_le (by omega), Option.some.injEq] at hdataOffset hoffset
  exact ⟨rfl, by dsimp only; omega, by omega, hprefix.isInfix.trans (Bytes.isInfix_of_slice hname),
    Bytes.isInfix_of_slice hdata⟩

/-! ### The iteration -/

/-- The measure of the iteration: the bytes left past the offset, plus one. -/
theorem next_measure_lt {l l' : InitFsLoader} {f : File} (h : l.next = some (f, l')) :
    l'.file.length + 1 - l'.offset < l.file.length + 1 - l.offset := by
  obtain ⟨hfile, hlt, hin, -⟩ := next_eq_some h
  rw [hfile]
  omega

/-- The files that `for file in loader` visits: `next` until it returns `None`. -/
def InitFsLoader.files (l : InitFsLoader) : List File :=
  match _h : l.next with
  | none => []
  | some (f, l') => f :: l'.files
termination_by l.file.length + 1 - l.offset
decreasing_by exact next_measure_lt _h

theorem files_of_next_none {l : InitFsLoader} (h : l.next = none) : l.files = [] := by
  rw [InitFsLoader.files]
  split <;> simp_all

theorem files_of_next_some {l l' : InitFsLoader} {f : File} (h : l.next = some (f, l')) :
    l.files = f :: l'.files := by
  rw [InitFsLoader.files]
  split <;> simp_all

/-- `Yields l fs`: the calls of `next` from `l` yield the files `fs`, and the call after them
returns `None`. -/
inductive Yields : InitFsLoader → List File → Prop where
  | done {l : InitFsLoader} : l.next = none → Yields l []
  | step {l l' : InitFsLoader} {f : File} {fs : List File} :
      l.next = some (f, l') → Yields l' fs → Yields l (f :: fs)

/-- The iteration yields `files`, and then ends. -/
theorem yields_files (l : InitFsLoader) : Yields l l.files := by
  cases h : l.next with
  | none => exact files_of_next_none h ▸ .done h
  | some p =>
    obtain ⟨f, l'⟩ := p
    rw [files_of_next_some h]
    exact .step h (yields_files l')
termination_by l.file.length + 1 - l.offset
decreasing_by exact next_measure_lt h

/-- On every slice, the iteration yields finitely many files, each name and each data a piece of
the slice. -/
theorem exists_yields_pieces (l : InitFsLoader) :
    ∃ fs, Yields l fs ∧ ∀ f ∈ fs, f.name <:+: l.file ∧ f.data <:+: l.file := by
  refine ⟨l.files, yields_files l, ?_⟩
  suffices ∀ l' fs, Yields l' fs → l'.file = l.file → ∀ f ∈ fs, f.name <:+: l.file ∧ f.data <:+: l.file from
    this l _ (yields_files l) rfl
  intro l' fs hy
  induction hy with
  | done _ => simp
  | step hnext _ ih =>
    intro hfile f hf
    obtain ⟨hfile', -, -, hname, hdata⟩ := next_eq_some hnext
    rcases List.mem_cons.mp hf with rfl | hf
    · exact ⟨hfile ▸ hname, hfile ▸ hdata⟩
    · exact ih (hfile' ▸ hfile) f hf

/-! ### The archive cpio writes -/

/-- The hexadecimal digit `d < 16`, in upper case as cpio writes it. -/
def hexChar (d : Nat) : UInt8 :=
  if d < 10 then UInt8.ofNat (0x30 + d) else UInt8.ofNat (0x41 + (d - 10))

/-- The `k` hexadecimal digits of `n`, the most significant first. -/
def hexDigits : Nat → Nat → List UInt8
  | 0, _ => []
  | k + 1, n => hexDigits k (n / 16) ++ [hexChar (n % 16)]

/-- A field of the header: eight hexadecimal digits. -/
def hex8 (n : Nat) : List UInt8 := hexDigits 8 n

/-- The fields of a header that the loader does not read. -/
structure Stat where
  ino : Nat
  mode : Nat
  uid : Nat
  gid : Nat
  nlink : Nat
  mtime : Nat
  devMajor : Nat
  devMinor : Nat
  rdevMajor : Nat
  rdevMinor : Nat
  check : Nat
  deriving DecidableEq, Repr

/-- The thirteen fields of a header, in the order of cpio(5). -/
def fields (st : Stat) (namesize filesize : Nat) : List Nat :=
  [st.ino, st.mode, st.uid, st.gid, st.nlink, st.mtime, filesize, st.devMajor, st.devMinor,
    st.rdevMajor, st.rdevMinor, namesize, st.check]

/-- The 110-byte header of an entry. -/
def header (st : Stat) (namesize filesize : Nat) : List UInt8 :=
  magic ++ (fields st namesize filesize).flatMap hex8

/-- The NUL bytes that pad `n` bytes to a multiple of 4. -/
def pad4 (n : Nat) : List UInt8 := List.replicate ((4 - n % 4) % 4) 0

/-- An entry: the header, the name with its NUL, padding, the data, padding. -/
def encodeEntry (st : Stat) (f : File) : List UInt8 :=
  header st (f.name.length + 1) f.data.length ++ (f.name ++ [0]) ++
    pad4 (headerSize + f.name.length + 1) ++ f.data ++ pad4 f.data.length

/-- The archive of the files `entries`, each with the other fields of its header, closed by the
trailer. -/
def encode (entries : List (Stat × File)) (trailerStat : Stat) : List UInt8 :=
  (entries.map fun e => encodeEntry e.1 e.2).flatten ++ encodeEntry trailerStat ⟨trailer, []⟩

theorem hexDigit_hexChar {d : Nat} (hd : d < 16) : hexDigit (hexChar d) = some d := by
  have hall : ∀ d : Fin 16, hexDigit (hexChar d) = some d := by decide
  exact hall ⟨d, hd⟩

@[simp] theorem length_hexDigits (k n : Nat) : (hexDigits k n).length = k := by
  induction k generalizing n with
  | zero => rfl
  | succ k ih => simp [hexDigits, ih]

@[simp] theorem length_hex8 (n : Nat) : (hex8 n).length = 8 := length_hexDigits 8 n

theorem parseHexLoop_append (s t : List UInt8) (value : Nat) :
    parseHexLoop (s ++ t) value = (parseHexLoop s value).bind (parseHexLoop t) := by
  induction s generalizing value with
  | nil => rfl
  | cons byte bytes ih =>
    simp only [List.cons_append, parseHexLoop, ih, Option.bind_assoc]

/-- Parsing the `k` hexadecimal digits of `n` gives `n` back; the low digit comes last, so the
induction peels it off as `n % 16`. -/
theorem parseHexLoop_hexDigits (k : Nat) : ∀ (n value : Nat),
    parseHexLoop (hexDigits k n) value = some (value * 16 ^ k + n % 16 ^ k) := by
  induction k with
  | zero => intro n value; simp [hexDigits, parseHexLoop, Nat.mod_one]
  | succ k ih =>
    intro n value
    have hlow : n % 16 < 16 := Nat.mod_lt n (by decide)
    rw [hexDigits, parseHexLoop_append, ih, Option.bind_some, parseHexLoop, hexDigit_hexChar hlow,
      Option.bind_some, parseHexLoop, pow_succ', Nat.mod_mul]
    congr 1
    ring

theorem parseHex_hex8 {n : Nat} (h : n < 2 ^ 32) : parseHex (hex8 n) = some n := by
  rw [parseHex, hex8, parseHexLoop_hexDigits, Nat.mod_eq_of_lt (by simpa using h)]
  simp

@[simp] theorem length_header (st : Stat) (namesize filesize : Nat) :
    (header st namesize filesize).length = headerSize := by
  simp [header, fields, magic, headerSize]

theorem length_pad4 (n : Nat) : (pad4 n).length = (4 - n % 4) % 4 := List.length_replicate

/-- The `i`-th field of a header inside a buffer. -/
theorem slice_header_field (pre tail : List UInt8) (st : Stat) (namesize filesize : Nat) {i : Nat}
    (hi : i < 13) :
    Bytes.slice (pre ++ header st namesize filesize ++ tail) (pre.length + 6 + 8 * i) 8 =
      some (hex8 (fields st namesize filesize)[i]) := by
  rw [header, ← List.append_assoc, List.append_assoc _ _ tail,
    Bytes.slice_append_right (by simp [magic]), Bytes.slice_append_left (by simp [magic, fields]; omega)]
  simp only [List.length_append, magic, List.length_cons, List.length_nil]
  rw [show pre.length + 6 + 8 * i - (pre.length + 6) = 8 * i by omega]
  exact Bytes.slice_flatMap_of_length hex8 length_hex8 _
    (List.getElem?_eq_getElem (by simp [fields]; omega))

theorem length_encodeEntry (st : Stat) (f : File) :
    (encodeEntry st f).length = headerSize + (f.name.length + 1) +
      (4 - (headerSize + f.name.length + 1) % 4) % 4 + f.data.length + (4 - f.data.length % 4) % 4 := by
  simp only [encodeEntry, List.length_append, length_header, length_pad4, List.length_singleton]

/-- An entry written at a multiple of 4: `next` yields its file and moves past it, or stops when
it is the trailer. -/
theorem next_encodeEntry {l : InitFsLoader} {pre rest : List UInt8} {st : Stat} {f : File}
    (hl : l.file = pre ++ encodeEntry st f ++ rest) (hoff : l.offset = pre.length)
    (hpre : pre.length % 4 = 0) (hname : f.name.length + 1 < 2 ^ 32) (hdata : f.data.length < 2 ^ 32) :
    l.next = if f.name = trailer then none
      else some (f, { l with offset := pre.length + (encodeEntry st f).length }) := by
  obtain ⟨file, offset, hlen⟩ := l
  dsimp only at hl hoff ⊢
  subst hl hoff
  have hE := length_encodeEntry st f
  have hfile : (pre ++ encodeEntry st f ++ rest).length =
      pre.length + (encodeEntry st f).length + rest.length := by
    simp only [List.length_append]
  have hheader : headerSize = 110 := rfl
  have hmagic : Bytes.slice (pre ++ encodeEntry st f ++ rest) pre.length 6 = some magic := by
    have h := Bytes.slice_mid pre magic ((fields st (f.name.length + 1) f.data.length).flatMap hex8 ++
      (f.name ++ [0]) ++ pad4 (headerSize + f.name.length + 1) ++ f.data ++ pad4 f.data.length ++ rest)
    rw [show magic.length = 6 from rfl] at h
    simpa only [encodeEntry, header, List.append_assoc] using h
  have hsplit : pre ++ encodeEntry st f ++ rest = pre ++ header st (f.name.length + 1) f.data.length ++
      ((f.name ++ [0]) ++ pad4 (headerSize + f.name.length + 1) ++ f.data ++ pad4 f.data.length ++ rest) := by
    simp only [encodeEntry, List.append_assoc]
  have hnamesize : Bytes.slice (pre ++ encodeEntry st f ++ rest) (pre.length + namesizeOffset) 8 =
      some (hex8 (f.name.length + 1)) := by
    rw [hsplit]
    exact slice_header_field pre _ st _ _ (i := 11) (by decide)
  have hfilesize : Bytes.slice (pre ++ encodeEntry st f ++ rest) (pre.length + filesizeOffset) 8 =
      some (hex8 f.data.length) := by
    rw [hsplit]
    exact slice_header_field pre _ st _ _ (i := 6) (by decide)
  have hnameBytes : Bytes.slice (pre ++ encodeEntry st f ++ rest) (pre.length + headerSize)
      (f.name.length + 1) = some (f.name ++ [0]) := by
    have h := Bytes.slice_mid (pre ++ header st (f.name.length + 1) f.data.length) (f.name ++ [0])
      (pad4 (headerSize + f.name.length + 1) ++ f.data ++ pad4 f.data.length ++ rest)
    simpa only [encodeEntry, List.append_assoc, List.length_append, length_header,
      List.length_singleton] using h
  have hdataOffset : alignUp (pre.length + headerSize + (f.name.length + 1)) 4 =
      some (pre.length + headerSize + (f.name.length + 1) + (4 - (headerSize + f.name.length + 1) % 4) % 4) := by
    rw [alignUp_four_of_le (by rw [hfile] at hlen; omega), Option.some.injEq]
    omega
  have hdataBytes : Bytes.slice (pre ++ encodeEntry st f ++ rest)
      (pre.length + headerSize + (f.name.length + 1) + (4 - (headerSize + f.name.length + 1) % 4) % 4)
      f.data.length = some f.data := by
    have h := Bytes.slice_mid (pre ++ header st (f.name.length + 1) f.data.length ++ (f.name ++ [0]) ++
      pad4 (headerSize + f.name.length + 1)) f.data (pad4 f.data.length ++ rest)
    simpa only [encodeEntry, List.append_assoc, List.length_append, length_header,
      List.length_singleton, length_pad4, Nat.add_assoc] using h
  have hnextOffset : alignUp (pre.length + headerSize + (f.name.length + 1) +
      (4 - (headerSize + f.name.length + 1) % 4) % 4 + f.data.length) 4 =
      some (pre.length + (encodeEntry st f).length) := by
    rw [alignUp_four_of_le (by rw [hfile] at hlen; omega), hE, Option.some.injEq]
    omega
  simp only [InitFsLoader.next, hmagic, Option.bind_some, ne_eq, not_true_eq_false, if_false,
    hnamesize, hfilesize, parseHex_hex8 hname, parseHex_hex8 hdata, hnameBytes, List.getLast?_concat,
    if_true, List.dropLast_concat, hdataOffset, hdataBytes, hnextOffset, Option.map_some]

theorem encode_cons (e : Stat × File) (entries : List (Stat × File)) (trailerStat : Stat) :
    encode (e :: entries) trailerStat = encodeEntry e.1 e.2 ++ encode entries trailerStat := by
  simp [encode]

/-- From an entry at a multiple of 4 on, the loader yields the files written, and stops at the
trailer. -/
theorem yields_encode_from (trailerStat : Stat) (rest : List UInt8) :
    ∀ (entries : List (Stat × File)) (pre : List UInt8) (l : InitFsLoader),
      l.file = pre ++ encode entries trailerStat ++ rest → l.offset = pre.length →
      pre.length % 4 = 0 →
      (∀ e ∈ entries, e.2.name ≠ trailer ∧ e.2.name.length + 1 < 2 ^ 32 ∧ e.2.data.length < 2 ^ 32) →
      Yields l (entries.map Prod.snd)
  | [], pre, l, hl, hoff, hpre, _ => by
    have hl' : l.file = pre ++ encodeEntry trailerStat ⟨trailer, []⟩ ++ rest := by
      simpa [encode] using hl
    have hnone := next_encodeEntry hl' hoff hpre (by decide) (by decide)
    exact .done (by simpa using hnone)
  | e :: entries, pre, l, hl, hoff, hpre, hentries => by
    obtain ⟨hne, hname, hdata⟩ := hentries e List.mem_cons_self
    have hl' : l.file = pre ++ encodeEntry e.1 e.2 ++ (encode entries trailerStat ++ rest) := by
      rw [hl, encode_cons]
      simp only [List.append_assoc]
    have hnext := next_encodeEntry hl' hoff hpre hname hdata
    rw [if_neg hne] at hnext
    have hE : (encodeEntry e.1 e.2).length % 4 = 0 := by
      rw [length_encodeEntry]
      simp only [headerSize]
      omega
    refine .step hnext (yields_encode_from trailerStat rest entries (pre ++ encodeEntry e.1 e.2) _
      (by rw [hl, encode_cons]; simp only [List.append_assoc]) (by simp) (by simp; omega)
      (fun e' he' => hentries e' (List.mem_cons_of_mem _ he')))

/-- The loader inverts cpio: on every slice it yields finitely many files, all pieces of the
slice, and on an archive written as cpio(5) describes, followed by anything, it yields the files
written, in order. -/
theorem loader_decodes_encode :
    (∀ l : InitFsLoader, ∃ fs, Yields l fs ∧ ∀ f ∈ fs, f.name <:+: l.file ∧ f.data <:+: l.file) ∧
    ∀ (entries : List (Stat × File)) (trailerStat : Stat) (rest : List UInt8)
      (hlen : (encode entries trailerStat ++ rest).length ≤ Word.MAX 63),
      (∀ e ∈ entries, e.2.name ≠ trailer ∧ e.2.name.length + 1 < 2 ^ 32 ∧ e.2.data.length < 2 ^ 32) →
      Yields ⟨encode entries trailerStat ++ rest, 0, hlen⟩ (entries.map Prod.snd) :=
  ⟨exists_yields_pieces, fun entries trailerStat rest _ hentries =>
    yields_encode_from trailerStat rest entries [] _ rfl rfl rfl hentries⟩

/-- The archive of one file `hi` holding `!`. -/
theorem loader_decodes_encode_hi :
    (∀ e ∈ [((⟨1, 0o100644, 0, 0, 1, 0, 0, 0, 0, 0, 0⟩ : Stat), (⟨[0x68, 0x69], [0x21]⟩ : File))],
      e.2.name ≠ trailer ∧ e.2.name.length + 1 < 2 ^ 32 ∧ e.2.data.length < 2 ^ 32) ∧
    Yields ⟨encode [(⟨1, 0o100644, 0, 0, 1, 0, 0, 0, 0, 0, 0⟩, ⟨[0x68, 0x69], [0x21]⟩)]
      ⟨0, 0, 0, 0, 1, 0, 0, 0, 0, 0, 0⟩ ++ [], 0, by decide +kernel⟩ [⟨[0x68, 0x69], [0x21]⟩] :=
  ⟨by decide, loader_decodes_encode.2 _ _ _ _ (by decide)⟩

end Ftl.Initfs

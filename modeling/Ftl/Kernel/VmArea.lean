import Mathlib
import Ftl.Lib.Footprint
import Ftl.Kernel.Machine
import Ftl.Utils.Alignment

/-!
# VM areas

`VmArea` (`kernel/src/vmarea.rs`) is a virtually contiguous area of `len` bytes, made of
`len / MIN_PAGE_SIZE` physical pages that are allocated on first touch: `get_or_fill` asks the
page source for a zeroed page when the slot is still `None`. `write` and `read` check
`offset + len` with `checked_add` and against `len`, then split the range into per-page copies at
`offset / MIN_PAGE_SIZE` and `offset % MIN_PAGE_SIZE`.

The operations run in `EStateM Fault` over the area and the `Machine`, for any page source
`allocPage`. The byte at an offset, as a user of the area sees it, is `byteAt`: the byte of its
page, or `0` for a page not yet allocated. `read` writes into a caller's buffer; the model
returns the buffer's contents after a successful read. After an error no caller looks at the
buffer again, and the bytes already copied are not modelled.

When the page source returns fresh zeroed pages (`FreshPages`) and never fails, an area behaves
as a zero-initialised byte array (`exec_eq_specExec`): every call succeeds exactly when its range
is inside the area, a failing call changes nothing, and a read returns, byte by byte, the last
write that covered it, or `0`.

## Main definitions

* `Ftl.VmArea`, `Ftl.VmArea.newAnonymous`, `Ftl.VmArea.getOrFill`, `Ftl.VmArea.ensurePage`,
  `Ftl.VmArea.write`, `Ftl.VmArea.read`.
* `Ftl.VmArea.byteAt`, `Ftl.VmArea.Valid`: the contents, and the invariant of the pages.
* `Ftl.VmArea.exec`, `Ftl.VmArea.specExec`: a run of calls, and the zero-initialised array.

## Main results

* `Ftl.VmArea.getOrFill_spec`, `Ftl.VmArea.writeLoop_spec`, `Ftl.VmArea.readLoop_spec`.
* `Ftl.VmArea.exec_eq_specExec`.
-/

namespace Ftl

/-- `VmArea`: a physical page for each `MIN_PAGE_SIZE` bytes of the area, `None` until the page
is first touched, and the length in bytes. -/
structure VmArea where
  pages : List (Option Nat)
  len : Nat
  deriving DecidableEq, Repr

namespace VmArea

/-- `VmArea::new_anonymous(len)`: all pages empty. -/
def newAnonymous (len : Nat) : Except ErrorCode VmArea :=
  if len == 0 || !isAligned len minPageSize then .error .invalidArg
  else .ok ⟨List.replicate (len / minPageSize) none, len⟩

section Ops

variable {σ : Type} (allocPage : σ → ByteMem → Option Nat × σ × ByteMem)

/-- `Mutable::get_or_fill(index)`: the page at `index`, allocated and zeroed if it is still
`None`. Indexing `pages` out of range panics. -/
def getOrFill (index : Nat) : EStateM Fault (VmArea × Machine σ) Nat := do
  let (area, m) ← get
  match area.pages[index]? with
  | none => throw .panic
  | some (some paddr) => pure paddr
  | some none =>
    match allocPage m.pa m.mem with
    | (none, pa, mem) =>
      set (area, ({ pa, mem } : Machine σ))
      throw (.err .outOfMemory)
    | (some paddr, pa, mem) =>
      set ({ area with pages := area.pages.set index (some paddr) }, ({ pa, mem } : Machine σ))
      pure paddr

/-- `ensure_page(index)`. -/
def ensurePage (index : Nat) : EStateM Fault (VmArea × Machine σ) Nat := do
  let (area, _) ← get
  if index ≥ area.pages.length then throw (.err .outOfBounds)
  getOrFill allocPage index

/-- The loop of `write`: `data` is copied from `offset` on, at most up to the end of the page of
`offset` each time. -/
def writeLoop (offset : Nat) (data : List UInt8) : EStateM Fault (VmArea × Machine σ) Unit :=
  if _hdata : data = [] then pure ()
  else do
    let index := offset / minPageSize
    let pageOffset := offset % minPageSize
    let copyLen := min data.length (minPageSize - pageOffset)
    let paddr ← getOrFill allocPage index
    modify fun s => (s.1, { s.2 with mem := s.2.mem.writeBytes (paddr + pageOffset) (data.take copyLen) })
    writeLoop (offset + copyLen) (data.drop copyLen)
termination_by data.length
decreasing_by
  have hpos : 0 < data.length := List.length_pos_iff.mpr _hdata
  have hlt : offset % minPageSize < minPageSize := Nat.mod_lt _ (by decide)
  rw [List.length_drop]
  omega

/-- `write(offset, data)`. -/
def write (offset : Nat) (data : List UInt8) : EStateM Fault (VmArea × Machine σ) Unit := do
  let (area, _) ← get
  match Word.checkedAdd 64 offset data.length with
  | none => throw (.err .outOfBounds)
  | some offsetEnd =>
    if offsetEnd > area.len then throw (.err .outOfBounds)
    writeLoop allocPage offset data

/-- The loop of `read`: the `n` bytes from `offset` on, copied at most up to the end of the page
of `offset` each time. -/
def readLoop (offset n : Nat) : EStateM Fault (VmArea × Machine σ) (List UInt8) :=
  if _hn : n = 0 then pure []
  else do
    let index := offset / minPageSize
    let offsetInPage := offset % minPageSize
    let paddr ← getOrFill allocPage index
    let copyLen := min n (minPageSize - offsetInPage)
    let (_, m) ← get
    let chunk := m.mem.readBytes (paddr + offsetInPage) copyLen
    let rest ← readLoop (offset + copyLen) (n - copyLen)
    pure (chunk ++ rest)
termination_by n
decreasing_by
  have hlt : offset % minPageSize < minPageSize := Nat.mod_lt _ (by decide)
  have hpos : 0 < n := Nat.pos_of_ne_zero _hn
  omega

/-- `read(offset, buf)`: the contents of `buf` after the call. -/
def read (offset : Nat) (buf : List UInt8) : EStateM Fault (VmArea × Machine σ) (List UInt8) := do
  let (area, _) ← get
  match Word.checkedAdd 64 offset buf.length with
  | none => throw (.err .outOfBounds)
  | some offsetEnd =>
    if offsetEnd > area.len then throw (.err .outOfBounds)
    readLoop allocPage offset buf.length

/-- A call on an area. -/
inductive Op where
  | write (offset : Nat) (data : List UInt8)
  | read (offset : Nat) (buf : List UInt8)

/-- What a call returns; for `read`, the contents of the buffer after it. -/
inductive Out where
  | write (r : Except Fault Unit)
  | read (r : Except Fault (List UInt8))

/-- One call, and the state after it. -/
def runOp (op : Op) (s : VmArea × Machine σ) : Out × (VmArea × Machine σ) :=
  match op with
  | .write offset data =>
    match (write allocPage offset data).run s with
    | .ok _ s' => (.write (.ok ()), s')
    | .error e s' => (.write (.error e), s')
  | .read offset buf =>
    match (read allocPage offset buf).run s with
    | .ok bytes s' => (.read (.ok bytes), s')
    | .error e s' => (.read (.error e), s')

/-- A run of calls: what each returns. -/
def exec : List Op → VmArea × Machine σ → List Out
  | [], _ => []
  | op :: ops, s => (runOp allocPage op s).1 :: exec ops (runOp allocPage op s).2

end Ops

/-! ### A zero-initialised byte array -/

/-- The byte at `offset` after the writes `hist`, oldest first: that of the last write covering
it, or `0`. -/
def lastWrite (hist : List (Nat × List UInt8)) (offset : Nat) : UInt8 :=
  match hist.reverse.find? (fun w => decide (w.1 ≤ offset ∧ offset < w.1 + w.2.length)) with
  | some w => (w.2[offset - w.1]?).getD 0
  | none => 0

/-- The calls on a zero-initialised array of `len` bytes, with `hist` the writes that succeeded
so far: a call succeeds when its range is inside the array, and a read returns the last writes. -/
def specExec (len : Nat) : List Op → List (Nat × List UInt8) → List Out
  | [], _ => []
  | .write offset data :: ops, hist =>
    if offset + data.length ≤ len then
      .write (.ok ()) :: specExec len ops (hist ++ [(offset, data)])
    else .write (.error (.err .outOfBounds)) :: specExec len ops hist
  | .read offset buf :: ops, hist =>
    if offset + buf.length ≤ len then
      .read (.ok ((List.range buf.length).map fun j => lastWrite hist (offset + j))) ::
        specExec len ops hist
    else .read (.error (.err .outOfBounds)) :: specExec len ops hist

theorem lastWrite_nil (offset : Nat) : lastWrite [] offset = 0 := rfl

theorem lastWrite_append (hist : List (Nat × List UInt8)) (start : Nat) (data : List UInt8)
    (offset : Nat) :
    lastWrite (hist ++ [(start, data)]) offset =
      if start ≤ offset ∧ offset < start + data.length then (data[offset - start]?).getD 0
      else lastWrite hist offset := by
  unfold lastWrite
  rw [List.reverse_append, List.reverse_singleton, List.singleton_append, List.find?_cons]
  by_cases h : start ≤ offset ∧ offset < start + data.length
  · simp [h]
  · simp only [h, decide_false, if_false]

/-! ### The contents of an area -/

/-- The byte at `offset` as a user of the area sees it: the byte of its page, or `0` while the
page is not allocated. -/
def byteAt (area : VmArea) (mem : ByteMem) (offset : Nat) : UInt8 :=
  match area.pages[offset / minPageSize]? with
  | some (some paddr) => mem (paddr + offset % minPageSize)
  | _ => 0

section Spec

variable {σ : Type} {allocPage : σ → ByteMem → Option Nat × σ × ByteMem}
  {inv : σ → Prop} {avail : σ → Set Nat}

/-- The invariant of an area in a machine: the allocator is in its invariant, there is a page
slot for each `MIN_PAGE_SIZE` bytes, and the allocated pages are pairwise disjoint and no longer
available to the allocator. -/
structure Valid (inv : σ → Prop) (avail : σ → Set Nat) (area : VmArea) (m : Machine σ) : Prop where
  inv_pa : inv m.pa
  len_eq : area.len = area.pages.length * minPageSize
  disjoint : ∀ (i j p q : Nat), i ≠ j → area.pages[i]? = some (some p) → area.pages[j]? = some (some q) →
    Disjoint (Set.Ico p (p + minPageSize)) (Set.Ico q (q + minPageSize))
  taken : ∀ (i p : Nat), area.pages[i]? = some (some p) →
    Disjoint (Set.Ico p (p + minPageSize)) (avail m.pa)

/-- The invariant does not look at the bytes. -/
theorem Valid.with_mem {area : VmArea} {m : Machine σ} (hv : Valid inv avail area m)
    (mem : ByteMem) : Valid inv avail area { m with mem := mem } :=
  ⟨hv.inv_pa, hv.len_eq, hv.disjoint, hv.taken⟩

/-- A new area, all of its slots empty, is valid in every machine whose source is in its
invariant, and shows zeros. -/
theorem valid_replicate_none {m : Machine σ} (hinv : inv m.pa) (n : Nat) :
    Valid inv avail ⟨List.replicate n none, n * minPageSize⟩ m := by
  refine ⟨hinv, by rw [List.length_replicate], fun i _ p _ _ hp => ?_, fun i p hp => ?_⟩ <;>
    simp [List.getElem?_replicate] at hp

theorem byteAt_replicate_none (n len : Nat) (mem : ByteMem) (o : Nat) :
    byteAt ⟨List.replicate n none, len⟩ mem o = 0 := by
  unfold byteAt
  rcases h : (List.replicate n (none : Option Nat))[o / minPageSize]? with _ | _ | p
  · rfl
  · rfl
  · simp [List.getElem?_replicate] at h

theorem add_mod_mem_page (p o : Nat) : p + o % minPageSize ∈ Set.Ico p (p + minPageSize) := by
  have := Nat.mod_lt o (show 0 < minPageSize by decide)
  rw [Set.mem_Ico]
  omega

theorem getElem?_set_pages {pages : List (Option Nat)} {index : Nat} (hindex : index < pages.length)
    (x : Option Nat) (j : Nat) :
    (pages.set index x)[j]? = if j = index then some x else pages[j]? := by
  split_ifs with hj
  · rw [hj, List.getElem?_set_self hindex]
  · rw [List.getElem?_set_ne (Ne.symm hj)]

/-- Filling a fresh page changes no byte of the area, when the page fills an empty slot. -/
theorem byteAt_fill {area : VmArea} {mem : ByteMem} {index p : Nat}
    (hindex : index < area.pages.length) (hnone : area.pages[index]? = some none)
    (hnew : ∀ (i q : Nat), area.pages[i]? = some (some q) →
      Disjoint (Set.Ico q (q + minPageSize)) (Set.Ico p (p + minPageSize))) (o : Nat) :
    byteAt { area with pages := area.pages.set index (some p) } (mem.fill p minPageSize 0) o =
      byteAt area mem o := by
  unfold byteAt
  dsimp only
  rw [getElem?_set_pages hindex]
  split_ifs with ho
  · rw [ho, hnone]
    show mem.fill p minPageSize 0 (p + o % minPageSize) = 0
    rw [ByteMem.fill_apply, if_pos (by simpa using add_mod_mem_page p o)]
  · rcases hslot : area.pages[o / minPageSize]? with _ | _ | q
    · rfl
    · rfl
    · exact ByteMem.fill_apply_of_not_mem mem 0
        (Set.disjoint_left.mp (hnew _ q hslot) (add_mod_mem_page q o))

/-- `get_or_fill` returns the page of `index`, allocating it if needed; the area keeps its
invariant and its contents. -/
theorem getOrFill_spec (hfresh : FreshPages allocPage inv avail)
    (hreturns : ∀ s mem, inv s → ((allocPage s mem).1).isSome)
    {area : VmArea} {m : Machine σ} (hv : Valid inv avail area m) {index : Nat}
    (hindex : index < area.pages.length) :
    ∃ paddr area' m', (getOrFill allocPage index).run (area, m) = .ok paddr (area', m') ∧
      Valid inv avail area' m' ∧ area'.len = area.len ∧
      area'.pages.length = area.pages.length ∧ area'.pages[index]? = some (some paddr) ∧
      ∀ o, byteAt area' m'.mem o = byteAt area m.mem o := by
  obtain ⟨slot, hslot⟩ : ∃ slot, area.pages[index]? = some slot :=
    ⟨_, List.getElem?_eq_getElem hindex⟩
  rcases slot with _ | p
  swap
  · refine ⟨p, area, m, ?_, hv, rfl, rfl, hslot, fun _ => rfl⟩
    simp only [getOrFill, EStateM.run_bind, EStateM.run_get, hslot]
    rfl
  have hpa := hv.inv_pa
  rcases hal : allocPage m.pa m.mem with ⟨_ | p, pa', mem'⟩
  · have h := hreturns m.pa m.mem hpa
    rw [hal] at h
    cases h
  obtain ⟨hzero, hfr, htaken, hshrink, hinv⟩ := hfresh.of_alloc hpa hal
  have hnew : ∀ (i q : Nat), area.pages[i]? = some (some q) →
      Disjoint (Set.Ico q (q + minPageSize)) (Set.Ico p (p + minPageSize)) :=
    fun i q hq => ((hv.taken i q hq).mono_right hfr)
  refine ⟨p, { area with pages := area.pages.set index (some p) }, ⟨pa', mem'⟩, ?_, ?_, rfl,
    List.length_set .., by simp [getElem?_set_pages hindex], fun o => ?_⟩
  · simp only [getOrFill, EStateM.run_bind, EStateM.run_get, hslot, hal]
    rfl
  · refine ⟨hinv, by simp [hv.len_eq], fun i j q r hij hq hr => ?_, fun i q hq => ?_⟩
    · simp only [getElem?_set_pages hindex] at hq hr
      split_ifs at hq hr with hi hj hj
      · exact absurd (hi.trans hj.symm) hij
      · cases hq
        exact (hnew j r hr).symm
      · cases hr
        exact hnew i q hq
      · exact hv.disjoint i j q r hij hq hr
    · simp only [getElem?_set_pages hindex] at hq
      split_ifs at hq with hi
      · cases hq
        exact htaken
      · exact (hv.taken i q hq).mono_right hshrink
  · rw [hzero]
    exact byteAt_fill hindex hslot hnew o

/-- Writing bytes inside the page of `index` changes the contents exactly there. -/
theorem byteAt_writeBytes {area : VmArea} {mem : ByteMem} {index p po : Nat} {bytes : List UInt8}
    (hdisj : ∀ (i j p q : Nat), i ≠ j → area.pages[i]? = some (some p) →
      area.pages[j]? = some (some q) →
      Disjoint (Set.Ico p (p + minPageSize)) (Set.Ico q (q + minPageSize)))
    (hp : area.pages[index]? = some (some p)) (hfit : po + bytes.length ≤ minPageSize) (o : Nat) :
    byteAt area (mem.writeBytes (p + po) bytes) o =
      if index * minPageSize + po ≤ o ∧ o < index * minPageSize + po + bytes.length then
        (bytes[o - (index * minPageSize + po)]?).getD 0
      else byteAt area mem o := by
  have hm : minPageSize = 4096 := rfl
  rw [hm] at hfit
  split_ifs with hin
  · rw [hm] at hin
    have ho : o / minPageSize = index := by rw [hm]; omega
    have hsub : p + o % minPageSize - (p + po) = o - (index * minPageSize + po) := by
      rw [hm]; omega
    unfold byteAt
    rw [ho, hp]
    dsimp only
    rw [ByteMem.writeBytes_apply, if_pos (by rw [hm]; omega), hsub]
  · have hfar : ∀ q, area.pages[o / minPageSize]? = some (some q) →
        q + o % minPageSize ∉ Set.Ico (p + po) (p + po + bytes.length) := by
      intro q hq hin'
      rw [Set.mem_Ico] at hin'
      by_cases ho : o / minPageSize = index
      · rw [ho, hp] at hq
        cases hq
        rw [hm] at hin ho hin'
        omega
      · apply Set.disjoint_left.mp (hdisj _ _ q p ho hq hp) (add_mod_mem_page q o)
        rw [Set.mem_Ico]
        rw [hm] at hin' ⊢
        omega
    unfold byteAt
    rcases hslot : area.pages[o / minPageSize]? with _ | _ | q
    · rfl
    · rfl
    · exact ByteMem.writeBytes_apply_of_not_mem mem (hfar q hslot)

/-- The byte of an allocated page at an offset inside it. -/
theorem byteAt_of_page {area : VmArea} {mem : ByteMem} {index p po : Nat}
    (hp : area.pages[index]? = some (some p)) (hpo : po < minPageSize) :
    byteAt area mem (index * minPageSize + po) = mem (p + po) := by
  have hpo' : po < 4096 := hpo
  have hdiv : (index * minPageSize + po) / minPageSize = index := by
    show (index * 4096 + po) / 4096 = index
    omega
  have hmod : (index * minPageSize + po) % minPageSize = po := by
    show (index * 4096 + po) % 4096 = po
    omega
  unfold byteAt
  rw [hdiv, hp, hmod]

/-- `write`'s loop stores `data` at `offset`, allocating the pages it touches; no other byte of
the area changes. -/
theorem writeLoop_spec (hfresh : FreshPages allocPage inv avail)
    (hreturns : ∀ s mem, inv s → ((allocPage s mem).1).isSome) :
    ∀ (n offset : Nat) (data : List UInt8) (area : VmArea) (m : Machine σ), data.length = n →
      Valid inv avail area m → offset + data.length ≤ area.len →
      ∃ area' m', (writeLoop allocPage offset data).run (area, m) = .ok () (area', m') ∧
        Valid inv avail area' m' ∧ area'.len = area.len ∧
        ∀ o, byteAt area' m'.mem o = if offset ≤ o ∧ o < offset + data.length
          then (data[o - offset]?).getD 0 else byteAt area m.mem o := by
  intro n
  induction n using Nat.strong_induction_on with
  | _ n ih =>
  intro offset data area m hn hv hfit
  by_cases hdata : data = []
  · subst hdata
    refine ⟨area, m, by rw [writeLoop, dif_pos rfl]; rfl, hv, rfl, fun o => ?_⟩
    rw [if_neg (by simp)]
  have hpos : 0 < data.length := List.length_pos_iff.mpr hdata
  have hm : minPageSize = 4096 := rfl
  set index := offset / minPageSize with hindex_def
  set pageOffset := offset % minPageSize with hpo_def
  set copyLen := min data.length (minPageSize - pageOffset) with hcopy_def
  have hpo : pageOffset < minPageSize := Nat.mod_lt _ (by decide)
  have hoff : index * minPageSize + pageOffset = offset := Nat.div_add_mod' offset minPageSize
  have hindex : index < area.pages.length := by
    have hlen := hv.len_eq
    rw [hm] at hlen hindex_def
    omega
  obtain ⟨p, area1, m1, hrun1, hv1, hlen1, -, hp1, hbyte1⟩ :=
    getOrFill_spec hfresh hreturns hv hindex
  set m2 : Machine σ := { m1 with mem := m1.mem.writeBytes (p + pageOffset) (data.take copyLen) }
  have hfit2 : pageOffset + (data.take copyLen).length ≤ minPageSize := by
    rw [List.length_take]
    omega
  obtain ⟨area', m', hrun', hv', hlen', hbyte'⟩ :=
    ih _ (by rw [List.length_drop]; omega) (offset + copyLen) (data.drop copyLen) area1 m2 rfl
      (hv1.with_mem _) (by rw [List.length_drop, hlen1]; omega)
  refine ⟨area', m', ?_, hv', by rw [hlen', hlen1], fun o => ?_⟩
  · rw [writeLoop, dif_neg hdata]
    simp only [EStateM.run_bind, ← hindex_def, ← hpo_def, ← hcopy_def, hrun1, EStateM.run_modify]
    exact hrun'
  · rw [hbyte', byteAt_writeBytes hv1.disjoint hp1 hfit2 o, hbyte1, hoff, List.length_drop,
      List.length_take, min_eq_left (by omega : copyLen ≤ data.length)]
    by_cases h1 : offset + copyLen ≤ o ∧ o < offset + copyLen + (data.length - copyLen)
    · rw [if_pos h1, if_pos (by omega), List.getElem?_drop]
      congr 2
      omega
    · rw [if_neg h1]
      by_cases h2 : offset ≤ o ∧ o < offset + copyLen
      · rw [if_pos h2, if_pos (by omega), List.getElem?_take_of_lt (by omega)]
      · rw [if_neg h2, if_neg (by omega)]

/-- `read`'s loop returns the `n` bytes of the area from `offset` on, allocating the pages it
touches; no byte of the area changes. -/
theorem readLoop_spec (hfresh : FreshPages allocPage inv avail)
    (hreturns : ∀ s mem, inv s → ((allocPage s mem).1).isSome) :
    ∀ (n offset : Nat) (area : VmArea) (m : Machine σ), Valid inv avail area m →
      offset + n ≤ area.len →
      ∃ area' m', (readLoop allocPage offset n).run (area, m) =
          .ok ((List.range n).map fun j => byteAt area m.mem (offset + j)) (area', m') ∧
        Valid inv avail area' m' ∧ area'.len = area.len ∧
        ∀ o, byteAt area' m'.mem o = byteAt area m.mem o := by
  intro n
  induction n using Nat.strong_induction_on with
  | _ n ih =>
  intro offset area m hv hfit
  by_cases hn : n = 0
  · subst hn
    exact ⟨area, m, by rw [readLoop, dif_pos rfl]; rfl, hv, rfl, fun _ => rfl⟩
  have hm : minPageSize = 4096 := rfl
  set index := offset / minPageSize with hindex_def
  set offsetInPage := offset % minPageSize with hoip_def
  set copyLen := min n (minPageSize - offsetInPage) with hcopy_def
  have hoip : offsetInPage < minPageSize := Nat.mod_lt _ (by decide)
  have hoff : index * minPageSize + offsetInPage = offset := Nat.div_add_mod' offset minPageSize
  have hindex : index < area.pages.length := by
    have hlen := hv.len_eq
    rw [hm] at hlen hindex_def
    omega
  obtain ⟨p, area1, m1, hrun1, hv1, hlen1, -, hp1, hbyte1⟩ :=
    getOrFill_spec hfresh hreturns hv hindex
  have hchunk : m1.mem.readBytes (p + offsetInPage) copyLen =
      (List.range copyLen).map fun j => byteAt area m.mem (offset + j) := by
    rw [ByteMem.readBytes_eq_map]
    refine List.map_congr_left fun j hj => ?_
    rw [List.mem_range] at hj
    rw [← hbyte1, ← hoff, Nat.add_assoc (index * minPageSize),
      byteAt_of_page hp1 (by omega : offsetInPage + j < minPageSize), Nat.add_assoc]
  obtain ⟨area', m', hrun', hv', hlen', hbyte'⟩ :=
    ih (n - copyLen) (by omega) (offset + copyLen) area1 m1 hv1 (by rw [hlen1]; omega)
  refine ⟨area', m', ?_, hv', by rw [hlen', hlen1], fun o => by rw [hbyte', hbyte1]⟩
  rw [readLoop, dif_neg hn]
  simp only [EStateM.run_bind, ← hindex_def, ← hoip_def, ← hcopy_def, hrun1, EStateM.run_get,
    hrun', EStateM.run_pure]
  rw [hchunk]
  have hsplit : n = copyLen + (n - copyLen) := by omega
  conv_rhs => rw [hsplit, List.range_add, List.map_append, List.map_map]
  congr 2
  refine List.map_congr_left fun j _ => ?_
  simp only [Function.comp_apply, hbyte1, Nat.add_assoc]

theorem newAnonymous_eq_ok {len : Nat} {area : VmArea} (h : newAnonymous len = .ok area) :
    len ≠ 0 ∧ len % minPageSize = 0 ∧ area = ⟨List.replicate (len / minPageSize) none, len⟩ := by
  unfold newAnonymous at h
  split_ifs at h with hbad
  simp only [Bool.or_eq_true, beq_iff_eq, Bool.not_eq_eq_eq_not, Bool.not_true, not_or,
    Bool.not_eq_false] at hbad
  obtain ⟨hne, hal⟩ := hbad
  rw [minPageSize_eq, isAligned_iff] at hal
  cases h
  exact ⟨hne, hal, rfl⟩

/-- `write` is its loop when the range is inside the area, and fails changing nothing
otherwise. -/
theorem write_run {area : VmArea} {m : Machine σ} (hL : area.len ≤ Word.MAX 64) (offset : Nat)
    (data : List UInt8) :
    (write allocPage offset data).run (area, m) =
      if offset + data.length ≤ area.len then (writeLoop allocPage offset data).run (area, m)
      else .error (.err .outOfBounds) (area, m) := by
  simp only [write, EStateM.run_bind, EStateM.run_get]
  rcases hadd : Word.checkedAdd 64 offset data.length with _ | offsetEnd
  · rw [Word.checkedAdd_eq_none] at hadd
    rw [if_neg (by omega)]
    rfl
  · obtain ⟨-, rfl⟩ := Word.checkedAdd_eq_some.mp hadd
    by_cases hin : offset + data.length ≤ area.len
    · rw [if_pos hin]
      simp [Nat.not_lt.mpr hin]
    · rw [if_neg hin]
      simp [Nat.lt_of_not_le hin]

/-- `read` is its loop when the range is inside the area, and fails changing nothing
otherwise. -/
theorem read_run {area : VmArea} {m : Machine σ} (hL : area.len ≤ Word.MAX 64) (offset : Nat)
    (buf : List UInt8) :
    (read allocPage offset buf).run (area, m) =
      if offset + buf.length ≤ area.len then (readLoop allocPage offset buf.length).run (area, m)
      else .error (.err .outOfBounds) (area, m) := by
  simp only [read, EStateM.run_bind, EStateM.run_get]
  rcases hadd : Word.checkedAdd 64 offset buf.length with _ | offsetEnd
  · rw [Word.checkedAdd_eq_none] at hadd
    rw [if_neg (by omega)]
    rfl
  · obtain ⟨-, rfl⟩ := Word.checkedAdd_eq_some.mp hadd
    by_cases hin : offset + buf.length ≤ area.len
    · rw [if_pos hin]
      simp [Nat.not_lt.mpr hin]
    · rw [if_neg hin]
      simp [Nat.lt_of_not_le hin]

/-- The area refines the zero-initialised array whose successful writes are `hist`. -/
theorem exec_refines (hfresh : FreshPages allocPage inv avail)
    (hreturns : ∀ s mem, inv s → ((allocPage s mem).1).isSome) {L : Nat} (hL : L ≤ Word.MAX 64) :
    ∀ (ops : List Op) (hist : List (Nat × List UInt8)) (area : VmArea) (m : Machine σ),
      Valid inv avail area m → area.len = L → (∀ o < L, byteAt area m.mem o = lastWrite hist o) →
      exec allocPage ops (area, m) = specExec L ops hist
  | [], _, _, _, _, _, _ => rfl
  | .write offset data :: ops, hist, area, m, hv, hlen, hbytes => by
    subst hlen
    by_cases hin : offset + data.length ≤ area.len
    · obtain ⟨area', m', hrun, hv', hlen', hbyte'⟩ :=
        writeLoop_spec hfresh hreturns _ offset data area m rfl hv hin
      have hw : (write allocPage offset data).run (area, m) = .ok () (area', m') := by
        rw [write_run hL, if_pos hin, hrun]
      simp only [exec, runOp, hw, specExec, if_pos hin]
      refine congrArg _ (exec_refines hfresh hreturns hL ops _ area' m' hv' hlen' fun o ho => ?_)
      rw [hbyte', lastWrite_append, hbytes o ho]
    · have hw : (write allocPage offset data).run (area, m) = .error (.err .outOfBounds) (area, m) := by
        rw [write_run hL, if_neg hin]
      simp only [exec, runOp, hw, specExec, if_neg hin]
      exact congrArg _ (exec_refines hfresh hreturns hL ops hist area m hv rfl hbytes)
  | .read offset buf :: ops, hist, area, m, hv, hlen, hbytes => by
    subst hlen
    by_cases hin : offset + buf.length ≤ area.len
    · obtain ⟨area', m', hrun, hv', hlen', hbyte'⟩ :=
        readLoop_spec hfresh hreturns buf.length offset area m hv hin
      have hr : (read allocPage offset buf).run (area, m) =
          .ok ((List.range buf.length).map fun j => byteAt area m.mem (offset + j)) (area', m') := by
        rw [read_run hL, if_pos hin, hrun]
      have hbuf : ((List.range buf.length).map fun j => byteAt area m.mem (offset + j)) =
          (List.range buf.length).map fun j => lastWrite hist (offset + j) :=
        List.map_congr_left fun j hj => hbytes _ (by rw [List.mem_range] at hj; omega)
      simp only [exec, runOp, hr, specExec, if_pos hin, hbuf]
      refine congrArg _ (exec_refines hfresh hreturns hL ops hist area' m' hv' hlen' fun o ho => ?_)
      rw [hbyte', hbytes o (hlen' ▸ ho)]
    · have hr : (read allocPage offset buf).run (area, m) = .error (.err .outOfBounds) (area, m) := by
        rw [read_run hL, if_neg hin]
      simp only [exec, runOp, hr, specExec, if_neg hin]
      exact congrArg _ (exec_refines hfresh hreturns hL ops hist area m hv rfl hbytes)

/-- A VM area from `new_anonymous(len)` is a zero-initialised array of `len` bytes, when the page
source hands out fresh zeroed pages and never runs out. -/
theorem exec_eq_specExec (hfresh : FreshPages allocPage inv avail)
    (hreturns : ∀ s mem, inv s → ((allocPage s mem).1).isSome) {L : Nat} (hL : L ≤ Word.MAX 64)
    {area : VmArea} (harea : newAnonymous L = .ok area) (m : Machine σ) (hm : inv m.pa)
    (ops : List Op) :
    exec allocPage ops (area, m) = specExec L ops [] := by
  obtain ⟨-, hal, rfl⟩ := newAnonymous_eq_ok harea
  have hnone : ∀ (i p : Nat),
      (List.replicate (L / minPageSize) (none : Option Nat))[i]? ≠ some (some p) := by
    intro i p h
    rw [List.getElem?_replicate] at h
    split_ifs at h
    cases h
  refine exec_refines hfresh hreturns hL ops [] _ m ⟨hm, ?_, fun i j p q _ h => absurd h (hnone i p),
    fun i p h => absurd h (hnone i p)⟩ rfl fun o _ => ?_
  · rw [List.length_replicate]
    exact (Nat.div_mul_cancel (Nat.dvd_of_mod_eq_zero hal)).symm
  · unfold byteAt
    rw [lastWrite_nil]
    rcases h : (List.replicate (L / minPageSize) (none : Option Nat))[o / minPageSize]? with
      _ | _ | p
    · rfl
    · rfl
    · exact absurd h (hnone _ p)

end Spec

/-! ### Steps of an area among other objects

Where an area shares the machine with other objects and the page source can run out, a call is
described by what it does to the area's footprint, the bytes of its pages (`Step`): the frame
rule of `Grows` then says what it leaves alone, and the count of empty slots says how many pages
it may still take. -/

/-- The bytes of the pages an area holds. -/
def footprint (area : VmArea) : Set Nat :=
  {a | ∃ (i p : Nat), area.pages[i]? = some (some p) ∧ a ∈ Set.Ico p (p + minPageSize)}

/-- The slots of an area still without a page. -/
def emptySlots (area : VmArea) : Nat := area.pages.count none

/-- An area of empty slots holds no page. -/
theorem footprint_replicate_none (n len : Nat) : footprint ⟨List.replicate n none, len⟩ = ∅ := by
  ext a
  simp [footprint, List.getElem?_replicate]

section Steps

variable {σ : Type} (allocPage : σ → ByteMem → Option Nat × σ × ByteMem) (inv : σ → Prop)
  (avail : σ → Set Nat) (capacity : σ → Nat)

/-- A call of an area, for a page source with `capacity s` pages left: the area keeps its
invariant, its length and the pages it had; a page it gains comes from the source; it writes only
its own pages; and each slot it fills uses up at most one page of the capacity. -/
structure Step (area : VmArea) (m : Machine σ) (area' : VmArea) (m' : Machine σ) : Prop where
  valid : Valid inv avail area' m'
  len_eq : area'.len = area.len
  length_pages : area'.pages.length = area.pages.length
  keeps : ∀ (i p : Nat), area.pages[i]? = some (some p) → area'.pages[i]? = some (some p)
  from_source : ∀ (i p : Nat), area'.pages[i]? = some (some p) →
    area.pages[i]? = some (some p) ∨ ∃ s mem, inv s ∧ (allocPage s mem).1 = some p
  grows : Grows (avail m.pa) (avail m'.pa) (footprint area) (footprint area') m.mem m'.mem
  capacity_le : capacity m.pa + emptySlots area' ≤ capacity m'.pa + emptySlots area

variable {allocPage inv avail capacity}

theorem mem_footprint {area : VmArea} {i p a : Nat} (hp : area.pages[i]? = some (some p))
    (ha : a ∈ Set.Ico p (p + minPageSize)) : a ∈ footprint area :=
  ⟨i, p, hp, ha⟩

theorem footprint_subset {area area' : VmArea}
    (hkeeps : ∀ (i p : Nat), area.pages[i]? = some (some p) → area'.pages[i]? = some (some p)) :
    footprint area ⊆ footprint area' :=
  fun _ ⟨i, p, hp, ha⟩ => ⟨i, p, hkeeps i p hp, ha⟩

theorem Valid.disjoint_footprint {area : VmArea} {m : Machine σ} (hv : Valid inv avail area m) :
    Disjoint (footprint area) (avail m.pa) := by
  rw [Set.disjoint_left]
  rintro a ⟨i, p, hp, ha⟩ hav
  exact Set.disjoint_left.mp (hv.taken i p hp) ha hav

namespace Step

variable {area area₁ area₂ : VmArea} {m m₁ m₂ : Machine σ}

theorem refl (hv : Valid inv avail area m) : Step allocPage inv avail capacity area m area m :=
  ⟨hv, rfl, rfl, fun _ _ h => h, fun _ _ h => .inl h, .refl hv.disjoint_footprint _, le_rfl⟩

theorem trans (h₁ : Step allocPage inv avail capacity area m area₁ m₁)
    (h₂ : Step allocPage inv avail capacity area₁ m₁ area₂ m₂) :
    Step allocPage inv avail capacity area m area₂ m₂ where
  valid := h₂.valid
  len_eq := h₂.len_eq.trans h₁.len_eq
  length_pages := h₂.length_pages.trans h₁.length_pages
  keeps := fun i p h => h₂.keeps i p (h₁.keeps i p h)
  from_source := fun i p h => (h₂.from_source i p h).elim (h₁.from_source i p) .inr
  grows := h₁.grows.trans h₂.grows
  capacity_le := by
    have h₁c := h₁.capacity_le
    have h₂c := h₂.capacity_le
    omega

/-- The empty slots stay within the capacity. -/
theorem emptySlots_le (h : Step allocPage inv avail capacity area m area₁ m₁)
    (hcap : emptySlots area ≤ capacity m.pa) : emptySlots area₁ ≤ capacity m₁.pa := by
  have := h.capacity_le
  omega

/-- Storing bytes inside one of the area's pages. -/
theorem writeBytes (hv : Valid inv avail area m) {index p po : Nat} {bytes : List UInt8}
    (hp : area.pages[index]? = some (some p)) (hfit : po + bytes.length ≤ minPageSize) :
    Step allocPage inv avail capacity area m area { m with mem := m.mem.writeBytes (p + po) bytes } := by
  refine ⟨hv.with_mem _, rfl, rfl, fun _ _ h => h, fun _ _ h => .inl h,
    ⟨subset_rfl, subset_rfl, Set.subset_union_left, hv.disjoint_footprint, fun a ha => ?_⟩, le_rfl⟩
  refine ByteMem.writeBytes_apply_of_not_mem m.mem fun hin => ha (mem_footprint hp ?_)
  rw [Set.mem_Ico] at hin ⊢
  omega

end Step

/-- Filling the empty slot `index` with a page fresh from the source keeps the invariant. -/
theorem Valid.fill {area : VmArea} {m : Machine σ} (hv : Valid inv avail area m) {index p : Nat}
    (hindex : index < area.pages.length) {pa' : σ} (hinv : inv pa')
    (hfr : Set.Ico p (p + minPageSize) ⊆ avail m.pa)
    (htaken : Disjoint (Set.Ico p (p + minPageSize)) (avail pa')) (hshrink : avail pa' ⊆ avail m.pa)
    (mem' : ByteMem) :
    Valid inv avail { area with pages := area.pages.set index (some p) } ⟨pa', mem'⟩ := by
  have hnew : ∀ (i q : Nat), area.pages[i]? = some (some q) →
      Disjoint (Set.Ico q (q + minPageSize)) (Set.Ico p (p + minPageSize)) :=
    fun i q hq => (hv.taken i q hq).mono_right hfr
  refine ⟨hinv, by simp [hv.len_eq], fun i j q r hij hq hr => ?_, fun i q hq => ?_⟩
  · simp only [getElem?_set_pages hindex] at hq hr
    split_ifs at hq hr with hi hj hj
    · exact absurd (hi.trans hj.symm) hij
    · cases hq
      exact (hnew j r hr).symm
    · cases hr
      exact hnew i q hq
    · exact hv.disjoint i j q r hij hq hr
  · simp only [getElem?_set_pages hindex] at hq
    split_ifs at hq with hi
    · cases hq
      exact htaken
    · exact (hv.taken i q hq).mono_right hshrink

/-- `get_or_fill` returns the page of `index`; an empty slot takes a page from the source, which
has one left while the capacity covers the empty slots. The bytes of the area stay. -/
theorem getOrFill_step (hfresh : FreshPages allocPage inv avail)
    (hsup : Supplies allocPage inv capacity) {area : VmArea} {m : Machine σ}
    (hv : Valid inv avail area m) {index : Nat} (hindex : index < area.pages.length)
    (hcap : emptySlots area ≤ capacity m.pa) :
    ∃ paddr area' m', (getOrFill allocPage index).run (area, m) = .ok paddr (area', m') ∧
      Step allocPage inv avail capacity area m area' m' ∧ area'.pages[index]? = some (some paddr) ∧
      ∀ o, byteAt area' m'.mem o = byteAt area m.mem o := by
  obtain ⟨slot, hslot⟩ : ∃ slot, area.pages[index]? = some slot :=
    ⟨_, List.getElem?_eq_getElem hindex⟩
  rcases slot with _ | p
  swap
  · refine ⟨p, area, m, ?_, .refl hv, hslot, fun _ => rfl⟩
    simp only [getOrFill, EStateM.run_bind, EStateM.run_get, hslot]
    rfl
  have hpa := hv.inv_pa
  have hempty : 0 < emptySlots area := List.count_pos_iff.mpr (List.mem_of_getElem? hslot)
  have hsome := hsup.returns m.pa m.mem hpa (by omega)
  have hcap' := hsup.capacity_alloc m.pa m.mem hpa
  rcases hal : allocPage m.pa m.mem with ⟨_ | p, pa', mem'⟩
  · rw [hal] at hsome
    cases hsome
  simp only [hal] at hcap'
  obtain ⟨hzero, hfr, htaken, hshrink, hinv⟩ := hfresh.of_alloc hpa hal
  set area' : VmArea := { area with pages := area.pages.set index (some p) } with harea'
  have hv' : Valid inv avail area' ⟨pa', mem'⟩ := hv.fill hindex hinv hfr htaken hshrink mem'
  have hkeeps : ∀ (i q : Nat), area.pages[i]? = some (some q) → area'.pages[i]? = some (some q) := by
    intro i q hq
    rw [harea', getElem?_set_pages hindex, if_neg]
    · exact hq
    · rintro rfl
      rw [hslot] at hq
      cases hq
  have hcount : emptySlots area' + 1 = emptySlots area := by
    have hget : area.pages[index] = none := by
      rw [List.getElem?_eq_getElem hindex] at hslot
      exact Option.some.inj hslot
    have hpos : 0 < area.pages.count none := hempty
    show (area.pages.set index (some p)).count none + 1 = area.pages.count none
    rw [List.count_set hindex, hget, if_pos (beq_self_eq_true _), if_neg (by simp)]
    omega
  refine ⟨p, area', ⟨pa', mem'⟩, ?_, ⟨hv', rfl, List.length_set .., hkeeps, fun i q hq => ?_,
    ⟨hshrink, footprint_subset hkeeps, fun a ha => ?_, hv'.disjoint_footprint, fun a ha => ?_⟩,
    by dsimp only; omega⟩, by simp [harea', getElem?_set_pages hindex], fun o => ?_⟩
  · simp only [getOrFill, EStateM.run_bind, EStateM.run_get, hslot, hal]
    rfl
  · rw [harea', getElem?_set_pages hindex] at hq
    split_ifs at hq with hi
    · cases hq
      exact .inr ⟨m.pa, m.mem, hpa, by rw [hal]⟩
    · exact .inl hq
  · obtain ⟨i, q, hq, haq⟩ := ha
    rw [harea', getElem?_set_pages hindex] at hq
    split_ifs at hq with hi
    · cases hq
      exact .inr (hfr haq)
    · exact .inl ⟨i, q, hq, haq⟩
  · have hout : a ∉ Set.Ico p (p + minPageSize) := fun hin =>
      ha (mem_footprint (i := index) (by simp [harea', getElem?_set_pages hindex]) hin)
    rw [hzero]
    exact ByteMem.fill_apply_of_not_mem m.mem 0 hout
  · rw [hzero]
    exact byteAt_fill hindex hslot (fun i q hq => (hv.taken i q hq).mono_right hfr) o

/-- `write`'s loop stores `data` at `offset`, taking pages for the empty slots it touches while
the capacity covers the empty slots; no other byte of the area changes. -/
theorem writeLoop_step (hfresh : FreshPages allocPage inv avail)
    (hsup : Supplies allocPage inv capacity) :
    ∀ (n offset : Nat) (data : List UInt8) (area : VmArea) (m : Machine σ), data.length = n →
      Valid inv avail area m → offset + data.length ≤ area.len → emptySlots area ≤ capacity m.pa →
      ∃ area' m', (writeLoop allocPage offset data).run (area, m) = .ok () (area', m') ∧
        Step allocPage inv avail capacity area m area' m' ∧
        ∀ o, byteAt area' m'.mem o = if offset ≤ o ∧ o < offset + data.length
          then (data[o - offset]?).getD 0 else byteAt area m.mem o := by
  intro n
  induction n using Nat.strong_induction_on with
  | _ n ih =>
  intro offset data area m hn hv hfit hcap
  by_cases hdata : data = []
  · subst hdata
    refine ⟨area, m, by rw [writeLoop, dif_pos rfl]; rfl, .refl hv, fun o => ?_⟩
    rw [if_neg (by simp)]
  have hpos : 0 < data.length := List.length_pos_iff.mpr hdata
  have hm : minPageSize = 4096 := rfl
  set index := offset / minPageSize with hindex_def
  set pageOffset := offset % minPageSize with hpo_def
  set copyLen := min data.length (minPageSize - pageOffset) with hcopy_def
  have hpo : pageOffset < minPageSize := Nat.mod_lt _ (by decide)
  have hoff : index * minPageSize + pageOffset = offset := Nat.div_add_mod' offset minPageSize
  have hindex : index < area.pages.length := by
    have hlen := hv.len_eq
    rw [hm] at hlen hindex_def
    omega
  obtain ⟨p, area1, m1, hrun1, hstep1, hp1, hbyte1⟩ := getOrFill_step hfresh hsup hv hindex hcap
  set m2 : Machine σ := { m1 with mem := m1.mem.writeBytes (p + pageOffset) (data.take copyLen) }
  have hfit2 : pageOffset + (data.take copyLen).length ≤ minPageSize := by
    rw [List.length_take]
    omega
  have hstep2 : Step allocPage inv avail capacity area1 m1 area1 m2 :=
    .writeBytes hstep1.valid hp1 hfit2
  obtain ⟨area', m', hrun', hstep', hbyte'⟩ :=
    ih _ (by rw [List.length_drop]; omega) (offset + copyLen) (data.drop copyLen) area1 m2 rfl
      hstep2.valid (by rw [List.length_drop, hstep1.len_eq]; omega)
      ((hstep1.trans hstep2).emptySlots_le hcap)
  refine ⟨area', m', ?_, (hstep1.trans hstep2).trans hstep', fun o => ?_⟩
  · rw [writeLoop, dif_neg hdata]
    simp only [EStateM.run_bind, ← hindex_def, ← hpo_def, ← hcopy_def, hrun1, EStateM.run_modify]
    exact hrun'
  · rw [hbyte', byteAt_writeBytes hstep1.valid.disjoint hp1 hfit2 o, hbyte1, hoff, List.length_drop,
      List.length_take, min_eq_left (by omega : copyLen ≤ data.length)]
    by_cases h1 : offset + copyLen ≤ o ∧ o < offset + copyLen + (data.length - copyLen)
    · rw [if_pos h1, if_pos (by omega), List.getElem?_drop]
      congr 2
      omega
    · rw [if_neg h1]
      by_cases h2 : offset ≤ o ∧ o < offset + copyLen
      · rw [if_pos h2, if_pos (by omega), List.getElem?_take_of_lt (by omega)]
      · rw [if_neg h2, if_neg (by omega)]

/-- `read`'s loop returns the `n` bytes of the area from `offset` on, taking pages for the empty
slots it touches while the capacity covers the empty slots; no byte of the area changes. -/
theorem readLoop_step (hfresh : FreshPages allocPage inv avail)
    (hsup : Supplies allocPage inv capacity) :
    ∀ (n offset : Nat) (area : VmArea) (m : Machine σ), Valid inv avail area m →
      offset + n ≤ area.len → emptySlots area ≤ capacity m.pa →
      ∃ area' m', (readLoop allocPage offset n).run (area, m) =
          .ok ((List.range n).map fun j => byteAt area m.mem (offset + j)) (area', m') ∧
        Step allocPage inv avail capacity area m area' m' ∧
        ∀ o, byteAt area' m'.mem o = byteAt area m.mem o := by
  intro n
  induction n using Nat.strong_induction_on with
  | _ n ih =>
  intro offset area m hv hfit hcap
  by_cases hn : n = 0
  · subst hn
    exact ⟨area, m, by rw [readLoop, dif_pos rfl]; rfl, .refl hv, fun _ => rfl⟩
  have hm : minPageSize = 4096 := rfl
  set index := offset / minPageSize with hindex_def
  set offsetInPage := offset % minPageSize with hoip_def
  set copyLen := min n (minPageSize - offsetInPage) with hcopy_def
  have hoip : offsetInPage < minPageSize := Nat.mod_lt _ (by decide)
  have hoff : index * minPageSize + offsetInPage = offset := Nat.div_add_mod' offset minPageSize
  have hindex : index < area.pages.length := by
    have hlen := hv.len_eq
    rw [hm] at hlen hindex_def
    omega
  obtain ⟨p, area1, m1, hrun1, hstep1, hp1, hbyte1⟩ := getOrFill_step hfresh hsup hv hindex hcap
  have hchunk : m1.mem.readBytes (p + offsetInPage) copyLen =
      (List.range copyLen).map fun j => byteAt area m.mem (offset + j) := by
    rw [ByteMem.readBytes_eq_map]
    refine List.map_congr_left fun j hj => ?_
    rw [List.mem_range] at hj
    rw [← hbyte1, ← hoff, Nat.add_assoc (index * minPageSize),
      byteAt_of_page hp1 (by omega : offsetInPage + j < minPageSize), Nat.add_assoc]
  obtain ⟨area', m', hrun', hstep', hbyte'⟩ :=
    ih (n - copyLen) (by omega) (offset + copyLen) area1 m1 hstep1.valid
      (by rw [hstep1.len_eq]; omega) (hstep1.emptySlots_le hcap)
  refine ⟨area', m', ?_, hstep1.trans hstep', fun o => by rw [hbyte', hbyte1]⟩
  rw [readLoop, dif_neg hn]
  simp only [EStateM.run_bind, ← hindex_def, ← hoip_def, ← hcopy_def, hrun1, EStateM.run_get,
    hrun', EStateM.run_pure]
  rw [hchunk]
  have hsplit : n = copyLen + (n - copyLen) := by omega
  conv_rhs => rw [hsplit, List.range_add, List.map_append, List.map_map]
  congr 2
  refine List.map_congr_left fun j _ => ?_
  simp only [Function.comp_apply, hbyte1, Nat.add_assoc]

/-- `ensure_page(index)` inside the area is `get_or_fill`. -/
theorem ensurePage_step (hfresh : FreshPages allocPage inv avail)
    (hsup : Supplies allocPage inv capacity) {area : VmArea} {m : Machine σ}
    (hv : Valid inv avail area m) {index : Nat} (hindex : index < area.pages.length)
    (hcap : emptySlots area ≤ capacity m.pa) :
    ∃ paddr area' m', (ensurePage allocPage index).run (area, m) = .ok paddr (area', m') ∧
      Step allocPage inv avail capacity area m area' m' ∧ area'.pages[index]? = some (some paddr) ∧
      ∀ o, byteAt area' m'.mem o = byteAt area m.mem o := by
  obtain ⟨paddr, area', m', hrun, hrest⟩ := getOrFill_step hfresh hsup hv hindex hcap
  refine ⟨paddr, area', m', ?_, hrest⟩
  simp only [ensurePage, EStateM.run_bind, EStateM.run_get, if_neg (Nat.not_le.mpr hindex)]
  exact hrun

/-- The invariant survives the source handing out other pages. -/
theorem Valid.of_avail {area : VmArea} {m m' : Machine σ} (hv : Valid inv avail area m)
    (hinv : inv m'.pa) (havail : avail m'.pa ⊆ avail m.pa) : Valid inv avail area m' :=
  ⟨hinv, hv.len_eq, hv.disjoint, fun i p hp => (hv.taken i p hp).mono_right havail⟩

/-- The bytes of an area are those of its pages. -/
theorem byteAt_of_eqOn {area : VmArea} {mem mem' : ByteMem}
    (h : Set.EqOn mem' mem (footprint area)) (o : Nat) : byteAt area mem' o = byteAt area mem o := by
  unfold byteAt
  rcases hslot : area.pages[o / minPageSize]? with _ | _ | p
  · rfl
  · rfl
  · exact h (mem_footprint hslot (add_mod_mem_page p o))

/-- The pages of an area are page-aligned, as a page-table entry needs them. -/
def PagesAligned (area : VmArea) : Prop :=
  ∀ (i p : Nat), area.pages[i]? = some (some p) → p % minPageSize = 0

theorem Step.pagesAligned {area area' : VmArea} {m m' : Machine σ}
    (h : Step allocPage inv avail capacity area m area' m') (haddrs : PageAddrs allocPage inv)
    (hal : PagesAligned area) : PagesAligned area' := by
  intro i p hp
  rcases h.from_source i p hp with hold | ⟨s, mem, hs, halloc⟩
  · exact hal i p hold
  · exact (haddrs s mem p hs halloc).1

/-- An area all of whose slots hold a page. -/
theorem emptySlots_eq_zero {area : VmArea}
    (h : ∀ i < area.pages.length, ∃ p, area.pages[i]? = some (some p)) : emptySlots area = 0 := by
  rw [emptySlots, List.count_eq_zero]
  intro hmem
  obtain ⟨i, hi, hget⟩ := List.getElem_of_mem hmem
  obtain ⟨p, hp⟩ := h i hi
  rw [List.getElem?_eq_getElem hi, hget] at hp
  cases hp

end Steps

/-- A page source that never runs out: pages go upwards from `next`. -/
def unboundedPages (next : Nat) (mem : ByteMem) : Option Nat × Nat × ByteMem :=
  (some next, next + minPageSize, mem.fill next minPageSize 0)

theorem freshPages_unboundedPages :
    FreshPages unboundedPages (fun _ => True) (fun next => Set.Ici next) := by
  refine ⟨fun _ _ _ => trivial, fun next mem p _ h => ?_, fun _ _ _ h => ?_,
    fun next mem p _ h => ?_, fun next mem _ => ?_, fun next mem p _ h => ?_⟩
  · cases h
    rfl
  · cases h
  · cases h
    exact Set.Ico_subset_Ici_self
  · exact Set.Ici_subset_Ici.mpr (Nat.le_add_right _ _)
  · cases h
    rw [Set.disjoint_left]
    intro a ha hb
    rw [Set.mem_Ico] at ha
    exact absurd hb (by simp [unboundedPages]; omega)

theorem exec_eq_specExec_unbounded :
    exec unboundedPages [.write 4095 [1, 2], .read 4094 [0, 0, 0, 0]]
        (⟨[none, none], 8192⟩, ⟨0, ByteMem.zero⟩) =
      specExec 8192 [.write 4095 [1, 2], .read 4094 [0, 0, 0, 0]] [] :=
  exec_eq_specExec freshPages_unboundedPages (fun _ _ _ => rfl) (by decide) (by rfl) _ trivial _

end VmArea

end Ftl

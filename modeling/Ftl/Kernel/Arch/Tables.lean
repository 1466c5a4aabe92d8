import Mathlib
import Ftl.Lib.Footprint
import Ftl.Kernel.Arch.VmSpace

/-!
# The page tables of an address space

The tables an address space reaches from its PML4 form a tree: the PML4, the PDPT that a present
entry of the PML4 points at, and so on down to the page tables, whose entries map pages. A path of
indices names each table: `[]` the PML4, `[a]` the PDPT of entry `a`, `[a, b]` and `[a, b, c]` the
page directory and the page table below. `TablesOk addr mem mapped` says that the partial map
`addr` from paths to physical addresses is that tree in the memory `mem`: the tables are distinct
pages, a present entry of a table is exactly a link to the table of the next path and is never
huge, and a present entry of a page table maps a page of `mapped`. Only the user half of the PML4,
its entries below `256`, belongs to the space: entry `256` points at the `BOOT_PDPT` that every
space shares.

`ensure_next_table` either follows a link or adds a fresh table to the tree
(`ensureNextTable_spec`), `VmSpace::new` starts the tree with a fresh PML4 (`VmSpace.new_spec`),
and `map` of a page that is not mapped yet adds it to `mapped` (`VmSpace.map_spec`). Each writes
only the tables' pages and the pages it takes from the source: seen through `Grows`, the tree is
one object of the machine.

## Main definitions

* `Ftl.Arch.TablesOk`, `Ftl.Arch.tablePages`.

## Main results

* `Ftl.Arch.TablesOk.linkTable`, `Ftl.Arch.TablesOk.setLeaf`: a new table, a new leaf entry.
* `Ftl.Arch.ensureNextTable_spec`, `Ftl.Arch.VmSpace.new_spec`, `Ftl.Arch.VmSpace.map_spec`.
-/

namespace Ftl.Arch

/-! ### Entries -/

theorem isPresent_iff (x : Nat) : isPresent x = true ↔ x % 2 = 1 := by
  rw [isPresent, pteV, Nat.shiftLeft_zero, Nat.and_one_is_mod, bne_iff_ne, ne_eq]
  omega

theorem isHuge_eq_false_iff (x : Nat) : isHuge x = false ↔ x / 2 ^ 7 % 2 = 0 := by
  rw [isHuge, pteHuge, Nat.one_shiftLeft, bne_eq_false_iff_eq, Word.land_two_pow_eq_zero_iff]

/-- `Pte::paddr` keeps bits `12 .. 51`. -/
theorem ptePaddr_eq (x : Nat) : ptePaddr x = x % 2 ^ 52 / 2 ^ 12 * 2 ^ 12 := by
  rw [ptePaddr, show (0x000f_ffff_ffff_f000 : Nat) = Word.compl 52 (2 ^ 12 - 1) by decide,
    Word.land_compl_low_mask (by decide)]

/-- Flags in the low bits of a page's address are added to it. -/
theorem lor_eq_add {q f : Nat} (hq : q % minPageSize = 0) (hf : f < minPageSize) :
    q ||| f = q + f := by
  have hm : minPageSize = 2 ^ 12 := rfl
  rw [hm] at hq hf
  have hshift : q = (q / 2 ^ 12) <<< 12 := by
    rw [Nat.shiftLeft_eq]
    omega
  rw [hshift, ← Nat.shiftLeft_add_eq_or_of_lt hf]

/-- An entry for the page at `q` with the flags `f`, as stored in a table: present when `f`
holds `PTE_V`, never huge when `f` is below `PTE_HUGE`, and naming `q`. -/
theorem entry_of_page {q f : Nat} (hq : q % minPageSize = 0) (hlt : q < 2 ^ 52) (hf : f < 2 ^ 7) :
    (isPresent ((q ||| f) % 2 ^ 64) = true ↔ f % 2 = 1) ∧ isHuge ((q ||| f) % 2 ^ 64) = false ∧
      ptePaddr ((q ||| f) % 2 ^ 64) = q := by
  have hm : minPageSize = 4096 := rfl
  rw [lor_eq_add hq (by rw [hm]; omega), Nat.mod_eq_of_lt (by rw [hm] at hq; omega),
    isPresent_iff, isHuge_eq_false_iff, ptePaddr_eq]
  rw [hm] at hq
  refine ⟨by omega, by omega, by omega⟩

theorem isPresent_zero : isPresent 0 = false := rfl

/-- The flags of a table entry, `PTE_V | PTE_W | PTE_U`. -/
theorem tableFlags_eq : pteV ||| pteW ||| pteU = 7 := rfl

/-- The flags of a leaf entry, `PTE_V | PTE_U | attrs`, are below `PTE_HUGE` and hold `PTE_V`. -/
theorem leafFlags (attrs : PageAttrs) :
    pteV ||| pteU ||| attrs.asRaw < 2 ^ 7 ∧ (pteV ||| pteU ||| attrs.asRaw) % 2 = 1 := by
  obtain ⟨r, hr⟩ := attrs
  simp only [PageAttrs.asRaw]
  interval_cases r <;> decide

/-! ### Entries in memory -/

/-- The eight bytes of entry `i < 512` lie in its table's page. -/
theorem slot_subset {t i : Nat} (hi : i < entriesPerTable) :
    Set.Ico (t + 8 * i) (t + 8 * i + 8) ⊆ Set.Ico t (t + minPageSize) := by
  intro a ha
  have he : entriesPerTable = 512 := rfl
  have hm : minPageSize = 4096 := rfl
  rw [Set.mem_Ico] at ha ⊢
  omega

theorem readPte_of_eqOn {mem mem' : ByteMem} {S : Set Nat} {t i : Nat} (h : Set.EqOn mem' mem S)
    (hi : i < entriesPerTable) (hS : Set.Ico t (t + minPageSize) ⊆ S) :
    readPte mem' t i = readPte mem t i :=
  ByteMem.readLE_eq_of_eqOn h ((slot_subset hi).trans hS)

theorem readPte_writePte_self (mem : ByteMem) (t i v : Nat) :
    readPte (writePte mem t i v) t i = v % 2 ^ 64 := by
  rw [readPte, writePte, ByteMem.readLE_writeLE_self]
  rfl

/-- Writing one entry leaves every other entry of every table alone. -/
theorem readPte_writePte_of_ne (mem : ByteMem) {t t' i i' : Nat} (v : Nat)
    (ht : t % minPageSize = 0) (ht' : t' % minPageSize = 0) (hi : i < entriesPerTable)
    (hi' : i' < entriesPerTable) (hne : t ≠ t' ∨ i ≠ i') :
    readPte (writePte mem t i v) t' i' = readPte mem t' i' := by
  have he : entriesPerTable = 512 := rfl
  have hm : minPageSize = 4096 := rfl
  rw [he] at hi hi'
  rw [hm] at ht ht'
  apply ByteMem.readLE_congr
  intro a ha ha'
  exact ByteMem.writeLE_apply_of_not_mem mem (by omega)

theorem readPte_fill_zero (mem : ByteMem) {q i : Nat} (hi : i < entriesPerTable) :
    readPte (mem.fill q minPageSize 0) q i = 0 := by
  have he : entriesPerTable = 512 := rfl
  have hm : minPageSize = 4096 := rfl
  rw [he] at hi
  exact ByteMem.readLE_fill_zero (by omega) (by rw [hm]; omega)

/-! ### The tree of tables -/

/-- The entries of the table at `path` that belong to the space: those of the user half in the
PML4, all of them further down. -/
def width (path : List Nat) : Nat := if path = [] then 256 else entriesPerTable

/-- The virtual page number that a path of indices leads to. -/
def pageOf (path : List Nat) : Nat := path.foldl (fun v i => v * entriesPerTable + i) 0

/-- The bytes of the tables of the tree `addr`. -/
def tablePages (addr : List Nat → Option Nat) : Set Nat :=
  {a | ∃ (path : List Nat) (t : Nat), addr path = some t ∧ a ∈ Set.Ico t (t + minPageSize)}

/-- `addr` names the tree of tables in `mem`, by path, and the page tables map only pages of
`mapped`. -/
structure TablesOk (addr : List Nat → Option Nat) (mem : ByteMem) (mapped : Set Nat) : Prop where
  aligned : ∀ path t, addr path = some t → t % minPageSize = 0
  injective : ∀ p q t, addr p = some t → addr q = some t → p = q
  depth : ∀ path t, addr path = some t → path.length ≤ 3
  parent : ∀ path i, (addr (path ++ [i])).isSome → (addr path).isSome
  /-- A present entry is the link to the next table, and is not huge. -/
  link : ∀ path t i, addr path = some t → path.length < 3 → i < width path →
    isPresent (readPte mem t i) = (addr (path ++ [i])).isSome ∧
      ∀ q, addr (path ++ [i]) = some q →
        isHuge (readPte mem t i) = false ∧ ptePaddr (readPte mem t i) = q
  /-- A present entry of a page table maps a page of `mapped`. -/
  leaf : ∀ path t i, addr path = some t → path.length = 3 → i < entriesPerTable →
    isPresent (readPte mem t i) = true → pageOf (path ++ [i]) ∈ mapped

theorem width_le (path : List Nat) : width path ≤ entriesPerTable := by
  unfold width
  split_ifs <;> decide

theorem page_subset_tablePages {addr : List Nat → Option Nat} {path : List Nat} {t : Nat}
    (ht : addr path = some t) : Set.Ico t (t + minPageSize) ⊆ tablePages addr :=
  fun _ ha => ⟨path, t, ht, ha⟩

/-- A page apart from the tree's pages is no table of it. -/
theorem ne_of_disjoint_tablePages {addr : List Nat → Option Nat} {q : Nat}
    (hq : Disjoint (Set.Ico q (q + minPageSize)) (tablePages addr)) {path : List Nat} {t : Nat}
    (ht : addr path = some t) : t ≠ q := by
  rintro rfl
  have hm : minPageSize = 4096 := rfl
  have hmem : t ∈ Set.Ico t (t + minPageSize) := by
    rw [Set.mem_Ico, hm]
    omega
  exact Set.disjoint_left.mp hq hmem (page_subset_tablePages ht hmem)

/-- A table of the tree after one is added at `P`: the new one, or an old one elsewhere. -/
theorem update_eq_some {addr : List Nat → Option Nat} {P p : List Nat} {q t : Nat}
    (h : Function.update addr P (some q) p = some t) :
    (p = P ∧ t = q) ∨ (p ≠ P ∧ addr p = some t) := by
  by_cases hp : p = P
  · subst hp
    rw [Function.update_self] at h
    exact .inl ⟨rfl, (Option.some.inj h).symm⟩
  · rw [Function.update_of_ne hp] at h
    exact .inr ⟨hp, h⟩

namespace TablesOk

variable {addr : List Nat → Option Nat} {mem : ByteMem} {mapped : Set Nat}

theorem mono (hok : TablesOk addr mem mapped) {mapped' : Set Nat} (h : mapped ⊆ mapped') :
    TablesOk addr mem mapped' :=
  ⟨hok.aligned, hok.injective, hok.depth, hok.parent, hok.link,
    fun path t i ht hlen hi hp => h (hok.leaf path t i ht hlen hi hp)⟩

/-- The tree reads only its own pages. -/
theorem of_eqOn (hok : TablesOk addr mem mapped) {mem' : ByteMem}
    (h : Set.EqOn mem' mem (tablePages addr)) : TablesOk addr mem' mapped := by
  have hread : ∀ path t i, addr path = some t → i < entriesPerTable →
      readPte mem' t i = readPte mem t i :=
    fun path t i ht hi => readPte_of_eqOn h hi (page_subset_tablePages ht)
  refine ⟨hok.aligned, hok.injective, hok.depth, hok.parent, fun path t i ht hlen hi => ?_,
    fun path t i ht hlen hi hp => ?_⟩
  · rw [hread path t i ht ((hi.trans_le (width_le path)))]
    exact hok.link path t i ht hlen hi
  · rw [hread path t i ht hi] at hp
    exact hok.leaf path t i ht hlen hi hp

/-- Linking a fresh zeroed table from entry `i` of the table at `path`, where no table was: the
tree gains it at `path ++ [i]`. -/
theorem linkTable (hok : TablesOk addr mem mapped) {path : List Nat} {t i q : Nat}
    (ht : addr path = some t) (hlen : path.length < 3) (hi : i < width path)
    (hnone : addr (path ++ [i]) = none) (hq : q % minPageSize = 0) (hqlt : q < 2 ^ 52)
    (hfresh : Disjoint (Set.Ico q (q + minPageSize)) (tablePages addr)) :
    TablesOk (Function.update addr (path ++ [i]) (some q))
      (writePte (mem.fill q minPageSize 0) t i (q ||| 7)) mapped := by
  set P := path ++ [i] with hP
  have hi' : i < entriesPerTable := hi.trans_le (width_le path)
  have htq : t ≠ q := ne_of_disjoint_tablePages hfresh ht
  have htal := hok.aligned path t ht
  have hold : ∀ p' t' j, addr p' = some t' → j < entriesPerTable → (t ≠ t' ∨ i ≠ j) →
      readPte (writePte (mem.fill q minPageSize 0) t i (q ||| 7)) t' j = readPte mem t' j := by
    intro p' t' j ht' hj hne
    rw [readPte_writePte_of_ne _ _ htal (hok.aligned p' t' ht') hi' hj hne]
    refine readPte_of_eqOn (ByteMem.eqOn_fill mem q minPageSize 0) hj fun a ha hin => ?_
    exact Set.disjoint_left.mp hfresh hin (page_subset_tablePages ht' ha)
  have hnew : ∀ j < entriesPerTable,
      readPte (writePte (mem.fill q minPageSize 0) t i (q ||| 7)) q j = 0 := by
    intro j hj
    rw [readPte_writePte_of_ne _ _ htal hq hi' hj (.inl htq)]
    exact readPte_fill_zero mem hj
  obtain ⟨hpresent, hhuge, hpaddr⟩ := entry_of_page hq hqlt (by decide : (7 : Nat) < 2 ^ 7)
  have hupd : ∀ p', p' ≠ P → Function.update addr P (some q) p' = addr p' :=
    fun p' h => Function.update_of_ne h _ _
  have hchild : ∀ j, addr (P ++ [j]) = none := by
    intro j
    cases h : addr (P ++ [j]) with
    | none => rfl
    | some _ =>
      have hpar := hok.parent P j (by rw [h]; rfl)
      rw [hnone] at hpar
      cases hpar
  have hchild_ne : ∀ j, P ++ [j] ≠ P := fun j h => by
    simpa using congrArg List.length h
  have hpath_ne : path ≠ P := fun h => by simpa [hP] using congrArg List.length h
  refine ⟨fun p' t' ht' => ?_, fun p₁ p₂ u h₁ h₂ => ?_, fun p' t' ht' => ?_,
    fun p' j hj => ?_, fun p' t' j ht' hlen' hj => ?_, fun p' t' j ht' hlen' hj hp => ?_⟩
  · rcases update_eq_some ht' with ⟨-, rfl⟩ | ⟨-, ht'⟩
    · exact hq
    · exact hok.aligned p' t' ht'
  · rcases update_eq_some h₁ with ⟨rfl, rfl⟩ | ⟨-, h₁⟩ <;>
      rcases update_eq_some h₂ with ⟨rfl, hu⟩ | ⟨-, h₂⟩
    · rfl
    · exact absurd rfl (ne_of_disjoint_tablePages hfresh h₂)
    · exact absurd hu (ne_of_disjoint_tablePages hfresh h₁)
    · exact hok.injective p₁ p₂ u h₁ h₂
  · rcases update_eq_some ht' with ⟨rfl, -⟩ | ⟨-, ht'⟩
    · rw [hP, List.length_append, List.length_singleton]
      omega
    · exact hok.depth p' t' ht'
  · by_cases hp' : p' ++ [j] = P
    · rw [(List.append_singleton_inj.mp hp').1, hupd path hpath_ne, ht]
      rfl
    · rw [hupd _ hp'] at hj
      by_cases hpp : p' = P
      · rw [hpp, hchild] at hj
        cases hj
      · rw [hupd p' hpp]
        exact hok.parent p' j hj
  · rcases update_eq_some ht' with ⟨rfl, rfl⟩ | ⟨-, ht'⟩
    · rw [hnew j (hj.trans_le (width_le _)), hupd _ (hchild_ne j), hchild j]
      exact ⟨rfl, fun _ h => by cases h⟩
    by_cases hlinked : p' = path ∧ j = i
    · obtain ⟨hpp, hji⟩ := hlinked
      rw [hpp] at ht' ⊢
      rw [hji]
      obtain rfl : t' = t := Option.some.inj (ht'.symm.trans ht)
      rw [readPte_writePte_self, ← hP, Function.update_self]
      exact ⟨hpresent.mpr rfl, fun q' h => by cases h; exact ⟨hhuge, hpaddr⟩⟩
    · have hne : t ≠ t' ∨ i ≠ j := by
        by_cases htt : t = t'
        · subst htt
          have := hok.injective _ _ _ ht' ht
          exact .inr fun hij => hlinked ⟨this, hij.symm⟩
        · exact .inl htt
      have hchild' : p' ++ [j] ≠ P := fun h =>
        hlinked (by obtain ⟨h1, h2⟩ := List.append_singleton_inj.mp h; exact ⟨h1, h2⟩)
      rw [hold p' t' j ht' (hj.trans_le (width_le _)) hne, hupd _ hchild']
      exact hok.link p' t' j ht' hlen' hj
  · rcases update_eq_some ht' with ⟨rfl, rfl⟩ | ⟨-, ht'⟩
    · rw [hnew j hj] at hp
      cases hp
    · have hne : t ≠ t' := by
        rintro rfl
        have := hok.injective _ _ _ ht' ht
        rw [this] at hlen'
        omega
      rw [hold p' t' j ht' hj (.inl hne)] at hp
      exact hok.leaf p' t' j ht' hlen' hj hp

/-- A leaf entry written in the page table at `path`: its page joins `mapped`. -/
theorem setLeaf (hok : TablesOk addr mem mapped) {path : List Nat} {t i : Nat}
    (ht : addr path = some t) (hlen : path.length = 3) (hi : i < entriesPerTable) (v : Nat) :
    TablesOk addr (writePte mem t i v) (insert (pageOf (path ++ [i])) mapped) := by
  have htal := hok.aligned path t ht
  have hold : ∀ p' t' j, addr p' = some t' → j < entriesPerTable → (t ≠ t' ∨ i ≠ j) →
      readPte (writePte mem t i v) t' j = readPte mem t' j :=
    fun p' t' j ht' hj hne =>
      readPte_writePte_of_ne _ _ htal (hok.aligned p' t' ht') hi hj hne
  refine ⟨hok.aligned, hok.injective, hok.depth, hok.parent, fun p' t' j ht' hlen' hj => ?_,
    fun p' t' j ht' hlen' hj hp => ?_⟩
  · have hne : t ≠ t' := by
      rintro rfl
      have := hok.injective _ _ _ ht' ht
      rw [this] at hlen'
      omega
    rw [hold p' t' j ht' (hj.trans_le (width_le _)) (.inl hne)]
    exact hok.link p' t' j ht' hlen' hj
  · by_cases hleaf : p' = path ∧ j = i
    · obtain ⟨rfl, rfl⟩ := hleaf
      exact Set.mem_insert _ _
    · have hne : t ≠ t' ∨ i ≠ j := by
        by_cases htt : t = t'
        · subst htt
          have := hok.injective _ _ _ ht' ht
          exact .inr fun hij => hleaf ⟨this, hij.symm⟩
        · exact .inl htt
      rw [hold p' t' j ht' hj hne] at hp
      exact Set.mem_insert_of_mem _ (hok.leaf p' t' j ht' hlen' hj hp)

end TablesOk

theorem tablePages_update_subset (addr : List Nat → Option Nat) (P : List Nat) (q : Nat) :
    tablePages (Function.update addr P (some q)) ⊆ tablePages addr ∪ Set.Ico q (q + minPageSize) := by
  rintro a ⟨p, t, ht, ha⟩
  rcases update_eq_some ht with ⟨-, rfl⟩ | ⟨-, ht⟩
  · exact .inr ha
  · exact .inl ⟨p, t, ht, ha⟩

theorem extends_update {addr : List Nat → Option Nat} {P : List Nat} (hnone : addr P = none)
    (q : Nat) : ∀ p u, addr p = some u → Function.update addr P (some q) p = some u := by
  intro p u hu
  have hp : p ≠ P := by
    rintro rfl
    rw [hnone] at hu
    cases hu
  rwa [Function.update_of_ne hp]

theorem tablePages_mono {addr addr' : List Nat → Option Nat}
    (h : ∀ p u, addr p = some u → addr' p = some u) : tablePages addr ⊆ tablePages addr' :=
  fun _ ⟨p, t, ht, ha⟩ => ⟨p, t, h p t ht, ha⟩

/-! ### Addresses -/

theorem pml4Index_eq (u : Nat) : pml4Index u = u / 2 ^ 39 % 512 := by
  rw [pml4Index, Nat.shiftRight_eq_div_pow, show (0x1ff : Nat) = 2 ^ 9 - 1 from rfl,
    Nat.and_two_pow_sub_one_eq_mod]

theorem pdptIndex_eq (u : Nat) : pdptIndex u = u / 2 ^ 30 % 512 := by
  rw [pdptIndex, Nat.shiftRight_eq_div_pow, show (0x1ff : Nat) = 2 ^ 9 - 1 from rfl,
    Nat.and_two_pow_sub_one_eq_mod]

theorem pdtIndex_eq (u : Nat) : pdtIndex u = u / 2 ^ 21 % 512 := by
  rw [pdtIndex, Nat.shiftRight_eq_div_pow, show (0x1ff : Nat) = 2 ^ 9 - 1 from rfl,
    Nat.and_two_pow_sub_one_eq_mod]

theorem ptIndex_eq (u : Nat) : ptIndex u = u / 2 ^ 12 % 512 := by
  rw [ptIndex, Nat.shiftRight_eq_div_pow, show (0x1ff : Nat) = 2 ^ 9 - 1 from rfl,
    Nat.and_two_pow_sub_one_eq_mod]

/-- The walk of a user address: its four indices lead to its page number. -/
theorem pageOf_indices {u : Nat} (hu : u < 2 ^ 47) :
    pageOf [pml4Index u, pdptIndex u, pdtIndex u, ptIndex u] = u / minPageSize ∧
      pml4Index u < 256 ∧ pdptIndex u < entriesPerTable ∧ pdtIndex u < entriesPerTable ∧
      ptIndex u < entriesPerTable := by
  simp only [pageOf, List.foldl, pml4Index_eq, pdptIndex_eq, pdtIndex_eq, ptIndex_eq,
    entriesPerTable, minPageSize]
  omega

/-! ### The code on the tree -/

section Specs

variable {σ : Type} {allocPage : σ → ByteMem → Option Nat × σ × ByteMem} {inv : σ → Prop}
  {avail : σ → Set Nat} {capacity : σ → Nat}

/-- `alloc_table()` with a page left: a fresh zeroed page, fit for an entry. -/
theorem allocTable_spec (hfresh : FreshPages allocPage inv avail)
    (hsup : Supplies allocPage inv capacity) (haddrs : PageAddrs allocPage inv) {m : Machine σ}
    (hinv : inv m.pa) (hcap : 0 < capacity m.pa) :
    ∃ q pa', (allocTable allocPage).run m = .ok q ⟨pa', m.mem.fill q minPageSize 0⟩ ∧
      q % minPageSize = 0 ∧ q < 2 ^ 52 ∧ Set.Ico q (q + minPageSize) ⊆ avail m.pa ∧
      Disjoint (Set.Ico q (q + minPageSize)) (avail pa') ∧ avail pa' ⊆ avail m.pa ∧ inv pa' ∧
      capacity m.pa ≤ capacity pa' + 1 := by
  have hsome := hsup.returns m.pa m.mem hinv hcap
  have hcap' := hsup.capacity_alloc m.pa m.mem hinv
  rcases hal : allocPage m.pa m.mem with ⟨_ | q, pa', mem'⟩
  · rw [hal] at hsome
    cases hsome
  simp only [hal] at hcap'
  obtain ⟨hzero, hfr, htaken, hshrink, hinv'⟩ := hfresh.of_alloc hinv hal
  obtain ⟨hal', hlt⟩ := haddrs m.pa m.mem q hinv (by rw [hal])
  refine ⟨q, pa', ?_, hal', hlt, hfr, htaken, hshrink, hinv', hcap'⟩
  simp only [allocTable, EStateM.run_bind, EStateM.run_get, hal, hzero]
  rfl

/-- `Pte::new(paddr, flags)` of a page-aligned address. -/
theorem pteNew_of_aligned {m : Machine σ} {paddr : Nat} (h : paddr % minPageSize = 0) (flags : Nat) :
    (pteNew (σ := σ) paddr flags).run m = .ok (paddr ||| flags) m := by
  have hal : isAligned paddr 4096 = true := by
    rw [show (4096 : Nat) = 2 ^ 12 from rfl, isAligned_iff]
    exact h
  simp only [pteNew, hal, if_true]
  rfl

/-- `ensure_next_table(t, i)` on the table at `path`: it follows the link, or links a fresh table
from the source. The tree grows by at most that table, within the pages the source gave up. -/
theorem ensureNextTable_spec (hfresh : FreshPages allocPage inv avail)
    (hsup : Supplies allocPage inv capacity) (haddrs : PageAddrs allocPage inv)
    {addr : List Nat → Option Nat} {m : Machine σ} {mapped : Set Nat}
    (hok : TablesOk addr m.mem mapped) (hinv : inv m.pa)
    (hdisj : Disjoint (tablePages addr) (avail m.pa)) (hcap : 0 < capacity m.pa)
    {path : List Nat} {t i : Nat} (ht : addr path = some t) (hlen : path.length < 3)
    (hi : i < width path) :
    ∃ q addr' m', (ensureNextTable allocPage t i).run m = .ok q m' ∧
      addr' (path ++ [i]) = some q ∧ TablesOk addr' m'.mem mapped ∧
      (∀ p u, addr p = some u → addr' p = some u) ∧
      Grows (avail m.pa) (avail m'.pa) (tablePages addr) (tablePages addr') m.mem m'.mem ∧
      inv m'.pa ∧ capacity m.pa ≤ capacity m'.pa + 1 := by
  obtain ⟨hpresent, hnext⟩ := hok.link path t i ht hlen hi
  cases hent : isPresent (readPte m.mem t i) with
  | true =>
    obtain ⟨q, hq⟩ := Option.isSome_iff_exists.mp (hpresent.symm.trans hent)
    obtain ⟨hhuge, hpaddr⟩ := hnext q hq
    refine ⟨q, addr, m, ?_, hq, hok, fun _ _ h => h, .refl hdisj _, hinv, Nat.le_succ _⟩
    simp only [ensureNextTable, EStateM.run_bind, EStateM.run_get, hent, Bool.not_true,
      Bool.false_eq_true, if_false, hhuge, hpaddr]
    rfl
  | false =>
    have hnone : addr (path ++ [i]) = none := by
      rw [hent, eq_comm, Option.isSome_eq_false_iff, Option.isNone_iff_eq_none] at hpresent
      exact hpresent
    obtain ⟨q, pa', hrun, hqal, hqlt, hfr, htaken, hshrink, hinv', hcap'⟩ :=
      allocTable_spec hfresh hsup haddrs hinv hcap
    have hapart : Disjoint (Set.Ico q (q + minPageSize)) (tablePages addr) :=
      (hdisj.mono_right hfr).symm
    have htal := hok.aligned path t ht
    have hi' : i < entriesPerTable := hi.trans_le (width_le path)
    set addr' := Function.update addr (path ++ [i]) (some q)
    have hext := extends_update hnone q
    have hqmem : Set.Ico q (q + minPageSize) ⊆ tablePages addr' :=
      page_subset_tablePages (Function.update_self _ _ _)
    refine ⟨q, addr', ⟨pa', writePte (m.mem.fill q minPageSize 0) t i (q ||| 7)⟩, ?_,
      Function.update_self _ _ _, ?_, hext, ⟨hshrink, tablePages_mono hext, fun a ha => ?_,
        ?_, fun a ha => ?_⟩, hinv', hcap'⟩
    · simp only [ensureNextTable, EStateM.run_bind, EStateM.run_get, hent, Bool.not_false,
        if_true, hrun, pteNew_of_aligned hqal, EStateM.run_modify, tableFlags_eq]
      rfl
    · exact hok.linkTable ht hlen hi hnone hqal hqlt hapart
    · rcases tablePages_update_subset addr _ q ha with ha | ha
      · exact .inl ha
      · exact .inr (hfr ha)
    · rw [Set.disjoint_left]
      intro a ha hav
      rcases tablePages_update_subset addr _ q ha with ha | ha
      · exact Set.disjoint_left.mp hdisj ha (hshrink hav)
      · exact Set.disjoint_left.mp htaken ha hav
    · have hslot : a ∉ Set.Ico (t + 8 * i) (t + 8 * i + 8) := fun hin =>
        ha (tablePages_mono hext (page_subset_tablePages ht (slot_subset hi' hin)))
      have hfill : a ∉ Set.Ico q (q + minPageSize) := fun hin => ha (hqmem hin)
      show (m.mem.fill q minPageSize 0).writeLE (t + 8 * i) (q ||| 7) 8 a = m.mem a
      rw [ByteMem.eqOn_writeLE _ _ _ _ hslot]
      exact ByteMem.fill_apply_of_not_mem m.mem 0 hfill

/-- The tree of a new space: its PML4 alone. -/
def rootOnly (pml4 : Nat) : List Nat → Option Nat := Function.update (fun _ => none) [] (some pml4)

/-- `VmSpace::new()` with a page left: a fresh PML4, whose user half is empty, and the shared
`BOOT_PDPT` linked at entry `256`. -/
theorem VmSpace.new_spec (hfresh : FreshPages allocPage inv avail)
    (hsup : Supplies allocPage inv capacity) (haddrs : PageAddrs allocPage inv) {m : Machine σ}
    (hinv : inv m.pa) (hcap : 0 < capacity m.pa) {bootPdpt : Nat}
    (hboot : bootPdpt % minPageSize = 0) :
    ∃ vs m', (VmSpace.new allocPage bootPdpt).run m = .ok vs m' ∧
      TablesOk (rootOnly vs.pml4) m'.mem ∅ ∧ vs.cr3 = vs.pml4 ∧
      Grows (avail m.pa) (avail m'.pa) ∅ (tablePages (rootOnly vs.pml4)) m.mem m'.mem ∧
      inv m'.pa ∧ capacity m.pa ≤ capacity m'.pa + 1 := by
  obtain ⟨q, pa', hrun, hqal, hqlt, hfr, htaken, hshrink, hinv', hcap'⟩ :=
    allocTable_spec hfresh hsup haddrs hinv hcap
  have hroot : ∀ p u, rootOnly q p = some u → p = [] ∧ u = q := by
    intro p u h
    rcases update_eq_some h with hnew | ⟨-, h⟩
    · exact hnew
    · cases h
  have hpages : tablePages (rootOnly q) = Set.Ico q (q + minPageSize) := by
    ext a
    constructor
    · rintro ⟨p, u, hu, ha⟩
      obtain ⟨-, rfl⟩ := hroot p u hu
      exact ha
    · exact fun ha => ⟨[], q, Function.update_self _ _ _, ha⟩
  have h256 : (256 : Nat) < entriesPerTable := by decide
  set mem' := writePte (m.mem.fill q minPageSize 0) q 256 (bootPdpt ||| pteV)
  have hzero : ∀ i < width [], readPte mem' q i = 0 := by
    intro i hi
    have hi' : i < 256 := hi
    rw [readPte_writePte_of_ne _ _ hqal hqal h256 (hi'.trans h256) (.inr (by omega))]
    exact readPte_fill_zero m.mem (hi'.trans h256)
  refine ⟨⟨q, q⟩, ⟨pa', mem'⟩, ?_, ⟨fun p u hu => ?_, fun p₁ p₂ u h₁ h₂ => ?_, fun p u hu => ?_,
    fun p i hi => ?_, fun p u i hu _ hi => ?_, fun p u i hu hlen _ _ => ?_⟩, rfl,
    ⟨hshrink, Set.empty_subset _, ?_, ?_, fun a ha => ?_⟩, hinv', hcap'⟩
  · simp only [VmSpace.new, EStateM.run_bind, hrun, pteNew_of_aligned hboot, EStateM.run_modify]
    rfl
  · rw [(hroot p u hu).2]
    exact hqal
  · rw [(hroot p₁ u h₁).1, (hroot p₂ u h₂).1]
  · rw [(hroot p u hu).1]
    decide
  · obtain ⟨h, -⟩ := hroot _ _ (Option.get_mem hi)
    simp at h
  · obtain ⟨rfl, rfl⟩ := hroot p u hu
    rw [hzero i hi, isPresent_zero, eq_comm, Option.isSome_eq_false_iff, Option.isNone_iff_eq_none,
      List.nil_append, rootOnly, Function.update_of_ne (List.cons_ne_nil i [])]
    exact ⟨rfl, fun _ h => by cases h⟩
  · obtain ⟨rfl, -⟩ := hroot p u hu
    cases hlen
  · rw [hpages, Set.empty_union]
    exact hfr
  · rw [hpages]
    exact htaken
  · rw [hpages] at ha
    have hslot : a ∉ Set.Ico (q + 8 * 256) (q + 8 * 256 + 8) := fun hin => ha (slot_subset h256 hin)
    show (m.mem.fill q minPageSize 0).writeLE (q + 8 * 256) (bootPdpt ||| pteV) 8 a = m.mem a
    rw [ByteMem.eqOn_writeLE _ _ _ _ hslot]
    exact ByteMem.fill_apply_of_not_mem m.mem 0 ha

/-- `map(uaddr, paddr, MIN_PAGE_SIZE, attrs)` of a user page that is not mapped yet, with three
pages left for the tables on its way: the page joins `mapped`. -/
theorem VmSpace.map_spec (hfresh : FreshPages allocPage inv avail)
    (hsup : Supplies allocPage inv capacity) (haddrs : PageAddrs allocPage inv)
    {addr : List Nat → Option Nat} {m : Machine σ} {mapped : Set Nat} {vs : VmSpace}
    (hok : TablesOk addr m.mem mapped) (hroot : addr [] = some vs.pml4) (hinv : inv m.pa)
    (hdisj : Disjoint (tablePages addr) (avail m.pa)) (hcap : 3 ≤ capacity m.pa)
    {uaddr paddr : Nat} (hu : uaddr < 2 ^ 47) (hual : uaddr % minPageSize = 0)
    (hpal : paddr % minPageSize = 0) (hfree : uaddr / minPageSize ∉ mapped) (attrs : PageAttrs) :
    ∃ addr' m', (VmSpace.map allocPage vs uaddr paddr minPageSize attrs).run m = .ok () m' ∧
      TablesOk addr' m'.mem (insert (uaddr / minPageSize) mapped) ∧
      (∀ p u, addr p = some u → addr' p = some u) ∧
      Grows (avail m.pa) (avail m'.pa) (tablePages addr) (tablePages addr') m.mem m'.mem ∧
      inv m'.pa ∧ capacity m.pa ≤ capacity m'.pa + 3 := by
  obtain ⟨hpage, ha, hb, hc, hd⟩ := pageOf_indices hu
  obtain ⟨q₁, addr₁, m₁, hrun₁, hq₁, hok₁, hext₁, hgrow₁, hinv₁, hcap₁⟩ :=
    ensureNextTable_spec hfresh hsup haddrs hok hinv hdisj (by omega) hroot (by decide) ha
  obtain ⟨q₂, addr₂, m₂, hrun₂, hq₂, hok₂, hext₂, hgrow₂, hinv₂, hcap₂⟩ :=
    ensureNextTable_spec hfresh hsup haddrs hok₁ hinv₁ hgrow₁.disjoint (by omega) hq₁ (by simp)
      (by simpa [width] using hb)
  obtain ⟨q₃, addr₃, m₃, hrun₃, hq₃, hok₃, hext₃, hgrow₃, hinv₃, hcap₃⟩ :=
    ensureNextTable_spec hfresh hsup haddrs hok₂ hinv₂ hgrow₂.disjoint (by omega) hq₂ (by simp)
      (by simpa [width] using hc)
  simp only [List.nil_append, List.cons_append] at hq₁ hq₂ hq₃
  have hleaf : isPresent (readPte m₃.mem q₃ (ptIndex uaddr)) = false := by
    cases h : isPresent (readPte m₃.mem q₃ (ptIndex uaddr)) with
    | false => rfl
    | true =>
      have := hok₃.leaf _ q₃ _ hq₃ rfl hd h
      simp only [List.cons_append, List.nil_append] at this
      exact absurd (hpage ▸ this) hfree
  obtain ⟨hflags, hodd⟩ := leafFlags attrs
  have hchecks : (!isAligned uaddr minPageSize || !isAligned paddr minPageSize ||
      !isAligned minPageSize minPageSize) = false := by
    have h₁ : isAligned uaddr minPageSize = true := by
      rw [minPageSize_eq, isAligned_iff]
      exact hual
    have h₂ : isAligned paddr minPageSize = true := by
      rw [minPageSize_eq, isAligned_iff]
      exact hpal
    have h₃ : isAligned minPageSize minPageSize = true := by decide
    rw [h₁, h₂, h₃]
    rfl
  have hkernel : ¬ uaddr ≥ kernelBase := by
    simp only [kernelBase]
    omega
  refine ⟨addr₃, ⟨m₃.pa, writePte m₃.mem q₃ (ptIndex uaddr) (paddr ||| (pteV ||| pteU ||| attrs.asRaw))⟩,
    ?_, ?_, fun p u h => hext₃ p u (hext₂ p u (hext₁ p u h)), ?_, hinv₃,
    show capacity m.pa ≤ capacity m₃.pa + 3 by omega⟩
  · simp only [VmSpace.map, hchecks, Bool.false_eq_true, if_false, EStateM.run_bind, hkernel,
      hrun₁, hrun₂, hrun₃, EStateM.run_get, hleaf, pteNew_of_aligned hpal, EStateM.run_modify]
  · have := hok₃.setLeaf hq₃ rfl hd (paddr ||| (pteV ||| pteU ||| attrs.asRaw))
    simpa only [List.cons_append, List.nil_append, hpage] using this
  · refine hgrow₁.trans (hgrow₂.trans (hgrow₃.trans ⟨subset_rfl, subset_rfl,
      Set.subset_union_left, hgrow₃.disjoint, fun a ha => ?_⟩))
    have hslot : a ∉ Set.Ico (q₃ + 8 * ptIndex uaddr) (q₃ + 8 * ptIndex uaddr + 8) :=
      fun hin => ha (page_subset_tablePages hq₃ (slot_subset hd hin))
    exact ByteMem.eqOn_writeLE _ _ _ _ hslot

end Specs

end Ftl.Arch

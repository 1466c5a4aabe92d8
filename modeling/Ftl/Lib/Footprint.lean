import Mathlib

/-!
# Footprints in a shared memory

Objects that live in one memory each own a set of its cells, their footprint, and an allocator
keeps the cells nobody owns yet, the free ones. An operation of one object behaves when it writes
only cells it owns afterwards, takes new cells only from the free ones and gives none back:
`Grows A A' F F' m m'` says so of an operation that takes the memory from `m` to `m'`, the free
cells from `A` to `A'` and the object's footprint from `F` to `F'`.

Such operations compose (`Grows.trans`), and one of them leaves alone every object whose
footprint is apart from its own and from the free cells: that object's cells keep their contents
and stay apart (`Grows.frame`). An operation of one object is also one of any owner that holds the
object and other cells it does not touch (`Grows.union_left`).

## Main definitions

* `Grows`: an operation of one object, seen through its footprint.

## Main results

* `Grows.trans`, `Grows.frame`, `Grows.union_left`.
-/

variable {α β : Type*}

/-- The object owning `F` while the cells `A` are free comes to own `F'` while `A'` are free, and
the memory goes from `m` to `m'`: the free cells only shrink, the object keeps what it owned and
takes new cells only from the free ones, what it owns is not free, and no cell outside it
changed. -/
structure Grows (A A' F F' : Set α) (m m' : α → β) : Prop where
  avail_subset : A' ⊆ A
  own_subset : F ⊆ F'
  subset_union : F' ⊆ F ∪ A
  disjoint : Disjoint F' A'
  eqOn : Set.EqOn m' m F'ᶜ

namespace Grows

variable {A A' A'' F F' F'' G : Set α} {m m' m'' : α → β}

theorem refl (h : Disjoint F A) (m : α → β) : Grows A A F F m m :=
  ⟨subset_rfl, subset_rfl, Set.subset_union_left, h, fun _ _ => rfl⟩

theorem trans (h₁ : Grows A A' F F' m m') (h₂ : Grows A' A'' F' F'' m' m'') :
    Grows A A'' F F'' m m'' where
  avail_subset := h₂.avail_subset.trans h₁.avail_subset
  own_subset := h₁.own_subset.trans h₂.own_subset
  subset_union := h₂.subset_union.trans
    (Set.union_subset h₁.subset_union (h₁.avail_subset.trans Set.subset_union_right))
  disjoint := h₂.disjoint
  eqOn := fun _ hx => (h₂.eqOn hx).trans (h₁.eqOn fun hx' => hx (h₂.own_subset hx'))

/-- The frame rule: an object apart from the operating one and from the free cells keeps its
contents, and stays apart from both. -/
theorem frame (h : Grows A A' F F' m m') (hF : Disjoint G F) (hA : Disjoint G A) :
    Set.EqOn m' m G ∧ Disjoint G F' ∧ Disjoint G A' := by
  have hG : Disjoint G F' := by
    rw [Set.disjoint_left]
    intro x hxG hxF'
    rcases h.subset_union hxF' with hxF | hxA
    · exact Set.disjoint_left.mp hF hxG hxF
    · exact Set.disjoint_left.mp hA hxG hxA
  exact ⟨fun _ hx => h.eqOn (Set.disjoint_left.mp hG hx), hG, hA.mono_right h.avail_subset⟩

theorem union_left (h : Grows A A' F F' m m') (hA : Disjoint G A) :
    Grows A A' (G ∪ F) (G ∪ F') m m' where
  avail_subset := h.avail_subset
  own_subset := Set.union_subset_union_right G h.own_subset
  subset_union := by
    rw [Set.union_assoc]
    exact Set.union_subset_union_right G h.subset_union
  disjoint := Disjoint.union_left (hA.mono_right h.avail_subset) h.disjoint
  eqOn := fun _ hx => h.eqOn fun hx' => hx (Or.inr hx')

end Grows

import Mathlib

/-!
# Tilings of a set by a list of pieces

A list of pieces, each covering a set `ext a`, tiles a set `S` when no two pieces overlap and
together they cover exactly `S`: `Tiles ext l S`. An allocator that cuts its memory into chunks
keeps such a tiling of the memory it was given, and each of its operations is one of the moves
below:

* a new piece outside `S` tiles `S` and the piece together (`Tiles.cons`);
* a piece cut in two disjoint parts keeps the tiling (`Tiles.cons_split`);
* the order of the pieces does not matter (`Tiles.perm`), and only their extents do
  (`Tiles.congr`).

The pieces of a tiling with nonempty extents are all different (`Tiles.nodup`), and two of them
never overlap (`Tiles.disjoint`).

## Main definitions

* `Tiles`.
-/

variable {α β : Type*}

/-- The pieces of `l` cover `S`, and no two of them overlap. -/
structure Tiles (ext : α → Set β) (l : List α) (S : Set β) : Prop where
  pairwise : l.Pairwise fun a b => Disjoint (ext a) (ext b)
  cover : ⋃ a ∈ l, ext a = S

namespace Tiles

variable {ext ext' : α → Set β} {l l' : List α} {S : Set β}

theorem nil (ext : α → Set β) : Tiles ext [] ∅ := ⟨List.Pairwise.nil, by simp⟩

theorem subset (h : Tiles ext l S) {a : α} (ha : a ∈ l) : ext a ⊆ S := by
  rw [← h.cover]
  exact Set.subset_biUnion_of_mem ha

theorem disjoint (h : Tiles ext l S) {a b : α} (ha : a ∈ l) (hb : b ∈ l) (hab : a ≠ b) :
    Disjoint (ext a) (ext b) := by
  have : Std.Symm fun a b => Disjoint (ext a) (ext b) := ⟨fun _ _ h => h.symm⟩
  exact h.pairwise.forall ha hb hab

/-- A piece that overlaps nothing is empty, so the pieces of a tiling with nonempty extents are
all different. -/
theorem nodup (h : Tiles ext l S) (hne : ∀ a ∈ l, (ext a).Nonempty) : l.Nodup := by
  refine h.pairwise.imp_of_mem fun {a b} ha _ hab => ?_
  rintro rfl
  obtain ⟨x, hx⟩ := hne a ha
  exact Set.disjoint_left.mp hab hx hx

theorem perm (h : Tiles ext l S) (hp : l.Perm l') : Tiles ext l' S where
  pairwise := (List.Perm.pairwise_iff (fun h => h.symm) hp).mp h.pairwise
  cover := by
    rw [← h.cover]
    ext x
    simp only [Set.mem_iUnion, exists_prop, hp.mem_iff]

theorem congr (h : Tiles ext l S) (he : ∀ a ∈ l, ext' a = ext a) : Tiles ext' l S where
  pairwise := h.pairwise.imp_of_mem fun ha hb hab => by rwa [he _ ha, he _ hb]
  cover := by
    rw [← h.cover]
    exact Set.iUnion₂_congr fun a ha => he a ha

/-- A new piece outside the tiled set. -/
theorem cons (h : Tiles ext l S) {x : α} (hx : Disjoint (ext x) S) :
    Tiles ext (x :: l) (ext x ∪ S) where
  pairwise := List.Pairwise.cons (fun _ ha => hx.mono_right (h.subset ha)) h.pairwise
  cover := by
    rw [← h.cover]
    simp only [List.mem_cons, Set.iUnion_or, Set.iUnion_union_distrib, Set.iUnion_iUnion_eq_left]

/-- The first piece cut in two disjoint parts `y` and `z`, the other pieces keeping their
extents. -/
theorem cons_split {x y z : α} (h : Tiles ext (x :: l) S) (he : ∀ a ∈ l, ext' a = ext a)
    (hyz : Disjoint (ext' y) (ext' z)) (hx : ext' y ∪ ext' z = ext x) :
    Tiles ext' (y :: z :: l) S := by
  have hl : Tiles ext' l (⋃ a ∈ l, ext a) :=
    Tiles.congr ⟨(List.pairwise_cons.mp h.pairwise).2, rfl⟩ he
  have hxl : Disjoint (ext x) (⋃ a ∈ l, ext a) := by
    rw [Set.disjoint_iUnion₂_right]
    exact fun a ha => (List.pairwise_cons.mp h.pairwise).1 a ha
  have hz := hl.cons (hxl.mono_left (hx ▸ Set.subset_union_right))
  have hy := hz.cons (Disjoint.union_right hyz (hxl.mono_left (hx ▸ Set.subset_union_left)))
  refine ⟨hy.pairwise, ?_⟩
  rw [hy.cover, ← Set.union_assoc, hx, ← h.cover]
  simp only [List.mem_cons, Set.iUnion_or, Set.iUnion_union_distrib, Set.iUnion_iUnion_eq_left]

end Tiles

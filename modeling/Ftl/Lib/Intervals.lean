import Mathlib

/-!
# Sorted lists of intervals

Objects that each cover an interval `[lo a, hi a)` of the naturals, kept in a list by start: the
list is `Intervals.Sorted` when every interval ends at or before the start of every later one. On
such a list with nonempty intervals, the intervals that start before a point form a prefix, so a
search by `takeWhile` finds the place of a new interval and the interval around a point:

* a new interval that meets none of the list, put after those that start before it, keeps the
  list sorted (`Intervals.sorted_insertIdx`);
* the interval around `u` is the last of those that start at or before `u`
  (`Intervals.drop_takeWhile_le`), and the one `find?` returns (`Intervals.find?_covers`).

## Main definitions

* `Intervals.Sorted`, `Intervals.covers`.
-/

namespace Intervals

variable {α : Type*} (lo hi : α → Nat)

/-- Every interval ends at or before the later ones start. -/
def Sorted (l : List α) : Prop := l.Pairwise fun a b => hi a ≤ lo b

/-- The interval of `a` holds `u`. -/
def covers (u : Nat) (a : α) : Bool := lo a ≤ u && u < hi a

variable {lo hi}

theorem covers_iff {u : Nat} {a : α} : covers lo hi u a = true ↔ lo a ≤ u ∧ u < hi a := by
  simp [covers]

/-- Inserting at the length of a prefix puts the element right after the prefix. -/
theorem insertIdx_length_append (l₁ l₂ : List α) (x : α) :
    (l₁ ++ l₂).insertIdx l₁.length x = l₁ ++ x :: l₂ := by
  induction l₁ with
  | nil => exact List.insertIdx_zero
  | cons a l₁ ih => rw [List.cons_append, List.length_cons, List.insertIdx_succ_cons, ih]; rfl

section Sorted

variable {l : List α} (hs : Sorted lo hi l) (hne : ∀ a ∈ l, lo a < hi a)
include hs hne

/-- Past an interval that starts at or after `u`, every interval does. -/
theorem le_lo_of_mem_dropWhile {u : Nat} {b : α}
    (hb : b ∈ l.dropWhile fun a => decide (lo a < u)) : u ≤ lo b := by
  induction l with
  | nil => simp at hb
  | cons a l ih =>
    have hs' := List.pairwise_cons.mp hs
    rw [List.dropWhile_cons] at hb
    split at hb
    · exact ih hs'.2 (fun c hc => hne c (List.mem_cons_of_mem a hc)) hb
    · rename_i hau
      have hau : u ≤ lo a := by simpa using hau
      rcases List.mem_cons.mp hb with rfl | hb
      · exact hau
      · have := hs'.1 b hb
        have := hne a List.mem_cons_self
        omega

/-- An interval that meets none of the list, put after those that start before it, keeps the list
sorted. -/
theorem sorted_insertIdx {x : α} (hx : lo x < hi x)
    (hfree : ∀ a ∈ l, ¬ (lo x < hi a ∧ lo a < hi x)) :
    Sorted lo hi (l.insertIdx (l.takeWhile fun a => decide (lo a < lo x)).length x) := by
  have hsplit := List.takeWhile_append_dropWhile (p := fun a => decide (lo a < lo x)) (l := l)
  have hsorted : Sorted lo hi ((l.takeWhile fun a => decide (lo a < lo x)) ++
      (l.dropWhile fun a => decide (lo a < lo x))) := by
    rw [hsplit]
    exact hs
  have hins : l.insertIdx (l.takeWhile fun a => decide (lo a < lo x)).length x =
      (l.takeWhile fun a => decide (lo a < lo x)) ++ x :: (l.dropWhile fun a => decide (lo a < lo x)) := by
    rw [← insertIdx_length_append, hsplit]
  rw [hins]
  rw [Sorted, List.pairwise_append] at hsorted ⊢
  refine ⟨hsorted.1, List.pairwise_cons.mpr ⟨fun b hb => ?_, hsorted.2.1⟩, fun a ha b hb => ?_⟩
  · have hb' := (List.dropWhile_sublist _).subset hb
    have := le_lo_of_mem_dropWhile hs hne hb
    have := hfree b hb'
    have := hne b hb'
    omega
  · have ha' := (List.takeWhile_sublist _).subset ha
    have hlt : lo a < lo x := by simpa using List.mem_takeWhile_imp ha
    have hfa := hfree a ha'
    rcases List.mem_cons.mp hb with rfl | hb
    · omega
    · have := hsorted.2.2 a ha b hb
      omega

/-- The interval around `u` is the last of those that start at or before `u`. -/
theorem drop_takeWhile_le {a : α} (ha : a ∈ l) {u : Nat} (hu : lo a ≤ u ∧ u < hi a) :
    ∃ k rest, (l.takeWhile fun b => decide (lo b ≤ u)).length = k + 1 ∧ l.drop k = a :: rest := by
  obtain ⟨l₁, l₂, rfl⟩ := List.append_of_mem ha
  rw [Sorted, List.pairwise_append, List.pairwise_cons] at hs
  have h₁ : ∀ b ∈ l₁, decide (lo b ≤ u) = true := by
    intro b hb
    have := hs.2.2 b hb a List.mem_cons_self
    have := hne b (List.mem_append_left _ hb)
    simp only [decide_eq_true_eq]
    omega
  have h₂ : (l₂.takeWhile fun b => decide (lo b ≤ u)) = [] := by
    rcases l₂ with _ | ⟨c, l₂⟩
    · rfl
    · have := hs.2.1.1 c List.mem_cons_self
      exact List.takeWhile_cons_of_neg (by simp only [decide_eq_true_eq]; omega)
  refine ⟨l₁.length, l₂, ?_, List.drop_left⟩
  rw [List.takeWhile_append_of_pos h₁, List.takeWhile_cons_of_pos (by simpa using hu.1), h₂]
  simp

/-- The interval `find?` returns for `u` is the one around it. -/
theorem find?_covers {a : α} (ha : a ∈ l) {u : Nat} (hu : lo a ≤ u ∧ u < hi a) :
    l.find? (covers lo hi u) = some a := by
  obtain ⟨l₁, l₂, rfl⟩ := List.append_of_mem ha
  rw [Sorted, List.pairwise_append] at hs
  rw [List.find?_append, List.find?_eq_none.mpr, Option.none_or, List.find?_cons_of_pos
    (covers_iff.mpr hu)]
  intro b hb hcov
  have := covers_iff.mp hcov
  have := hs.2.2 b hb a List.mem_cons_self
  omega

end Sorted

end Intervals

import Mathlib

/-!
# Loops that keep the one element they select

A loop `for x in xs { if let Some(y) = f(x) { assert!(found.is_none()); found = Some(y) } }` keeps
in `found` the element that `f` selects, and fails on a second one. It returns exactly when what it
had found before and what `f` selects in `xs` make at most one value, and `found` is then that
value (`foldlM_recordOnce_eq_ok`). Two loops that share one pass over `xs`, each step acting on its
own variable, return exactly when each of them returns alone (`foldlM_pair_eq_ok`).

## Main definitions

* `recordOnce`: one turn of such a loop.

## Main results

* `foldlM_recordOnce_eq_ok`, `foldlM_recordOnce_eq_ok_some`, `foldlM_pair_eq_ok`.
-/

universe u v

variable {α β : Type*} {ε : Type u} {σ τ : Type v}

/-- One turn of a loop that keeps the element `f` selects; it fails with `e` when an element is
already kept. -/
def recordOnce (e : ε) (f : α → Option β) (found : Option β) (x : α) : Except ε (Option β) :=
  match f x with
  | none => .ok found
  | some y => if found.isSome then .error e else .ok (some y)

theorem foldlM_recordOnce_eq_ok {e : ε} {f : α → Option β} {xs : List α} {found r : Option β} :
    xs.foldlM (recordOnce e f) found = .ok r ↔
      (found.toList ++ xs.filterMap f).length ≤ 1 ∧ r = (found.toList ++ xs.filterMap f).head? := by
  induction xs generalizing found with
  | nil =>
    change Except.ok found = .ok r ↔ _
    cases found <;> simp [eq_comm]
  | cons x xs ih =>
    rw [List.foldlM_cons]
    cases hx : f x with
    | none =>
      rw [List.filterMap_cons_none hx, ← ih]
      simp only [recordOnce, hx]
      rfl
    | some y =>
      rw [List.filterMap_cons_some hx]
      cases found with
      | none =>
        simp only [recordOnce, hx, Option.isSome_none, Bool.false_eq_true, if_false]
        exact ih
      | some z =>
        simp only [recordOnce, hx, Option.isSome_some, if_true, Option.toList_some,
          List.singleton_append, List.length_cons]
        exact ⟨fun h => (nomatch h), fun h => absurd h.1 (by omega)⟩

/-- From nothing found, the loop finds `y` exactly when `y` is the one element selected. -/
theorem foldlM_recordOnce_eq_ok_some {e : ε} {f : α → Option β} {xs : List α} {y : β} :
    xs.foldlM (recordOnce e f) none = .ok (some y) ↔ xs.filterMap f = [y] := by
  rw [foldlM_recordOnce_eq_ok, Option.toList_none, List.nil_append]
  rcases xs.filterMap f with _ | ⟨z, _ | ⟨w, zs⟩⟩
  · simp
  · simp [eq_comm]
  · simp

/-- Two loops in one pass: the step runs the first loop's step on the first variable and the
second's on the second. -/
theorem foldlM_pair_eq_ok {stepL : σ → α → Except ε σ} {stepR : τ → α → Except ε τ}
    {xs : List α} {a a' : σ} {b b' : τ} :
    xs.foldlM (fun p x => do
        let a ← stepL p.1 x
        let b ← stepR p.2 x
        pure (a, b)) (a, b) = .ok (a', b') ↔
      xs.foldlM stepL a = .ok a' ∧ xs.foldlM stepR b = .ok b' := by
  induction xs generalizing a b with
  | nil =>
    change Except.ok (a, b) = .ok (a', b') ↔ Except.ok a = .ok a' ∧ Except.ok b = .ok b'
    simp only [Except.ok.injEq, Prod.mk.injEq]
  | cons x xs ih =>
    simp only [List.foldlM_cons]
    cases hl : stepL a x with
    | error e => exact ⟨fun h => (nomatch h), fun h => (nomatch h.1)⟩
    | ok a₁ =>
      cases hr : stepR b x with
      | error e => exact ⟨fun h => (nomatch h), fun h => (nomatch h.2)⟩
      | ok b₁ => exact ih

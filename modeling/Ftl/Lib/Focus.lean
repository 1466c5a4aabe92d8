import Mathlib

/-!
# Running a state-monad program on a part of a larger state

A kernel operation often calls an operation of one of its objects: the object's code runs in
`EStateM ε σ` over the object's own state, while the caller's state `τ` holds that object among
others. `EStateM.focus l x` runs `x` on the part `l.get t` of the state and writes the part back
with `l.set`, whether `x` returns or throws.

What such a run leaves alone is stated with `EStateM.Keeps p x`: every run of `x`, returning or
throwing, ends in a state with the same view `p`. It composes through `bind`, and `focus l x`
keeps every view that writing the part does not change.

A `Lens` carries the two laws the proofs use: reading back a part that was just written gives it,
and writing back the part that was read changes nothing.

## Main definitions

* `Lens`, `Lens.fst`, `Lens.snd`, `Lens.comp`.
* `EStateM.focus`, `EStateM.Result.state`, `EStateM.Keeps`.

## Main results

* `EStateM.run_focus`: a run of `focus l x` is the run of `x` on the part.
* `EStateM.run_focus_bind`: the same, followed by a continuation.
* `EStateM.run_bind_of_ok`: the run of a bind whose first computation returns.
* `EStateM.Keeps.bind`, `EStateM.keeps_focus`: the frame rules.
-/

/-- A part of type `σ` of a state of type `τ`. -/
structure Lens (τ σ : Type) where
  get : τ → σ
  set : σ → τ → τ
  get_set : ∀ s t, get (set s t) = s
  set_get : ∀ t, set (get t) t = t

namespace Lens

attribute [simp] get_set set_get

variable {τ σ ρ : Type}

/-- The first component of a pair. -/
def fst : Lens (σ × ρ) σ where
  get t := t.1
  set s t := (s, t.2)
  get_set _ _ := rfl
  set_get _ := rfl

/-- The second component of a pair. -/
def snd : Lens (ρ × σ) σ where
  get t := t.2
  set s t := (t.1, s)
  get_set _ _ := rfl
  set_get _ := rfl

/-- The part `m` of the part `l`. -/
def comp (l : Lens τ σ) (m : Lens σ ρ) : Lens τ ρ where
  get t := m.get (l.get t)
  set r t := l.set (m.set r (l.get t)) t
  get_set r t := by simp
  set_get t := by simp

end Lens

namespace EStateM

variable {ε τ σ α β β' : Type}

/-- Run `x` on the part `l` of the state. -/
def focus (l : Lens τ σ) (x : EStateM ε σ α) : EStateM ε τ α := fun t =>
  match x (l.get t) with
  | .ok a s => .ok a (l.set s t)
  | .error e s => .error e (l.set s t)

theorem run_focus (l : Lens τ σ) (x : EStateM ε σ α) (t : τ) :
    (focus l x).run t =
      match x.run (l.get t) with
      | .ok a s => .ok a (l.set s t)
      | .error e s => .error e (l.set s t) := rfl

@[simp] theorem run_focus_bind (l : Lens τ σ) (x : EStateM ε σ α) (f : α → EStateM ε τ β)
    (t : τ) :
    (focus l x >>= f).run t =
      match x.run (l.get t) with
      | .ok a s => (f a).run (l.set s t)
      | .error e s => .error e (l.set s t) := by
  rw [run_bind, run_focus]
  cases x.run (l.get t) <;> rfl

@[simp] theorem run_focus_of_ok {l : Lens τ σ} {x : EStateM ε σ α} {t : τ} {a : α} {s : σ}
    (h : x.run (l.get t) = .ok a s) : (focus l x).run t = .ok a (l.set s t) := by
  rw [run_focus, h]

@[simp] theorem run_focus_of_error {l : Lens τ σ} {x : EStateM ε σ α} {t : τ} {e : ε} {s : σ}
    (h : x.run (l.get t) = .error e s) : (focus l x).run t = .error e (l.set s t) := by
  rw [run_focus, h]

/-- A first computation that returns hands its value and state to the continuation. -/
theorem run_bind_of_ok {x : EStateM ε σ α} {f : α → EStateM ε σ β} {s s' : σ} {a : α}
    (h : x.run s = .ok a s') : (x >>= f).run s = (f a).run s' := by
  rw [run_bind, h]

/-- A sequence returns only when its first computation does. -/
theorem run_bind_eq_ok {x : EStateM ε σ α} {f : α → EStateM ε σ β} {s s' : σ} {b : β}
    (h : (x >>= f).run s = .ok b s') : ∃ a s₁, x.run s = .ok a s₁ ∧ (f a).run s₁ = .ok b s' := by
  rw [run_bind] at h
  rcases hx : x.run s with ⟨a, s₁⟩ | ⟨e, s₁⟩
  · rw [hx] at h
    exact ⟨a, s₁, rfl, h⟩
  · rw [hx] at h
    cases h

/-- A computation that ends by returning `v` returns `v`, when it returns. -/
theorem eq_of_run_bind_pure {x : EStateM ε σ α} {v r : β} {s s' : σ}
    (h : (x >>= fun _ => pure v).run s = .ok r s') : r = v := by
  obtain ⟨_, _, -, h⟩ := run_bind_eq_ok h
  rw [run_pure] at h
  injection h with h
  exact h.symm

/-- An `Except` value as a computation that keeps the state. -/
theorem run_liftExcept (x : Except ε α) (s : σ) :
    (liftExcept x : EStateM ε σ α).run s =
      match x with
      | .ok a => .ok a s
      | .error e => .error e s := by
  cases x <;> rfl

/-- The handler of `tryCatch` is not run when the action returns. -/
theorem run_tryCatch_of_ok {x : EStateM ε σ α} {handle : ε → EStateM ε σ α} {s s' : σ} {a : α}
    (h : x.run s = .ok a s') : (tryCatch x handle).run s = .ok a s' := by
  show EStateM.tryCatch x handle s = _
  rw [EStateM.tryCatch, show x s = .ok a s' from h]

/-- The state a run ends in, whether it returns or throws. -/
def Result.state : Result ε σ α → σ
  | .ok _ s => s
  | .error _ s => s

/-- Every run of `x` ends in a state with the view `p` it started from. -/
def Keeps (p : σ → β) (x : EStateM ε σ α) : Prop := ∀ s, p (x.run s).state = p s

section Keeps

variable {p : σ → β}

theorem keeps_pure (a : α) : Keeps p (pure a : EStateM ε σ α) := fun _ => rfl

theorem keeps_get : Keeps p (get : EStateM ε σ σ) := fun _ => rfl

theorem keeps_throw (e : ε) : Keeps p (throw e : EStateM ε σ α) := fun _ => rfl

theorem keeps_modify {f : σ → σ} (hf : ∀ s, p (f s) = p s) : Keeps p (modify f : EStateM ε σ Unit) :=
  fun s => hf s

theorem Keeps.bind {x : EStateM ε σ α} {f : α → EStateM ε σ β'} (hx : Keeps p x)
    (hf : ∀ a, Keeps p (f a)) : Keeps p (x >>= f) := by
  intro s
  rw [run_bind]
  cases h : x.run s with
  | ok a s' => rw [hf a s', ← hx s, h]; rfl
  | error e s' => rw [← hx s, h]; rfl

theorem keeps_focus {l : Lens τ σ} {p : τ → β} (hl : ∀ s t, p (l.set s t) = p t)
    (x : EStateM ε σ α) : Keeps p (focus l x) := by
  intro t
  rw [run_focus]
  cases x.run (l.get t) <;> exact hl _ _

end Keeps

end EStateM

import Mathlib.Logic.Basic

/-!
# Runs of a labelled transition system

A system is given by its transitions: `next s l s'` says that from `s` the event `l` leads to
`s'`. `Run next start ls s` says that the events `ls`, in order, lead from `start` to `s`, and
`Reach next start s` forgets the events.

Two rules carry the proofs about such a system. A property of the events so far and the state
that holds at the start and that every transition keeps holds along every run
(`Run.invariant`). And a relation `R` between the states of two systems that holds at their
starts, where every transition of the first is matched by one of the second from a related
state, relates every state the first reaches to one the second reaches (`Run.simulate`): what
holds of every reachable state of the second then holds, through `R`, of the first.

## Main definitions

* `Run`, `Reach`.

## Main results

* `Run.invariant`, `Reach.invariant`: the induction rules.
* `Run.simulate`: forward simulation.
-/

variable {σ α τ β : Type}

/-- The runs from `start`: the events, in order, and the state they lead to. -/
inductive Run (next : σ → α → σ → Prop) (start : σ) : List α → σ → Prop where
  | nil : Run next start [] start
  | snoc {ls : List α} {s : σ} {l : α} {s' : σ} :
      Run next start ls s → next s l s' → Run next start (ls ++ [l]) s'

/-- The states some run reaches. -/
def Reach (next : σ → α → σ → Prop) (start : σ) (s : σ) : Prop :=
  ∃ ls, Run next start ls s

variable {next : σ → α → σ → Prop} {start : σ}

namespace Run

theorem reach {ls : List α} {s : σ} (h : Run next start ls s) : Reach next start s := ⟨ls, h⟩

/-- A property of the events so far and the state, true at the start and kept by every
transition from a state a run reaches, holds along every run. -/
theorem invariant {P : List α → σ → Prop} (h0 : P [] start)
    (hstep : ∀ ls s l s', Run next start ls s → P ls s → next s l s' → P (ls ++ [l]) s')
    {ls : List α} {s : σ} (h : Run next start ls s) : P ls s := by
  induction h with
  | nil => exact h0
  | snoc hrun hnext ih => exact hstep _ _ _ _ hrun ih hnext

end Run

namespace Reach

theorem refl : Reach next start start := ⟨[], .nil⟩

theorem step {s s' : σ} {l : α} (h : Reach next start s) (hn : next s l s') :
    Reach next start s' := by
  obtain ⟨ls, hrun⟩ := h
  exact ⟨ls ++ [l], hrun.snoc hn⟩

/-- The induction rule for the states a run reaches. -/
theorem invariant {P : σ → Prop} (h0 : P start)
    (hstep : ∀ s l s', Reach next start s → P s → next s l s' → P s')
    {s : σ} (h : Reach next start s) : P s := by
  obtain ⟨ls, hrun⟩ := h
  exact hrun.invariant (P := fun _ s => P s) h0
    (fun _ s _ _ hrun' hP hn => hstep s _ _ hrun'.reach hP hn)

end Reach

/-- Forward simulation: a relation that holds at the starts, where each transition of the first
system from a state related to a reachable state of the second is matched by a transition of the
second, relates every run of the first to a reachable state of the second. The relation may read
the events of the run. -/
theorem Run.simulate {anext : τ → β → τ → Prop} {astart : τ} {R : List α → σ → τ → Prop}
    (h0 : R [] start astart)
    (hstep : ∀ ls s t l s', Run next start ls s → Reach anext astart t → R ls s t → next s l s' →
      ∃ m t', anext t m t' ∧ R (ls ++ [l]) s' t')
    {ls : List α} {s : σ} (h : Run next start ls s) : ∃ t, Reach anext astart t ∧ R ls s t := by
  induction h with
  | nil => exact ⟨astart, .refl, h0⟩
  | snoc hrun hnext ih =>
    obtain ⟨t, ht, hR⟩ := ih
    obtain ⟨m, t', hm, hR'⟩ := hstep _ _ _ _ _ hrun ht hR hnext
    exact ⟨t', ht.step hm, hR'⟩

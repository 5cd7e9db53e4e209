import Mathlib.Data.List.Basic
import Mathlib.Data.List.Forall2

/-! Machines with a state that take one item after the other and may give different results for it. -/

namespace Transducer

variable {σ α β : Type} {step : σ → α → σ → β → Prop}

/-- What a machine may give for a sequence of items, and the state it is in then. -/
inductive Runs (step : σ → α → σ → β → Prop) (s : σ) : List α → σ → List β → Prop where
  | nil : Runs step s [] s []
  | snoc {as : List α} {bs : List β} {s' s'' : σ} {a : α} {b : β} (h : Runs step s as s' bs)
      (hstep : step s' a s'' b) : Runs step s (as ++ [a]) s'' (bs ++ [b])

/-- The invariant rule: where each step on a good item keeps the invariant and gives a result that
fits the item, the results of a run fit its items. -/
theorem Runs.invariant {P : σ → Prop} {good : α → Prop} {R : α → β → Prop}
    (hstep : ∀ {s a s' b}, P s → good a → step s a s' b → P s' ∧ R a b) {s s' : σ} {as : List α} {bs : List β}
    (h : Runs step s as s' bs) (hs : P s) (has : ∀ a ∈ as, good a) : P s' ∧ List.Forall₂ R as bs := by
  induction h with
  | nil => exact ⟨hs, .nil⟩
  | @snoc as bs s' s'' a b _ hlast ih =>
    rw [List.forall_mem_append, List.forall_mem_singleton] at has
    obtain ⟨hs', hall⟩ := ih has.1
    obtain ⟨hs'', hab⟩ := hstep hs' has.2 hlast
    exact ⟨hs'', List.rel_append hall (.cons hab .nil)⟩

end Transducer

import Mathlib.Algebra.Order.BigOperators.Group.Finset
import Mathlib.Data.Fintype.BigOperators

/-! How many of the threads of a system are at places of a kind. -/

namespace Population

variable {T P : Type} [Fintype T]

def count (p : P → Bool) (place : T → P) : Nat :=
  ∑ t, (p (place t)).toNat

variable {p : P → Bool} {place : T → P}

/-- A thread that moves is counted at its new place, and at its old one no more. -/
theorem count_update [DecidableEq T] (p : P → Bool) (place : T → P) (t : T) (new : P) :
    count p (Function.update place t new) + (p (place t)).toNat = count p place + (p new).toNat := by
  have hothers : ∑ u ∈ Finset.univ.erase t, (p (Function.update place t new u)).toNat =
      ∑ u ∈ Finset.univ.erase t, (p (place u)).toNat := by
    refine Finset.sum_congr rfl fun u hu => ?_
    rw [Function.update_of_ne (Finset.ne_of_mem_erase hu)]
  rw [count, count, ← Finset.sum_erase_add _ _ (Finset.mem_univ t), hothers, Function.update_self,
    ← Finset.sum_erase_add Finset.univ (fun u => (p (place u)).toNat) (Finset.mem_univ t)]
  omega

/-- There are no more threads at some places than threads. -/
theorem count_le_card (p : P → Bool) (place : T → P) : count p place ≤ Fintype.card T := by
  rw [count, ← Finset.card_univ, Finset.card_eq_sum_ones]
  exact Finset.sum_le_sum fun t _ => Bool.toNat_le (p (place t))

/-- No thread is counted just if none is at such a place. -/
theorem count_eq_zero_iff : count p place = 0 ↔ ∀ t, p (place t) = false := by
  rw [count, Finset.sum_eq_zero_iff]
  simp

theorem count_pos_iff : 0 < count p place ↔ ∃ t, p (place t) = true := by
  rw [Nat.pos_iff_ne_zero, ne_eq, count_eq_zero_iff]
  simp

end Population

import Mathlib.Data.List.Perm.Basic
import Mathlib.Order.MinMax

/-- `ys` are `k` elements of `xs` of the smallest costs, or all of them if there are not so many. -/
structure Smallest {α D : Type} [LinearOrder D] (k : Nat) (cost : α → D) (xs ys : List α) : Prop where
  length : ys.length = min k xs.length
  cheapest : ∃ rest, (ys ++ rest).Perm xs ∧ ∀ y ∈ ys, ∀ z ∈ rest, cost y ≤ cost z

namespace Smallest

variable {α β D : Type} [LinearOrder D] {k : Nat} {cost : α → D} {xs ys : List α}

theorem self (h : xs.length ≤ k) : Smallest k cost xs xs where
  length := (Nat.min_eq_right h).symm
  cheapest := ⟨[], by rw [List.append_nil], nofun⟩

/-- The front of a list that is sorted by cost. -/
theorem take_of_sorted {sorted : List α} (hperm : sorted.Perm xs)
    (hsorted : sorted.Pairwise fun x y => cost x ≤ cost y) : Smallest k cost xs (sorted.take k) where
  length := by rw [List.length_take, hperm.length_eq]
  cheapest := by
    refine ⟨sorted.drop k, (List.take_append_drop k sorted).symm ▸ hperm, ?_⟩
    rw [← List.take_append_drop k sorted, List.pairwise_append] at hsorted
    exact hsorted.2.2

/-- The order of the smallest elements does not matter. -/
theorem of_perm (h : Smallest k cost xs ys) {zs : List α} (hperm : zs.Perm ys) : Smallest k cost xs zs where
  length := hperm.length_eq.trans h.length
  cheapest := by
    obtain ⟨rest, hrest, hle⟩ := h.cheapest
    exact ⟨rest, (hperm.append_right rest).trans hrest, fun z hz => hle z (hperm.mem_iff.mp hz)⟩

/-- The smallest elements are the smallest under a function that keeps the cost. -/
theorem map {f : α → β} {cost' : β → D} (h : Smallest k cost xs ys) (hcost : ∀ x ∈ xs, cost' (f x) = cost x) :
    Smallest k cost' (xs.map f) (ys.map f) where
  length := by rw [List.length_map, List.length_map, h.length]
  cheapest := by
    obtain ⟨rest, hrest, hle⟩ := h.cheapest
    refine ⟨rest.map f, List.map_append ▸ hrest.map f, ?_⟩
    intro y hy z hz
    obtain ⟨x, hx, rfl⟩ := List.mem_map.mp hy
    obtain ⟨x', hx', rfl⟩ := List.mem_map.mp hz
    rw [hcost x (hrest.mem_iff.mp (List.mem_append_left _ hx)), hcost x' (hrest.mem_iff.mp (List.mem_append_right _ hx'))]
    exact hle x hx x' hx'

end Smallest

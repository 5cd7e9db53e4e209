import Mathlib.Data.List.Perm.Basic
import Mathlib.Data.List.ProdSigma

/-! Joins of two lists: one that looks for pairs with the same key, and one that looks at all pairs. -/

namespace EquiJoin

variable {α β κ : Type}

/-- The pairs of which a property holds, in the order of the first list. -/
def nested (p : α × β → Bool) (xs : List α) (ys : List β) : List (α × β) :=
  (xs.product ys).filter p

end EquiJoin

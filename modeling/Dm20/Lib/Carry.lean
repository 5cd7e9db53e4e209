import Mathlib.Data.List.Basic

/-! A variable that is assigned one value after the other and keeps the last one where an
assignment fails. -/

namespace Carry

variable {α : Type} (failed : α → Bool)

/-- What the variable holds after an assignment. -/
def assign (last x : α) : α :=
  if failed x then last else x

/-- What it holds after each of the assignments. -/
def carry (last : α) : List α → List α
  | [] => []
  | x :: xs => assign failed last x :: carry (assign failed last x) xs

/-- What it holds after all of them. -/
def final (last : α) (xs : List α) : α :=
  xs.foldl (assign failed) last

/-- The assignments in several rounds. -/
def carryRows (last : α) : List (List α) → List (List α)
  | [] => []
  | xs :: rows => carry failed last xs :: carryRows (final failed last xs) rows

variable {failed} {last : α} {xs : List α} {rows : List (List α)}

@[simp] theorem length_carry : (carry failed last xs).length = xs.length := by
  induction xs generalizing last with
  | nil => rfl
  | cons x xs ih => rw [carry, List.length_cons, List.length_cons, ih]

@[simp] theorem length_carryRows : (carryRows failed last rows).length = rows.length := by
  induction rows generalizing last with
  | nil => rfl
  | cons xs rows ih => rw [carryRows, List.length_cons, List.length_cons, ih]

/-- What is carried through two lists in a row is carried from the first into the second. -/
theorem carry_append (ys : List α) :
    carry failed last (xs ++ ys) = carry failed last xs ++ carry failed (final failed last xs) ys := by
  induction xs generalizing last with
  | nil => rfl
  | cons x xs ih => rw [List.cons_append, carry, carry, ih, List.cons_append, final, final, List.foldl_cons]

/-- Rounds that change nothing are assignments that change nothing. -/
theorem carryRows_eq_self_iff :
    carryRows failed last rows = rows ↔ carry failed last rows.flatten = rows.flatten := by
  induction rows generalizing last with
  | nil => exact iff_of_true rfl rfl
  | cons xs rows ih =>
    rw [carryRows, List.flatten_cons, carry_append, List.cons.injEq, ih]
    refine ⟨fun h => ?_, fun h => List.append_inj h length_carry⟩
    rw [h.1, h.2]

/-- The variable always holds what was assigned last just where no assignment fails after one
that did not. -/
theorem carry_eq_self_iff (hfailed : ∀ x y, failed x = true → failed y = true → x = y) :
    carry failed last xs = xs ↔ (last :: xs).Pairwise fun x y => failed y = true → failed x = true := by
  induction xs generalizing last with
  | nil => exact iff_of_true rfl (List.pairwise_singleton _ _)
  | cons x xs ih =>
    rw [carry, assign, List.cons.injEq]
    by_cases hx : failed x = true
    · rw [if_pos hx, ih, List.pairwise_cons, List.pairwise_cons, List.pairwise_cons, List.forall_mem_cons]
      constructor
      · rintro ⟨rfl, hall, hrest⟩
        exact ⟨⟨id, hall⟩, hall, hrest⟩
      · rintro ⟨⟨hlast, hall⟩, -, hrest⟩
        exact ⟨hfailed _ _ (hlast hx) hx, hall, hrest⟩
    · rw [if_neg hx, ih, List.pairwise_cons, List.pairwise_cons, List.forall_mem_cons]
      constructor
      · rintro ⟨-, hall, hrest⟩
        exact ⟨⟨fun h => absurd h hx, fun y hy h => absurd (hall y hy h) hx⟩, List.pairwise_cons.mpr ⟨hall, hrest⟩⟩
      · rintro ⟨-, hrest⟩
        exact ⟨rfl, List.pairwise_cons.mp hrest⟩

end Carry

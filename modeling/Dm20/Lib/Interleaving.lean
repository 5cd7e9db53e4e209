import Mathlib.Data.List.Basic

variable {α : Type}

/-- Two sequences merged into one that keeps the order of each. -/
inductive Interleaving : List α → List α → List α → Prop where
  | nil : Interleaving [] [] []
  | left {a : α} {as bs cs : List α} : Interleaving as bs cs → Interleaving (a :: as) bs (a :: cs)
  | right {b : α} {as bs cs : List α} : Interleaving as bs cs → Interleaving as (b :: bs) (b :: cs)

namespace Interleaving

/-- Which of two lists is called the first does not matter. -/
theorem symm {as bs cs : List α} (h : Interleaving as bs cs) : Interleaving bs as cs := by
  induction h with
  | nil => exact .nil
  | left _ ih => exact .right ih
  | right _ ih => exact .left ih

/-- One list behind the other is an interleaving. -/
theorem append (as bs : List α) : Interleaving as bs (as ++ bs) := by
  induction as with
  | nil =>
    induction bs with
    | nil => exact .nil
    | cons b bs ih => exact .right ih
  | cons a as ih => exact .left ih

/-- An interleaving has the elements of both lists. -/
theorem mem_iff {as bs cs : List α} (h : Interleaving as bs cs) {x : α} : x ∈ cs ↔ x ∈ as ∨ x ∈ bs := by
  induction h with
  | nil => simp
  | left _ ih => rw [List.mem_cons, List.mem_cons, ih, or_assoc]
  | right _ ih => rw [List.mem_cons, List.mem_cons, ih, or_left_comm]

theorem eq_of_nil_left {bs cs : List α} (h : Interleaving [] bs cs) : cs = bs := by
  generalize has : ([] : List α) = as at h
  induction h with
  | nil => rfl
  | left _ _ => cases has
  | right _ ih => rw [ih has]

/-- What comes of the one sequence before the first element of the other. -/
theorem exists_of_cons_right {as bs cs : List α} {b : α} (h : Interleaving as (b :: bs) cs) :
    ∃ before after rest, as = before ++ after ∧ cs = before ++ b :: rest ∧ Interleaving after bs rest := by
  generalize hbs : b :: bs = bs' at h
  induction h with
  | nil => cases hbs
  | @left a as _ cs _ ih =>
    obtain ⟨before, after, rest, rfl, rfl, hrest⟩ := ih hbs
    exact ⟨a :: before, after, rest, rfl, rfl, hrest⟩
  | @right _ as _ cs hrest _ =>
    obtain ⟨rfl, rfl⟩ := List.cons.inj hbs
    exact ⟨[], as, cs, rfl, rfl, hrest⟩

end Interleaving

import Mathlib.Data.List.Basic

namespace Lines

variable {α : Type} [DecidableEq α]

/-- A line with one more character at its front. -/
def extend (c : α) : List (List α) → List (List α)
  | [] => [[c]]
  | l :: ls => (c :: l) :: ls

/-- The lines of a text, up to each delimiter and behind the last one. There is no
line behind a delimiter that ends the text. -/
def lines (delim : α) : List α → List (List α)
  | [] => []
  | c :: s => if c = delim then [] :: lines delim s else extend c (lines delim s)

/-- The text of lines, each with a delimiter behind it. -/
def unlines (delim : α) (ls : List (List α)) : List α :=
  ls.flatMap fun l => l ++ [delim]

@[simp]
theorem lines_nil (delim : α) : lines delim [] = [] :=
  rfl

@[simp]
theorem lines_cons_delim (delim : α) (s : List α) : lines delim (delim :: s) = [] :: lines delim s :=
  if_pos rfl

theorem lines_cons_of_ne {delim c : α} (h : c ≠ delim) (s : List α) :
    lines delim (c :: s) = extend c (lines delim s) :=
  if_neg h

/-- The first line is what stands in front of the first delimiter. -/
theorem lines_append_delim {delim : α} {l : List α} (h : delim ∉ l) (s : List α) :
    lines delim (l ++ delim :: s) = l :: lines delim s := by
  induction l with
  | nil => exact lines_cons_delim delim s
  | cons c l ih =>
    obtain ⟨hc, hl⟩ := List.ne_and_not_mem_of_not_mem_cons h
    rw [List.cons_append, lines_cons_of_ne (Ne.symm hc), ih hl]
    rfl

/-- A text without a delimiter is one line. -/
theorem lines_eq_singleton {delim : α} {l : List α} (h : delim ∉ l) (hne : l ≠ []) : lines delim l = [l] := by
  induction l with
  | nil => exact absurd rfl hne
  | cons c l ih =>
    obtain ⟨hc, hl⟩ := List.ne_and_not_mem_of_not_mem_cons h
    rw [lines_cons_of_ne (Ne.symm hc)]
    cases l with
    | nil => rfl
    | cons d l =>
      rw [ih hl (List.cons_ne_nil _ _)]
      rfl

theorem lines_unlines_append {delim : α} {ls : List (List α)} (h : ∀ l ∈ ls, delim ∉ l) (s : List α) :
    lines delim (unlines delim ls ++ s) = ls ++ lines delim s := by
  induction ls with
  | nil => rfl
  | cons l ls ih =>
    have hl := lines_append_delim (h l List.mem_cons_self) (unlines delim ls ++ s)
    rw [ih fun l' hl' => h l' (List.mem_cons_of_mem l hl')] at hl
    simpa [unlines] using hl

/-- Lines are read back as they were written. -/
theorem lines_unlines {delim : α} {ls : List (List α)} (h : ∀ l ∈ ls, delim ∉ l) :
    lines delim (unlines delim ls) = ls := by
  have hlines := lines_unlines_append h []
  rwa [List.append_nil, lines_nil, List.append_nil] at hlines

/-- No line has the end of a line in it. -/
theorem not_mem_of_mem_lines {delim : α} {s l : List α} (h : l ∈ lines delim s) : delim ∉ l := by
  induction s generalizing l with
  | nil => cases h
  | cons c s ih =>
    by_cases hc : c = delim
    · rw [hc, lines_cons_delim] at h
      rcases List.mem_cons.mp h with rfl | h
      · exact List.not_mem_nil
      · exact ih h
    · rw [lines_cons_of_ne hc] at h
      cases hs : lines delim s with
      | nil =>
        rw [hs] at h
        obtain rfl := List.mem_singleton.mp h
        exact fun hmem => hc (List.mem_singleton.mp hmem).symm
      | cons l' ls =>
        rw [hs] at h
        rw [hs] at ih
        rcases List.mem_cons.mp h with rfl | h
        · exact List.not_mem_cons_of_ne_of_not_mem (Ne.symm hc) (ih List.mem_cons_self)
        · exact ih (List.mem_cons_of_mem _ h)

end Lines

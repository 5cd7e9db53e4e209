import Mathlib.Data.List.Count

/-! Texts written one behind the other, with a separator in front of each but where nothing has
been written yet. -/

namespace KeyText

variable {α : Type} {sep : α}

def append (sep : α) (key text : List α) : List α :=
  (if key.length ≠ 0 then key ++ [sep] else key) ++ text

def join (sep : α) (texts : List (List α)) : List α :=
  texts.foldl (append sep) []

/-- Behind something the separator stands in front of each text. -/
theorem foldl_append {key : List α} (hne : key ≠ []) (texts : List (List α)) :
    texts.foldl (append sep) key = key ++ texts.flatMap (sep :: ·) := by
  induction texts generalizing key with
  | nil => simp
  | cons text texts ih =>
    have hlength : key.length ≠ 0 := fun h => hne (List.length_eq_zero_iff.mp h)
    rw [List.foldl_cons, append, if_pos hlength, ih (by simp), List.flatMap_cons]
    simp

variable [DecidableEq α]

omit [DecidableEq α] in
/-- What stands in front of the first separator is the same. -/
theorem append_inj {a b r s : List α} (ha : sep ∉ a) (hb : sep ∉ b) (hr : r = [] ∨ ∃ r', r = sep :: r')
    (hs : s = [] ∨ ∃ s', s = sep :: s') (h : a ++ r = b ++ s) : a = b ∧ r = s := by
  induction a generalizing b with
  | nil =>
    cases b with
    | nil => exact ⟨rfl, h⟩
    | cons d b =>
      rcases hr with rfl | ⟨r', rfl⟩
      · cases h
      · obtain ⟨rfl, -⟩ := List.cons.inj h
        exact absurd List.mem_cons_self hb
  | cons c a ih =>
    rw [List.mem_cons, not_or] at ha
    cases b with
    | nil =>
      rcases hs with rfl | ⟨s', rfl⟩
      · cases h
      · obtain ⟨rfl, -⟩ := List.cons.inj h
        exact absurd rfl ha.1
    | cons d b =>
      rw [List.mem_cons, not_or] at hb
      obtain ⟨rfl, htail⟩ := List.cons.inj h
      obtain ⟨rfl, hrest⟩ := ih ha.2 hb.2 htail
      exact ⟨rfl, hrest⟩

end KeyText

import Mathlib.Data.List.Nodup
import Mathlib.Data.List.Basic

/-! An index of a list of names: a map from each name to its place. -/

namespace NameIndex

variable {α : Type} [BEq α] [LawfulBEq α]

/-- A map finds exactly the names of a list, each at its place. -/
def Indexes (index : List (α × Int)) (names : List α) : Prop :=
  ∀ name i, index.lookup name = some i ↔ 0 ≤ i ∧ names[i.toNat]? = some name

/-- The entries of names that stand behind `n` others, the last one in front. -/
def entries (names : List α) (n : Nat) : List (α × Int) :=
  ((names.zipIdx n).map fun (name, i) => (name, (i : Int))).reverse

variable {index : List (α × Int)} {names : List α}

omit [LawfulBEq α] in
/-- A name of the list is found at its place. -/
theorem Indexes.lookup_eq (h : Indexes index names) {name : α} {i : Nat} (hi : names[i]? = some name) :
    index.lookup name = some (i : Int) :=
  (h name i).mpr ⟨Int.natCast_nonneg i, hi⟩

omit [LawfulBEq α] in
/-- A name that is not in the list has no index. -/
theorem Indexes.lookup_eq_none (h : Indexes index names) {name : α} (hname : name ∉ names) :
    index.lookup name = none := by
  rw [Option.eq_none_iff_forall_ne_some]
  intro i hi
  exact hname (List.mem_of_getElem? ((h name i).mp hi).2)

omit [LawfulBEq α] in
omit [LawfulBEq α] in
theorem indexes_nil : Indexes ([] : List (α × Int)) [] := by
  intro name i
  simp

/-- A new name at the end of the list. -/
theorem Indexes.push (h : Indexes index names) {new : α} (hnew : new ∉ names) :
    Indexes ((new, (names.length : Int)) :: index) (names ++ [new]) := by
  intro name i
  rw [List.lookup_cons]
  by_cases hname : name = new
  · subst hname
    simp only [beq_self_eq_true, Option.some.injEq]
    constructor
    · rintro rfl
      exact ⟨Int.natCast_nonneg _, by simp⟩
    · rintro ⟨hi, hget⟩
      rcases Nat.lt_or_ge i.toNat names.length with hlt | hge
      · rw [List.getElem?_append_left hlt] at hget
        exact absurd (List.mem_of_getElem? hget) hnew
      · have hlast := (List.getElem?_eq_some_iff.mp hget).1
        rw [List.length_append, List.length_singleton] at hlast
        omega
  · simp only [beq_eq_false_iff_ne.mpr hname]
    rw [h name i]
    refine and_congr_right fun hi => ?_
    rcases Nat.lt_trichotomy i.toNat names.length with hlt | heq | hgt
    · rw [List.getElem?_append_left hlt]
    · rw [heq, List.getElem?_eq_none (Nat.le_refl _), List.getElem?_concat_length]
      simp only [reduceCtorEq, Option.some.injEq, false_iff]
      exact Ne.symm hname
    · rw [List.getElem?_eq_none (Nat.le_of_lt hgt), List.getElem?_eq_none (by simp; omega)]

/-- New names at the end of the list. -/
theorem Indexes.append (h : Indexes index names) (new : List α) (hnodup : (names ++ new).Nodup) :
    Indexes (entries new names.length ++ index) (names ++ new) := by
  induction new generalizing index names with
  | nil => simpa [entries] using h
  | cons name new ih =>
    rw [List.append_cons] at hnodup ⊢
    have hname : name ∉ names := by
      have hfront := (List.nodup_append.mp hnodup).1
      exact fun hmem => (List.nodup_append.mp hfront).2.2 name hmem name List.mem_cons_self rfl
    have hrest := ih (h.push hname) hnodup
    rw [List.length_append, List.length_singleton] at hrest
    have hentries : entries (name :: new) names.length ++ index =
        entries new (names.length + 1) ++ ((name, (names.length : Int)) :: index) := by
      rw [entries, List.zipIdx_cons, List.map_cons, List.reverse_cons, List.append_assoc, List.singleton_append]
      rfl
    rw [hentries]
    exact hrest

/-- The index of a list that is made anew. -/
theorem indexes_entries {new : List α} (hnodup : new.Nodup) : Indexes (entries new 0) new := by
  have hnew := indexes_nil.append new hnodup
  rwa [List.append_nil] at hnew

/-- A name takes the place of another one, which is taken out of the map. -/
theorem Indexes.rename (h : Indexes index names) {rest : List (α × Int)} {i : Nat} {old new : α}
    (hold : names[i]? = some old) (hnew : ∀ j, names[j]? = some new → j = i)
    (hkept : ∀ name, name ≠ old → name ≠ new → rest.lookup name = index.lookup name)
    (hgone : old ≠ new → rest.lookup old = none) : Indexes ((new, (i : Int)) :: rest) (names.set i new) := by
  have hi := (List.getElem?_eq_some_iff.mp hold).1
  intro name j
  rw [List.lookup_cons]
  by_cases hname : name = new
  · subst hname
    simp only [beq_self_eq_true, Option.some.injEq]
    constructor
    · rintro rfl
      exact ⟨Int.natCast_nonneg _, by simp [hi]⟩
    · rintro ⟨hj, hget⟩
      by_cases heq : i = j.toNat
      · omega
      · rw [List.getElem?_set_ne heq] at hget
        have hplace := hnew _ hget
        omega
  · simp only [beq_eq_false_iff_ne.mpr hname]
    by_cases hnameOld : name = old
    · subst hnameOld
      rw [hgone hname]
      simp only [reduceCtorEq, false_iff, not_and]
      intro hj hget
      by_cases heq : i = j.toNat
      · rw [← heq, List.getElem?_set_self hi] at hget
        exact hname (Option.some.inj hget).symm
      · rw [List.getElem?_set_ne heq] at hget
        have hplace := h.lookup_eq hget
        rw [h.lookup_eq hold, Option.some.injEq] at hplace
        omega
    · rw [hkept name hnameOld hname, h name j]
      refine and_congr_right fun hj => ?_
      by_cases heq : i = j.toNat
      · rw [← heq, List.getElem?_set_self hi, hold]
        simp only [Option.some.injEq]
        exact iff_of_false (Ne.symm hnameOld) (Ne.symm hname)
      · rw [List.getElem?_set_ne heq]

end NameIndex

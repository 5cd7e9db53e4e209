import Mathlib.Algebra.Order.Ring.Nat
import Mathlib.Data.List.Perm.Subperm

namespace Slots

variable {α : Type}

/-- The part of a text with the given number, where all parts are of one size. -/
def chunk (size : Nat) (s : List α) (i : Nat) : List α :=
  (s.drop (size * i)).take size

def count (size : Nat) (s : List α) : Nat :=
  (s.length + size - 1) / size

/-- The parts of a text; only the last one can be shorter than the size. -/
def chunks (size : Nat) (s : List α) : List (List α) :=
  (List.range (count size s)).map (chunk size s)

@[simp] theorem length_chunks (size : Nat) (s : List α) : (chunks size s).length = count size s := by
  rw [chunks, List.length_map, List.length_range]

/-- The chunks have room for the whole list. -/
theorem le_mul_count {size : Nat} (hsize : 0 < size) (s : List α) : s.length ≤ size * count size s := by
  have hdiv := Nat.div_add_mod (s.length + size - 1) size
  have hmod := Nat.mod_lt (s.length + size - 1) hsize
  rw [← count] at hdiv
  omega

/-- Each chunk begins within the list. -/
theorem mul_lt_length {size : Nat} {s : List α} {i : Nat} (hi : i < count size s) : size * i < s.length := by
  by_cases hsize : size = 0
  · simp [count, hsize] at hi
  · have hle : size * (i + 1) ≤ s.length + size - 1 :=
      (Nat.mul_le_mul_left size hi).trans (Nat.mul_div_le (s.length + size - 1) size)
    rw [Nat.mul_add, Nat.mul_one] at hle
    omega

/-- The first chunks are the front of the list. -/
theorem flatten_range (size : Nat) (s : List α) (n : Nat) :
    ((List.range n).map (chunk size s)).flatten = s.take (size * n) := by
  induction n with
  | zero => rfl
  | succ n ih =>
    rw [List.range_succ, List.map_append, List.flatten_append, ih, Nat.mul_add, Nat.mul_one, List.take_add]
    simp [chunk]

/-- The parts one after the other are the text. -/
theorem flatten_chunks {size : Nat} (hsize : 0 < size) (s : List α) : (chunks size s).flatten = s := by
  rw [chunks, flatten_range, List.take_of_length_le (le_mul_count hsize s)]

/-- There are no more chunks than elements. -/
theorem count_le_length {size : Nat} (hsize : 0 < size) (s : List α) : count size s ≤ s.length := by
  by_contra h
  have hlast : size * (count size s - 1) < s.length := mul_lt_length (by omega)
  have hle := Nat.le_mul_of_pos_left (count size s - 1) hsize
  omega

/-- A list that is longer than a chunk has two at least. -/
theorem two_le_count {size : Nat} (hsize : 0 < size) {s : List α} (hlength : size < s.length) : 2 ≤ count size s := by
  by_contra h
  have hall := le_mul_count hsize s
  have hmul := Nat.mul_le_mul_left size (show count size s ≤ 1 by omega)
  omega

/-- A chunk is as long as its size, except for the last one. -/
theorem length_chunk {size : Nat} (s : List α) (i : Nat) :
    (chunk size s i).length = min size (s.length - size * i) := by
  rw [chunk, List.length_take, List.length_drop]

theorem chunk_ne_nil {size : Nat} (hsize : 0 < size) {s : List α} {i : Nat} (hi : i < count size s) :
    chunk size s i ≠ [] := by
  have hlt := mul_lt_length hi
  apply List.ne_nil_of_length_pos
  rw [length_chunk]
  omega

theorem ne_nil_of_mem_chunks {size : Nat} (hsize : 0 < size) {s : List α} : ∀ part ∈ chunks size s, part ≠ [] := by
  intro part hpart
  obtain ⟨i, hi, rfl⟩ := List.mem_map.mp hpart
  exact chunk_ne_nil hsize (List.mem_range.mp hi)

/-- The parts fit behind a header where the first one does, which is the longest one. -/
theorem forall_length_chunks_le_iff {size : Nat} (hsize : 0 < size) {s : List α} {header n : Nat} :
    (∀ part ∈ chunks size s, header + part.length ≤ n) ↔ s = [] ∨ header + min size s.length ≤ n := by
  constructor
  · intro h
    by_cases hs : s = []
    · exact .inl hs
    · have hpos := List.length_pos_of_ne_nil hs
      have hall := le_mul_count hsize s
      have hcount : 0 < count size s := by
        by_contra hzero
        rw [Nat.eq_zero_of_not_pos hzero] at hall
        omega
      have hfirst := h _ (List.mem_map.mpr ⟨0, List.mem_range.mpr hcount, rfl⟩)
      rw [length_chunk, Nat.mul_zero, Nat.sub_zero] at hfirst
      exact .inr hfirst
  · rintro (rfl | hmin) part hpart
    · obtain ⟨i, hi, -⟩ := List.mem_map.mp hpart
      exact absurd (mul_lt_length (List.mem_range.mp hi)) (Nat.not_lt_zero _)
    · obtain ⟨i, hi, rfl⟩ := List.mem_map.mp hpart
      rw [length_chunk]
      omega

/-- What is there of some parts when those of the given numbers have come. -/
def arrived (parts : List (List α)) (done : List Nat) : List (List α) :=
  parts.mapIdx fun i part => if i ∈ done then part else []

@[simp] theorem length_arrived (parts : List (List α)) (done : List Nat) :
    (arrived parts done).length = parts.length := by
  rw [arrived, List.length_mapIdx]

/-- A slot is filled just if its part is among those that came. -/
theorem getElem?_arrived (parts : List (List α)) (done : List Nat) (i : Nat) :
    (arrived parts done)[i]? = parts[i]?.map fun part => if i ∈ done then part else [] := by
  rw [arrived, List.getElem?_mapIdx]

theorem arrived_nil (parts : List (List α)) : arrived parts [] = List.replicate parts.length [] := by
  apply List.ext_getElem?
  intro i
  rw [getElem?_arrived, List.getElem?_replicate]
  by_cases hi : i < parts.length
  · simp [hi]
  · simp [hi]

/-- A part put at its place. -/
theorem set_arrived {parts : List (List α)} {done : List Nat} {i : Nat} {part : List α}
    (hpart : parts[i]? = some part) :
    (arrived parts done).set i part = arrived parts (i :: done) := by
  obtain ⟨hi, rfl⟩ := List.getElem?_eq_some_iff.mp hpart
  apply List.ext_getElem?
  intro j
  rw [List.getElem?_set, getElem?_arrived, getElem?_arrived, length_arrived]
  by_cases hij : i = j
  · subst hij
    simp [hi]
  · have hmem : j ∈ i :: done ↔ j ∈ done := by simp [Ne.symm hij]
    simp [hij, hmem]

/-- All parts are there. -/
theorem arrived_of_forall {parts : List (List α)} {done : List Nat} (h : ∀ i < parts.length, i ∈ done) :
    arrived parts done = parts := by
  apply List.ext_getElem?
  intro i
  rw [getElem?_arrived]
  by_cases hi : i < parts.length
  · simp [hi, h i hi]
  · simp [hi]

/-- Where no part is empty, no place is empty when all parts are there. -/
theorem forall_mem_arrived_iff {parts : List (List α)} (hparts : ∀ part ∈ parts, part ≠ []) {done : List Nat} :
    (∀ part ∈ arrived parts done, part ≠ []) ↔ ∀ i < parts.length, i ∈ done := by
  refine ⟨fun h i hi => ?_, fun h => ?_⟩
  · by_contra hmem
    have hplace : (arrived parts done)[i]? = some [] := by
      rw [getElem?_arrived, List.getElem?_eq_getElem hi, Option.map_some, if_neg hmem]
    exact h [] (List.mem_of_getElem? hplace) rfl
  · rw [arrived_of_forall h]
    exact hparts

/-- The next place of a vector overwritten by other parts, one after the other. -/
theorem set_take_append_drop {parts data : List (List α)} {i : Nat} (hparts : i < parts.length)
    (hdata : i < data.length) :
    (parts.take i ++ data.drop i).set i parts[i] = parts.take (i + 1) ++ data.drop (i + 1) := by
  have hlength : (parts.take i).length = i := by
    rw [List.length_take]
    omega
  rw [List.set_append_right _ _ (by omega), hlength, Nat.sub_self, List.drop_eq_getElem_cons hdata, List.set_cons_zero,
    List.take_add_one, List.getElem?_eq_getElem hparts, List.append_assoc]
  rfl

/-- Numbers without repetition that are as many as there are parts are all of them. -/
theorem forall_mem_of_length {n : Nat} {done : List Nat} (hnodup : done.Nodup) (hlt : ∀ i ∈ done, i < n)
    (hlength : done.length = n) : ∀ i < n, i ∈ done := by
  have hsubset : done ⊆ List.range n := fun i hi => List.mem_range.mpr (hlt i hi)
  have hperm : done.Perm (List.range n) :=
    (List.subperm_of_subset hnodup hsubset).perm_of_length_le (by simp [hlength])
  exact fun i hi => hperm.mem_iff.mpr (List.mem_range.mpr hi)

end Slots

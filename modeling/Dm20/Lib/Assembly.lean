import Mathlib.Data.List.Basic

/-! A message of a known size that comes in parts, put together in a buffer. -/

namespace Assembly

variable {α : Type}

/-- How far the parts have led. -/
inductive Progress (α : Type) where
  | waiting
  | failed
  | overrun
  | complete (bytes : List α)
deriving DecidableEq

/-- Takes parts behind those taken before, until there are as many bytes as the message has. A
part of this size is the message itself. An empty part ends it, as one does with which there are
too many bytes; so does one that does not fit into the buffer. -/
def assemble (room : Nat) (total : Int) (taken : List α) : List (List α) → Progress α
  | [] => .waiting
  | part :: parts =>
    if part = [] ∨ total < part.length then .failed
    else if part.length = total then .complete part
    else if total < (taken ++ part).length then .failed
    else if room < (taken ++ part).length then .overrun
    else if (taken ++ part).length = total then .complete (taken ++ part)
    else assemble room total (taken ++ part) parts

variable {room : Nat} {total : Int} {taken part bytes : List α} {parts rest : List (List α)}

/-- A division of a message is put together, whatever comes behind it. -/
theorem assemble_eq_complete (hne : parts ≠ []) (hparts : ∀ part ∈ parts, part ≠ [])
    (htotal : (taken ++ parts.flatten).length = total) (hroom : total ≤ room) (rest : List (List α)) :
    assemble room total taken (parts ++ rest) = .complete (taken ++ parts.flatten) := by
  induction parts generalizing taken with
  | nil => exact absurd rfl hne
  | cons part parts ih =>
    obtain ⟨hpart, hparts⟩ := List.forall_mem_cons.mp hparts
    have hpos : 0 < part.length := List.length_pos_iff.mpr hpart
    simp only [List.flatten_cons, List.length_append] at htotal
    rw [List.cons_append, assemble, if_neg (by simp only [hpart, false_or]; omega)]
    by_cases hlast : parts = []
    · subst hlast
      simp only [List.flatten_nil, List.length_nil] at htotal
      by_cases hwhole : (part.length : Int) = total
      · have htaken : taken = [] := List.eq_nil_of_length_eq_zero (by omega)
        rw [if_pos hwhole, htaken, List.flatten_cons, List.flatten_nil, List.append_nil, List.nil_append]
      · rw [if_neg hwhole, List.length_append, if_neg (by omega), if_neg (by omega), if_pos (by omega),
          List.flatten_cons, List.flatten_nil, List.append_nil]
    · obtain ⟨next, hnext⟩ := List.exists_mem_of_ne_nil parts hlast
      have hnextPos : 0 < next.length := List.length_pos_iff.mpr (hparts next hnext)
      have hflatten : next.length ≤ parts.flatten.length := (List.sublist_flatten_of_mem hnext).length_le
      rw [if_neg (by omega), List.length_append, if_neg (by omega), if_neg (by omega), if_neg (by omega)]
      have htotal' : (taken ++ part ++ parts.flatten).length = total := by
        simp only [List.length_append]
        omega
      rw [ih hlast hparts htotal', List.flatten_cons, List.append_assoc]

/-- Parts that are too few are waited for. -/
theorem assemble_eq_waiting (hparts : ∀ part ∈ parts, part ≠ []) (htotal : (taken ++ parts.flatten).length < total)
    (hroom : total ≤ room) : assemble room total taken parts = .waiting := by
  induction parts generalizing taken with
  | nil => rfl
  | cons part parts ih =>
    obtain ⟨hpart, hparts⟩ := List.forall_mem_cons.mp hparts
    simp only [List.flatten_cons, List.length_append] at htotal
    rw [assemble, if_neg (by simp only [hpart, false_or]; omega), if_neg (by omega), List.length_append,
      if_neg (by omega), if_neg (by omega), if_neg (by omega)]
    refine ih hparts ?_
    simp only [List.length_append]
    omega

/-- The buffer is overrun where the first parts have more bytes than it has room for, and not more
than the message is said to have. -/
theorem assemble_eq_overrun_iff (hparts : ∀ part ∈ parts, part.length ≤ room) (htaken : taken.length ≤ room) :
    assemble room total taken parts = .overrun ↔
      ∃ n, (∀ part ∈ parts.take n, part ≠ []) ∧ room < (taken ++ (parts.take n).flatten).length ∧
        (taken ++ (parts.take n).flatten).length ≤ total := by
  induction parts generalizing taken with
  | nil =>
    refine iff_of_false (fun h => by cases h) ?_
    rintro ⟨n, -, hroom, -⟩
    rw [List.take_nil, List.flatten_nil, List.append_nil] at hroom
    omega
  | cons part parts ih =>
    obtain ⟨hpart, hparts⟩ := List.forall_mem_cons.mp hparts
    constructor
    · intro h
      rw [assemble] at h
      split at h
      · cases h
      · next hfits =>
        obtain ⟨hne, -⟩ := not_or.mp hfits
        split at h
        · cases h
        · split at h
          · cases h
          · next hmost =>
            split at h
            · next hroom =>
              refine ⟨1, by simpa using hne, ?_, ?_⟩
              · simpa using hroom
              · simpa using hmost
            · next hroom =>
              split at h
              · cases h
              · obtain ⟨n, hfirst, hover, hle⟩ := (ih hparts (Nat.not_lt.mp hroom)).mp h
                rw [List.append_assoc] at hover hle
                exact ⟨n + 1, List.forall_mem_cons.mpr ⟨hne, hfirst⟩, hover, hle⟩
    · rintro ⟨n, hfirst, hover, hle⟩
      cases n with
      | zero =>
        rw [List.take_zero, List.flatten_nil, List.append_nil] at hover
        omega
      | succ n =>
        rw [List.take_succ_cons] at hfirst hover hle
        obtain ⟨hne, hfirst⟩ := List.forall_mem_cons.mp hfirst
        rw [List.flatten_cons, ← List.append_assoc] at hover hle
        have hlength : (taken ++ part ++ (parts.take n).flatten).length =
            (taken ++ part).length + (parts.take n).flatten.length := List.length_append
        rw [assemble, if_neg (by simp only [hne, false_or]; omega), if_neg (by omega), if_neg (by omega)]
        by_cases hroom : room < (taken ++ part).length
        · rw [if_pos hroom]
        · rw [if_neg hroom, if_neg (by omega), ih hparts (Nat.not_lt.mp hroom)]
          exact ⟨n, hfirst, hover, hle⟩

/-- What is put together has the size of the message, and room. -/
theorem of_assemble_eq_complete (hparts : ∀ part ∈ parts, part.length ≤ room)
    (h : assemble room total taken parts = .complete bytes) :
    bytes ≠ [] ∧ bytes.length ≤ room ∧ (bytes.length : Int) = total := by
  induction parts generalizing taken with
  | nil => cases h
  | cons part parts ih =>
    obtain ⟨hpart, hparts⟩ := List.forall_mem_cons.mp hparts
    rw [assemble] at h
    split at h
    · cases h
    · next hfits =>
      obtain ⟨hne, -⟩ := not_or.mp hfits
      split at h
      · next hwhole =>
        obtain rfl := Progress.complete.inj h
        exact ⟨hne, hpart, hwhole⟩
      · split at h
        · cases h
        · split at h
          · cases h
          · next hroom =>
            split at h
            · next htotal =>
              obtain rfl := Progress.complete.inj h
              exact ⟨List.append_ne_nil_of_right_ne_nil _ hne, Nat.not_lt.mp hroom, htotal⟩
            · exact ih hparts h

end Assembly

import Mathlib.Data.List.Induction
import Mathlib.Data.List.Perm.Subperm

/-! Lists from which entries are taken out by their keys, the last with a key first. -/

namespace KeyRemoval

variable {α β κ : Type}

/-- The entry at an index is the last with a key. -/
def LastWith (key : α → κ) (k : κ) (l : List α) (i : Nat) : Prop :=
  ∃ before a after, l = before ++ a :: after ∧ before.length = i ∧ key a = k ∧ ∀ b ∈ after, key b ≠ k

/-- A key that occurs has a last place. -/
theorem exists_lastWith {key : α → κ} {k : κ} {l : List α} (h : k ∈ l.map key) : ∃ i, LastWith key k l i := by
  classical
  induction l with
  | nil => cases h
  | cons a l ih =>
    by_cases hl : k ∈ l.map key
    · obtain ⟨i, before, b, after, rfl, rfl, hb, hafter⟩ := ih hl
      exact ⟨_, a :: before, b, after, rfl, rfl, hb, hafter⟩
    · obtain rfl : k = key a := (List.mem_cons.mp h).resolve_right hl
      refine ⟨0, [], a, l, rfl, rfl, rfl, fun b hb heq => hl ?_⟩
      rw [← heq]
      exact List.mem_map_of_mem hb

theorem LastWith.of_map {f : α → β} {key : β → κ} {k : κ} {l : List α} {i : Nat} (h : LastWith key k (l.map f) i) :
    LastWith (key ∘ f) k l i := by
  obtain ⟨before, a, after, hl, rfl, ha, hafter⟩ := h
  obtain ⟨before', rest, rfl, rfl, hrest⟩ := List.map_eq_append_iff.mp hl
  obtain ⟨a', after', rfl, rfl, rfl⟩ := List.map_eq_cons_iff.mp hrest
  exact ⟨before', a', after', rfl, by rw [List.length_map], ha, fun b hb => hafter _ (List.mem_map_of_mem hb)⟩

variable [DecidableEq κ]

/-- The list without the last entry with a key. -/
def removeLast (key : α → κ) (k : κ) (l : List α) : List α :=
  (l.reverse.eraseP fun a => decide (key a = k)).reverse

/-- The last entries with the given keys taken out one after another. -/
def removeEach (key : α → κ) (ks : List κ) (l : List α) : List α :=
  ks.foldl (fun l k => removeLast key k l) l

variable {key : α → κ}

theorem removeLast_append_singleton (k : κ) (l : List α) (a : α) :
    removeLast key k (l ++ [a]) = if key a = k then l else removeLast key k l ++ [a] := by
  unfold removeLast
  rw [List.reverse_append, List.reverse_singleton, List.singleton_append, List.eraseP_cons]
  by_cases h : key a = k
  · rw [if_pos h, decide_eq_true h, cond_true, List.reverse_reverse]
  · rw [if_neg h, decide_eq_false h, cond_false, List.reverse_cons]

/-- To remove the last element with a key is to remove the one at that place. -/
theorem LastWith.removeLast_eq {k : κ} {l : List α} {i : Nat} (h : LastWith key k l i) :
    removeLast key k l = l.eraseIdx i := by
  obtain ⟨before, a, after, rfl, rfl, ha, hafter⟩ := h
  rw [List.eraseIdx_append_of_length_le (Nat.le_refl _), Nat.sub_self, List.eraseIdx_cons_zero]
  induction after using List.reverseRecOn with
  | nil => rw [removeLast_append_singleton, if_pos ha, List.append_nil]
  | append_singleton after b ih =>
    have hb : key b ≠ k := hafter b (by simp)
    rw [← List.cons_append, ← List.append_assoc, removeLast_append_singleton, if_neg hb,
      ih fun c hc => hafter c (List.mem_append_left _ hc), List.append_assoc]

/-- What is left after the removals is in the old order. -/
theorem removeEach_sublist (key : α → κ) (ks : List κ) (l : List α) : (removeEach key ks l).Sublist l := by
  induction ks generalizing l with
  | nil => exact List.Sublist.refl l
  | cons k ks ih =>
    have hlast : (removeLast key k l).Sublist l := by
      have h := (List.eraseP_sublist (p := fun a => decide (key a = k)) (l := l.reverse)).reverse
      rwa [List.reverse_reverse] at h
    exact (ih _).trans hlast

/-- The last entry goes if its key is among those given. -/
theorem removeEach_append_singleton (ks : List κ) (l : List α) (a : α) :
    removeEach key ks (l ++ [a]) =
      if key a ∈ ks then removeEach key (ks.erase (key a)) l else removeEach key ks l ++ [a] := by
  induction ks generalizing l with
  | nil => rfl
  | cons k ks ih =>
    rw [removeEach, List.foldl_cons, removeLast_append_singleton]
    by_cases hk : key a = k
    · rw [if_pos hk, if_pos (by simp [hk]), hk, List.erase_cons_head]
      rfl
    · have hmem : key a ∈ k :: ks ↔ key a ∈ ks := by simp [hk]
      rw [if_neg hk]
      refine (ih _).trans ?_
      by_cases hks : key a ∈ ks
      · rw [if_pos hks, if_pos (hmem.mpr hks), List.erase_cons_tail (by simpa using Ne.symm hk)]
        rfl
      · rw [if_neg hks, if_neg fun h => hks (hmem.mp h)]
        rfl

/-- No more elements are removed than keys are given. -/
theorem countP_le_removeEach (key : α → κ) (p : α → Bool) (ks : List κ) (l : List α) :
    l.countP p ≤ (removeEach key ks l).countP p + ks.length := by
  induction l using List.reverseRecOn generalizing ks with
  | nil => simp
  | append_singleton l a ih =>
    rw [removeEach_append_singleton, List.countP_append]
    by_cases hmem : key a ∈ ks
    · have hlength := List.length_erase_of_mem hmem
      have hpos := List.length_pos_of_mem hmem
      have hle := ih (ks.erase (key a))
      have hone : [a].countP p ≤ 1 := List.countP_le_length
      rw [if_pos hmem]
      omega
    · have hle := ih ks
      rw [if_neg hmem, List.countP_append]
      omega

/-- Taking out as many entries as satisfy a predicate, by their keys, leaves the
others just if no other entry stands behind one of them with the same key. -/
theorem removeEach_eq_filter_iff {p : α → Bool} {l : List α} {ks : List κ} (h : ks.Perm ((l.filter p).map key)) :
    removeEach key ks l = l.filter (fun a => !p a) ↔ l.Pairwise fun a b => key a = key b → p a = true → p b = true := by
  induction l using List.reverseRecOn generalizing ks with
  | nil =>
    obtain rfl := List.perm_nil.mp h
    simp [removeEach]
  | append_singleton l a ih =>
    have hpairs : (l ++ [a]).Pairwise (fun a b => key a = key b → p a = true → p b = true) ↔
        l.Pairwise (fun a b => key a = key b → p a = true → p b = true) ∧
          ∀ b ∈ l, key b = key a → p b = true → p a = true := by
      rw [List.pairwise_append]
      simp
    rw [List.filter_append] at h
    rw [removeEach_append_singleton, List.filter_append, hpairs]
    by_cases ha : p a = true
    · rw [List.filter_singleton, ha, List.map_append] at h
      have hmem : key a ∈ ks := h.mem_iff.mpr (by simp)
      have herase : (ks.erase (key a)).Perm ((l.filter p).map key) := by
        have hperm := (h.trans List.perm_append_comm).erase (key a)
        simpa using hperm
      rw [if_pos hmem, List.filter_singleton, ha, Bool.not_true]
      simp only [cond_false, List.append_nil]
      rw [ih herase]
      exact ⟨fun hl => ⟨hl, fun b _ _ _ => trivial⟩, fun hl => hl.1⟩
    · have hfalse : p a = false := Bool.not_eq_true _ ▸ ha
      rw [List.filter_singleton, hfalse] at h
      simp only [cond_false, List.append_nil] at h
      rw [List.filter_singleton, hfalse, Bool.not_false]
      simp only [cond_true]
      by_cases hmem : key a ∈ ks
      · obtain ⟨b, hb, hkey⟩ := List.mem_map.mp (h.mem_iff.mp hmem)
        rw [List.mem_filter] at hb
        rw [if_pos hmem]
        refine ⟨fun heq => ?_, fun hl => absurd (hl.2 b hb.1 hkey hb.2) Bool.false_ne_true⟩
        -- One entry less is taken out of the rest than it has of the kind.
        have hcount := countP_le_removeEach key p (ks.erase (key a)) l
        have hlength := List.length_erase_of_mem hmem
        have hpos := List.length_pos_of_mem hmem
        have hks := h.length_eq
        rw [List.length_map, ← List.countP_eq_length_filter] at hks
        have hnone : (l.filter (fun a => !p a) ++ [a]).countP p = 0 := by
          rw [List.countP_eq_zero]
          intro c hc
          rcases List.mem_append.mp hc with hc | hc
          · simpa using (List.mem_filter.mp hc).2
          · rw [List.mem_singleton.mp hc]
            exact ha
        rw [heq, hnone] at hcount
        omega
      · rw [if_neg hmem, List.append_cancel_right_eq, ih h]
        refine ⟨fun hl => ⟨hl, fun b hb hkey hp => absurd ?_ hmem⟩, fun hl => hl.1⟩
        rw [← hkey]
        exact h.mem_iff.mpr (List.mem_map_of_mem (List.mem_filter.mpr ⟨hb, hp⟩))

end KeyRemoval

import Mathlib.Data.List.Nodup
import Mathlib.Data.List.Perm.Basic

namespace Pairing

variable {α κ τ : Type}

/-- The items that have met one with the same key, the earlier one first, and
those that still wait for one. -/
structure State (α : Type) where
  pairs : List (α × α) := []
  waiting : List α := []

def both (p : α × α) : List α :=
  [p.1, p.2]

/-- An item meets the one that waits with its key, or waits itself. -/
def arrive [DecidableEq κ] (key : α → κ) (s : State α) (a : α) : State α :=
  match s.waiting.find? fun b => decide (key b = key a) with
  | none => { s with waiting := s.waiting ++ [a] }
  | some b =>
    { pairs := s.pairs ++ [(b, a)]
      waiting := s.waiting.filter fun b => decide (key b ≠ key a) }

/-- The pairs and the waiting items that a list of arrivals gives rise to: each
item is in one place, and at most one waits for each key. -/
structure Formed (key : α → κ) (as : List α) (s : State α) : Prop where
  perm : (s.pairs.flatMap both ++ s.waiting).Perm as
  key_eq : ∀ p ∈ s.pairs, key p.1 = key p.2
  waiting_nodup : (s.waiting.map key).Nodup
  earlier : ∀ p ∈ s.pairs, [p.1, p.2].Sublist as

/-- An element with a key of its own may be brought to the front. -/
theorem perm_cons_filter [DecidableEq κ] {key : α → κ} {l : List α} (hnodup : (l.map key).Nodup) {b : α} (hb : b ∈ l) :
    l.Perm (b :: l.filter fun c => decide (key c ≠ key b)) := by
  induction l with
  | nil => cases hb
  | cons c l ih =>
    obtain ⟨hc, hl⟩ := List.nodup_cons.mp hnodup
    rcases List.mem_cons.mp hb with rfl | hmem
    · have hkeep : ∀ d ∈ l, decide (key d ≠ key b) = true := by
        intro d hd
        rw [decide_eq_true_iff]
        intro heq
        exact hc (heq ▸ List.mem_map_of_mem hd)
      rw [List.filter_cons_of_neg (by simp), List.filter_eq_self.mpr hkeep]
    · have hne : key c ≠ key b := by
        intro heq
        exact hc (heq ▸ List.mem_map_of_mem hmem)
      rw [List.filter_cons_of_pos (by simpa using hne)]
      exact ((ih hl hmem).cons c).trans (List.Perm.swap b c _)

theorem formed_nil (key : α → κ) : Formed key [] {} :=
  ⟨List.Perm.refl _, by simp, List.nodup_nil, by simp⟩

/-- Each arrival keeps the pairs and the waiting items well formed. -/
theorem Formed.arrive [DecidableEq κ] {key : α → κ} {as : List α} {s : State α} (h : Formed key as s) (a : α) :
    Formed key (as ++ [a]) (arrive key s a) := by
  unfold Pairing.arrive
  cases hfind : s.waiting.find? fun b => decide (key b = key a) with
  | none =>
    have hnew : ∀ b ∈ s.waiting, key b ≠ key a := by simpa using List.find?_eq_none.mp hfind
    refine ⟨?_, h.key_eq, ?_, fun p hp => (h.earlier p hp).trans (List.sublist_append_left _ _)⟩
    · rw [← List.append_assoc]
      exact h.perm.append_right [a]
    · rw [List.map_append, List.nodup_append]
      refine ⟨h.waiting_nodup, by simp, ?_⟩
      rintro k hk k' hk' rfl
      obtain ⟨b, hb, rfl⟩ := List.mem_map.mp hk
      exact hnew b hb (by simpa using hk')
  | some b =>
    have hb : b ∈ s.waiting := List.mem_of_find?_eq_some hfind
    have hkey : key b = key a := by simpa using List.find?_some hfind
    have hfilter : s.waiting.Perm (b :: s.waiting.filter fun c => decide (key c ≠ key a)) := by
      rw [← hkey]
      exact perm_cons_filter h.waiting_nodup hb
    refine ⟨?_, ?_, ?_, ?_⟩
    · simp only [List.flatMap_append, List.flatMap_singleton, both]
      calc ((s.pairs.flatMap both ++ [b, a]) ++ s.waiting.filter fun c => decide (key c ≠ key a)).Perm
            ((s.pairs.flatMap both ++ (b :: s.waiting.filter fun c => decide (key c ≠ key a))) ++ [a]) := by
            simp only [List.append_assoc, List.cons_append, List.nil_append]
            exact ((List.perm_append_singleton a _).symm.cons b).append_left _
        _ |>.Perm ((s.pairs.flatMap both ++ s.waiting) ++ [a]) :=
            (hfilter.symm.append_left _).append_right _
        _ |>.Perm (as ++ [a]) := h.perm.append_right _
    · intro p hp
      rcases List.mem_append.mp hp with hp | hp
      · exact h.key_eq p hp
      · obtain rfl := List.mem_singleton.mp hp
        exact hkey
    · exact h.waiting_nodup.sublist ((List.filter_sublist).map key)
    · intro p hp
      rcases List.mem_append.mp hp with hp | hp
      · exact (h.earlier p hp).trans (List.sublist_append_left _ _)
      · obtain rfl := List.mem_singleton.mp hp
        have hmem : b ∈ as := h.perm.mem_iff.mp (List.mem_append_right _ hb)
        exact (List.singleton_sublist.mpr hmem).append (List.Sublist.refl [a])

section Tagged

variable {key : α → κ} {as : List α} {s : State α} {tag : α → τ}

/-- Where no two items agree in tag and key, the two of a pair differ in their tags. -/
theorem Formed.tag_ne (h : Formed key as s) (hnodup : (as.map fun a => (tag a, key a)).Nodup)
    {p : α × α} (hp : p ∈ s.pairs) : tag p.1 ≠ tag p.2 := by
  intro htag
  have hpair := hnodup.sublist ((h.earlier p hp).map _)
  simp [htag, h.key_eq p hp] at hpair

/-- Where moreover there are two tags only, the key of a waiting item is that of no other. -/
theorem Formed.alone (h : Formed key as s) (hnodup : (as.map fun a => (tag a, key a)).Nodup)
    {l r : τ} (htags : ∀ a ∈ as, tag a = l ∨ tag a = r) {a b : α} (ha : a ∈ s.waiting) (hb : b ∈ as)
    (hkey : key b = key a) : b = a := by
  rcases List.mem_append.mp (h.perm.mem_iff.mpr hb) with hpaired | hwaiting
  · obtain ⟨p, hp, hbp⟩ := List.mem_flatMap.mp hpaired
    have hall := (h.perm.map fun a => (tag a, key a)).nodup_iff.mpr hnodup
    rw [List.map_append, List.nodup_append] at hall
    have hapart : ∀ c ∈ both p, (tag c, key c) ≠ (tag a, key a) := fun c hc =>
      hall.2.2 _ (List.mem_map_of_mem (List.mem_flatMap.mpr ⟨p, hp, hc⟩)) _ (List.mem_map_of_mem ha)
    have hkeys : ∀ c ∈ both p, key c = key a := by
      have heq := h.key_eq p hp
      simp only [both, List.mem_cons, List.not_mem_nil, or_false] at hbp ⊢
      rintro c (rfl | rfl) <;> rcases hbp with rfl | rfl
      · exact hkey
      · exact heq.trans hkey
      · exact heq.symm.trans hkey
      · exact hkey
    have htag : ∀ c ∈ both p, tag c ≠ tag a := fun c hc heq => hapart c hc (by rw [heq, hkeys c hc])
    have hmem : ∀ c ∈ both p, c ∈ as := fun c hc =>
      h.perm.mem_iff.mp (List.mem_append_left _ (List.mem_flatMap.mpr ⟨p, hp, hc⟩))
    have hne := h.tag_ne hnodup hp
    have h1 := htag p.1 (by simp [both])
    have h2 := htag p.2 (by simp [both])
    have ha' := htags a (h.perm.mem_iff.mp (List.mem_append_right _ ha))
    have h1' := htags p.1 (hmem p.1 (by simp [both]))
    have h2' := htags p.2 (hmem p.2 (by simp [both]))
    grind
  · exact List.inj_on_of_nodup_map h.waiting_nodup hwaiting ha hkey

end Tagged

end Pairing

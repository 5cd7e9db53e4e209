import Mathlib.Order.Defs.LinearOrder
import Mathlib.Data.List.Induction
import Mathlib.Logic.Function.Basic
import Mathlib.Order.Lattice

/-! Keeping the latest of the items of each key. -/

namespace Latest

variable {α κ τ : Type} [LinearOrder τ] {key : α → κ} {time : α → τ}

/-- What is kept under each key of the items seen: some of them, and among them
one that is as late as any. -/
structure Kept (key : α → κ) (time : α → τ) (stored : κ → List α) (seen : List α) : Prop where
  sub : ∀ k, ∀ a ∈ stored k, a ∈ seen ∧ key a = k
  latest : ∀ a ∈ seen, ∃ b ∈ stored (key a), ∀ c ∈ seen, key c = key a → time c ≤ time b

/-- An item is later than all others of its key. -/
def Newest (key : α → κ) (time : α → τ) (seen : List α) (a : α) : Prop :=
  a ∈ seen ∧ ∀ b ∈ seen, key b = key a → b ≠ a → time b < time a

theorem Kept.mem_of_newest {stored : κ → List α} {seen : List α} (h : Kept key time stored seen) {a : α}
    (ha : Newest key time seen a) : a ∈ stored (key a) := by
  obtain ⟨b, hb, hlatest⟩ := h.latest a ha.1
  by_cases heq : b = a
  · rw [← heq] at hb ⊢
    exact hb
  · obtain ⟨hseen, hkey⟩ := h.sub (key a) b hb
    exact absurd (ha.2 b hseen hkey heq) (not_lt.mpr (hlatest a ha.1 rfl))

/-- An item more: what is kept of its key changes to some of what was kept and
the item, and one as late as any of these is among it. -/
theorem Kept.append {stored stored' : κ → List α} {seen : List α} (h : Kept key time stored seen) (a : α)
    (hother : ∀ k, k ≠ key a → stored' k = stored k)
    (hsub : ∀ b ∈ stored' (key a), b ∈ stored (key a) ++ [a])
    (hlatest : ∃ b ∈ stored' (key a), ∀ c ∈ stored (key a) ++ [a], time c ≤ time b) :
    Kept key time stored' (seen ++ [a]) := by
  refine ⟨fun k b hb => ?_, fun b hb => ?_⟩
  · by_cases hk : k = key a
    · subst hk
      rcases List.mem_append.mp (hsub b hb) with hold | hnew
      · exact ⟨List.mem_append_left _ (h.sub _ b hold).1, (h.sub _ b hold).2⟩
      · obtain rfl := List.mem_singleton.mp hnew
        exact ⟨List.mem_append_right _ hnew, rfl⟩
    · rw [hother k hk] at hb
      exact ⟨List.mem_append_left _ (h.sub k b hb).1, (h.sub k b hb).2⟩
  · by_cases hk : key b = key a
    · rw [hk]
      obtain ⟨d, hd, hall⟩ := hlatest
      refine ⟨d, hd, fun c hc hkey => ?_⟩
      rcases List.mem_append.mp hc with hold | hnew
      · obtain ⟨e, he, htop⟩ := h.latest c hold
        exact le_trans (htop c hold rfl) (hall e (List.mem_append_left _ (hkey ▸ he)))
      · exact hall c (List.mem_append_right _ hnew)
    · have hold : b ∈ seen := by
        rcases List.mem_append.mp hb with hold | hnew
        · exact hold
        · exact absurd (by rw [List.mem_singleton.mp hnew]) hk
      obtain ⟨d, hd, htop⟩ := h.latest b hold
      refine ⟨d, by rw [hother _ hk]; exact hd, fun c hc hkey => ?_⟩
      rcases List.mem_append.mp hc with hc | hnew
      · exact htop c hc hkey
      · rw [List.mem_singleton.mp hnew] at hkey
        exact absurd hkey.symm hk

/-- The end of a list in the order of time has an item as late as any of it. -/
theorem exists_latest_drop {l : List α} (hsorted : l.Pairwise fun a b => time a ≤ time b) (hne : l ≠ []) {n : Nat}
    (hn : 0 < n) : ∃ b ∈ l.drop (l.length - n), ∀ c ∈ l, time c ≤ time b := by
  obtain ⟨init, b, rfl⟩ := List.eq_nil_or_concat l |>.resolve_left hne
  refine ⟨b, ?_, fun c hc => ?_⟩
  · have hle : (init ++ [b]).length - n ≤ init.length := by
      simp only [List.length_append, List.length_singleton]
      omega
    rw [List.concat_eq_append, List.drop_append_of_le_length hle]
    exact List.mem_append_right _ (List.mem_singleton_self b)
  · rw [List.concat_eq_append] at hc hsorted
    rcases List.mem_append.mp hc with hc | hc
    · exact (List.pairwise_append.mp hsorted).2.2 c hc b (List.mem_singleton_self b)
    · rw [List.mem_singleton.mp hc]

/-- A map built from a list of entries, the last of each key. -/
theorem foldl_update_eq_some_iff {β ε : Type} [DecidableEq κ] {f : ε → κ} {g : ε → β} {entries : List ε}
    (h : ∀ e ∈ entries, ∀ e' ∈ entries, f e = f e' → g e = g e') (k : κ) (v : β) :
    entries.foldl (fun m e => Function.update m (f e) (some (g e))) (fun _ => none) k = some v ↔
      ∃ e ∈ entries, f e = k ∧ g e = v := by
  induction entries using List.reverseRecOn with
  | nil => simp
  | append_singleton entries e ih =>
    have hinit := ih fun a ha b hb => h a (List.mem_append_left _ ha) b (List.mem_append_left _ hb)
    rw [List.foldl_append, List.foldl_cons, List.foldl_nil]
    by_cases hk : k = f e
    · subst hk
      rw [Function.update_self]
      constructor
      · intro hv
        exact ⟨e, List.mem_append_right _ (List.mem_singleton_self e), rfl, Option.some.inj hv⟩
      · rintro ⟨e', he', hkey, rfl⟩
        exact congrArg some (h e (List.mem_append_right _ (List.mem_singleton_self e)) e' he' hkey.symm)
    · rw [Function.update_of_ne hk, hinit]
      constructor
      · rintro ⟨e', he', hkey, hv⟩
        exact ⟨e', List.mem_append_left _ he', hkey, hv⟩
      · rintro ⟨e', he', hkey, hv⟩
        rcases List.mem_append.mp he' with he' | he'
        · exact ⟨e', he', hkey, hv⟩
        · exact absurd (List.mem_singleton.mp he' ▸ hkey.symm) hk

/-- A list holds the newest of the items seen, `n` of them or all, in the order of time. -/
def HoldsNewest (time : α → τ) (n : Nat) (seen kept : List α) : Prop :=
  kept.length = min n seen.length ∧ (kept.Pairwise fun a b => time a ≤ time b) ∧
    ∃ dropped, seen.Perm (kept ++ dropped) ∧ ∀ a ∈ dropped, ∀ b ∈ kept, time a ≤ time b

theorem HoldsNewest.nil (time : α → τ) (n : Nat) : HoldsNewest time n [] [] :=
  ⟨by simp, List.Pairwise.nil, [], List.Perm.nil, by simp⟩

/-- An item more, put in its place, and the oldest items taken off. -/
theorem HoldsNewest.insert {n : Nat} {seen kept : List α} (h : HoldsNewest time n seen kept) {a : α} {l : List α}
    (hperm : l.Perm (kept ++ [a])) (hsorted : l.Pairwise fun a b => time a ≤ time b) :
    HoldsNewest time n (seen ++ [a]) (l.drop (l.length - n)) := by
  obtain ⟨hlength, -, dropped, hseen, hle⟩ := h
  have hcount : l.length = min n seen.length + 1 := by
    rw [hperm.length_eq, List.length_append, hlength, List.length_singleton]
  have hsplit := List.take_append_drop (l.length - n) l
  refine ⟨?_, hsorted.drop, dropped ++ l.take (l.length - n), ?_, fun c hc b hb => ?_⟩
  · rw [List.length_drop, hcount, List.length_append, List.length_singleton]
    omega
  · have hall : (seen ++ [a]).Perm (l ++ dropped) := by
      refine (hseen.append_right [a]).trans ?_
      rw [List.append_assoc]
      refine (List.Perm.append_left kept List.perm_append_comm).trans ?_
      rw [← List.append_assoc]
      exact hperm.symm.append_right dropped
    refine hall.trans ?_
    nth_rewrite 1 [← hsplit]
    rw [List.append_assoc]
    refine List.perm_append_comm.trans ?_
    rw [List.append_assoc]
  · rcases List.mem_append.mp hc with hold | htaken
    · have hfull : kept.length = n := by
        have hlt := hseen.length_eq
        rw [List.length_append] at hlt
        have hpos := List.length_pos_of_mem hold
        omega
      obtain ⟨first, rest, rfl⟩ := List.exists_cons_of_length_pos (show 0 < l.length by omega)
      rw [show (first :: rest).length - n = 1 by omega, List.drop_one, List.tail_cons] at hb
      have hmem := fun d hd => List.mem_append.mp (hperm.mem_iff (a := d) |>.mp hd)
      rcases hmem b (List.mem_cons_of_mem _ hb) with hkept | hnew
      · exact hle c hold b hkept
      · rcases hmem first (List.mem_cons_self ..) with hfirst | hfirst
        · exact le_trans (hle c hold first hfirst) (List.rel_of_pairwise_cons hsorted hb)
        -- The item itself is the one taken off: what stays is what was kept.
        · obtain rfl := List.mem_singleton.mp hfirst
          have hrest : rest.Perm kept :=
            (List.perm_cons first).mp (hperm.trans List.perm_append_comm)
          exact hle c hold b (hrest.mem_iff.mp hb)
    · rw [← hsplit] at hsorted
      exact (List.pairwise_append.mp hsorted).2.2 c htaken b hb

/-- Of one item kept none is later. -/
theorem HoldsNewest.le_of_singleton {seen : List α} {a : α} (h : HoldsNewest time 1 seen [a]) :
    a ∈ seen ∧ ∀ b ∈ seen, time b ≤ time a := by
  obtain ⟨-, -, dropped, hseen, hle⟩ := h
  refine ⟨hseen.mem_iff.mpr (by simp), fun b hb => ?_⟩
  rcases List.mem_append.mp (hseen.mem_iff.mp hb) with hb | hb
  · rw [List.mem_singleton.mp hb]
  · exact hle b hb a (List.mem_singleton_self a)

/-- One item is kept of any number, unless there is none. -/
theorem HoldsNewest.eq_singleton {seen kept : List α} (h : HoldsNewest time 1 seen kept) {a : α} (ha : a ∈ seen) :
    ∃ b, kept = [b] := by
  have hpos := List.length_pos_of_mem ha
  have hlength := h.1
  exact List.length_eq_one_iff.mp (by omega)

theorem HoldsNewest.eq_nil {n : Nat} {kept : List α} (h : HoldsNewest time n [] kept) : kept = [] :=
  List.eq_nil_of_length_eq_zero (by simpa using h.1)


section FirstOfEach

open Classical in
/-- The items that have fewer than `n` of their kind before them, among those
seen and in the list. -/
noncomputable def firstOfEach (same : α → α → Prop) (n : Int) : List α → List α → List α
  | _, [] => []
  | seen, a :: l =>
    if (seen.countP fun b => decide (same b a) : Int) < n then a :: firstOfEach same n (seen ++ [a]) l
    else firstOfEach same n (seen ++ [a]) l

/-- The first ones of each class depend on the classes of the elements only. -/
theorem firstOfEach_congr {same same' : α → α → Prop} {n : Int} {seen l : List α}
    (h : ∀ a ∈ seen ++ l, ∀ b ∈ seen ++ l, same a b ↔ same' a b) :
    firstOfEach same n seen l = firstOfEach same' n seen l := by
  classical
  induction l generalizing seen with
  | nil => rfl
  | cons a l ih =>
    have hcount : (seen.countP fun b => decide (same b a)) = seen.countP fun b => decide (same' b a) :=
      List.countP_congr fun b hb => by
        simp only [decide_eq_true_eq]
        exact h b (List.mem_append_left _ hb) a (by simp)
    have hsame : ∀ b ∈ (seen ++ [a]) ++ l, ∀ c ∈ (seen ++ [a]) ++ l, same b c ↔ same' b c := by simpa using h
    have hrest := ih hsame
    simp only [firstOfEach, hcount, hrest]

end FirstOfEach

end Latest

import Mathlib.Data.List.Nodup

/-! Maps as lists of keys and values: what a change of the list does to the
value found under each key. -/

namespace AssocList

variable {α β : Type} [DecidableEq α] [BEq α] [LawfulBEq α]

theorem lookup_cons_eq_ite (a b : α) (v : β) (l : List (α × β)) :
    ((a, v) :: l).lookup b = if b = a then some v else l.lookup b := by
  by_cases h : b = a
  · simp [h]
  · have hne : (b == a) = false := by simpa using h
    simp [List.lookup_cons, h, hne]

omit [DecidableEq α] in
/-- What holds of every entry holds of the one that is found. -/
theorem of_lookup {P : α → β → Prop} {l : List (α × β)} {a : α} {v : β} (h : l.lookup a = some v)
    (hall : ∀ entry ∈ l, P entry.1 entry.2) : P a v := by
  obtain ⟨before, after, rfl, -⟩ := List.lookup_eq_some_iff.mp h
  exact hall (a, v) (by simp)

/-- Every value changed in place. -/
theorem lookup_map_value (f : α → β → β) (l : List (α × β)) (b : α) :
    (l.map fun p => (p.1, f p.1 p.2)).lookup b = (l.lookup b).map (f b) := by
  induction l with
  | nil => rfl
  | cons p l ih =>
    obtain ⟨a, v⟩ := p
    rw [List.map_cons, lookup_cons_eq_ite, lookup_cons_eq_ite, ih]
    by_cases h : b = a
    · subst h
      simp
    · simp [h]

/-- One key taken out. -/
theorem lookup_filter_ne (l : List (α × β)) (a b : α) :
    (l.filter fun p => decide (p.1 ≠ a)).lookup b = if b = a then none else l.lookup b := by
  induction l with
  | nil => simp
  | cons p l ih =>
    obtain ⟨c, v⟩ := p
    by_cases hc : c = a
    · subst hc
      rw [List.filter_cons_of_neg (by simp), ih, lookup_cons_eq_ite]
      by_cases hb : b = c <;> simp [hb]
    · rw [List.filter_cons_of_pos (by simpa using hc), lookup_cons_eq_ite, lookup_cons_eq_ite, ih]
      by_cases hb : b = c
      · subst hb
        simp [hc]
      · simp [hb]

/-- A key added at the end of a list that does not have it. -/
theorem lookup_append_singleton {l : List (α × β)} {a : α} (h : l.lookup a = none) (v : β) (b : α) :
    (l ++ [(a, v)]).lookup b = if b = a then some v else l.lookup b := by
  rw [List.lookup_append, lookup_cons_eq_ite]
  by_cases hb : b = a
  · subst hb
    simp [h]
  · simp [hb]

/-- Sets the value of a key, in place or as a new entry. -/
def set (l : List (α × β)) (a : α) (v : β) : List (α × β) :=
  match l.lookup a with
  | some _ => l.map fun p => (p.1, if p.1 = a then v else p.2)
  | none => l ++ [(a, v)]

/-- After an update the key has the new value, and each other key the one it had. -/
theorem lookup_set (l : List (α × β)) (a : α) (v : β) (b : α) :
    (set l a v).lookup b = if b = a then some v else l.lookup b := by
  unfold set
  cases hlookup : l.lookup a with
  | none => exact lookup_append_singleton hlookup v b
  | some u =>
    simp only
    rw [lookup_map_value fun c (w : β) => if c = a then v else w]
    by_cases hb : b = a
    · simp [hb, hlookup]
    · simp [hb]

omit [DecidableEq α] in
/-- A key has a value just if it is one of the keys. -/
theorem lookup_isSome_iff {l : List (α × β)} {a : α} : (l.lookup a).isSome = true ↔ a ∈ l.map Prod.fst := by
  rw [List.lookup_isSome_iff]
  simp

/-- The keys after a value is set. -/
theorem keys_set (l : List (α × β)) (a : α) (v : β) :
    (set l a v).map Prod.fst = if a ∈ l.map Prod.fst then l.map Prod.fst else l.map Prod.fst ++ [a] := by
  unfold set
  cases hlookup : l.lookup a with
  | none =>
    have hnot : a ∉ l.map Prod.fst := by
      rw [← lookup_isSome_iff, hlookup]
      exact Bool.false_ne_true
    rw [if_neg hnot]
    simp
  | some u =>
    have hmem : a ∈ l.map Prod.fst := by
      rw [← lookup_isSome_iff, hlookup]
      rfl
    rw [if_pos hmem]
    simp

/-- Maps with the same keys in the same order and the same values are the same list. -/
theorem eq_of_lookup_eq {l l' : List (α × β)} (hkeys : l.map Prod.fst = l'.map Prod.fst)
    (hnodup : (l.map Prod.fst).Nodup) (h : ∀ a, l.lookup a = l'.lookup a) : l = l' := by
  induction l generalizing l' with
  | nil =>
    cases l' with
    | nil => rfl
    | cons p l' => cases hkeys
  | cons p l ih =>
    cases l' with
    | nil => cases hkeys
    | cons p' l' =>
      obtain ⟨a, v⟩ := p
      obtain ⟨a', v'⟩ := p'
      simp only [List.map_cons, List.cons.injEq] at hkeys
      obtain ⟨rfl, hkeys⟩ := hkeys
      obtain ⟨hnot, hnodup⟩ := List.nodup_cons.mp hnodup
      have hhead := h a
      rw [lookup_cons_eq_ite, lookup_cons_eq_ite, if_pos rfl, if_pos rfl] at hhead
      obtain rfl := Option.some.inj hhead
      rw [ih hkeys hnodup fun b => ?_]
      have hb := h b
      rw [lookup_cons_eq_ite, lookup_cons_eq_ite] at hb
      by_cases heq : b = a
      · subst heq
        have hnone : ∀ m : List (α × β), m.map Prod.fst = l.map Prod.fst → m.lookup b = none := fun m hm => by
          rw [← Option.not_isSome_iff_eq_none, lookup_isSome_iff, hm]
          exact hnot
        rw [hnone l rfl, hnone l' hkeys.symm]
      · rwa [if_neg heq, if_neg heq] at hb

omit [BEq α] [LawfulBEq α] in
/-- An entry is found under its key, if no other has the same. -/
theorem find?_key_of_nodup {ι : Type} {key : ι → α} {l : List ι} (hnodup : (l.map key).Nodup) {a : ι} (ha : a ∈ l) :
    (l.find? fun b => decide (key b = key a)) = some a := by
  have hfound : (l.find? fun b => decide (key b = key a)).isSome = true :=
    List.find?_isSome.mpr ⟨a, ha, decide_eq_true rfl⟩
  obtain ⟨b, hb⟩ := Option.isSome_iff_exists.mp hfound
  have hkey : key b = key a := by simpa using List.find?_some hb
  rw [hb, List.inj_on_of_nodup_map hnodup (List.mem_of_find?_eq_some hb) ha hkey]

end AssocList

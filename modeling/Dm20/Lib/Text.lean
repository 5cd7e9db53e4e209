import Mathlib.Data.List.Infix

namespace Text

variable {α : Type} [DecidableEq α]

/-- The text before and after the first occurrence of a pattern. -/
def cut (pat : List α) : List α → Option (List α × List α)
  | [] => if pat = [] then some ([], []) else none
  | c :: s =>
    if pat.isPrefixOf (c :: s) then some ([], (c :: s).drop pat.length)
    else (cut pat s).map fun p => (c :: p.1, p.2)

/-- Whether a pattern occurs in a text. -/
def occurs (pat s : List α) : Bool :=
  (cut pat s).isSome

/-- The pieces of a text between the occurrences of a separator, taken from the
left; each unit of the bound allows one cut. -/
def pieces (sep : List α) : Nat → List α → List (List α)
  | 0, s => [s]
  | n + 1, s =>
    match cut sep s with
    | none => [s]
    | some (a, b) => a :: pieces sep n b

/-- A cut takes the pattern out and loses nothing else. -/
theorem cut_eq_some {pat s a b : List α} (h : cut pat s = some (a, b)) : s = a ++ pat ++ b := by
  induction s generalizing a with
  | nil =>
    by_cases hp : pat = []
    · simp only [cut, hp, if_true, Option.some.injEq, Prod.mk.injEq] at h
      simp [hp, ← h.1, ← h.2]
    · simp [cut, hp] at h
  | cons c s ih =>
    by_cases hp : pat.isPrefixOf (c :: s) = true
    · simp only [cut, hp, if_true, Option.some.injEq, Prod.mk.injEq] at h
      obtain ⟨t, ht⟩ := List.isPrefixOf_iff_prefix.mp hp
      have hb : t = b := by
        rw [← h.2, ← ht, List.drop_left]
      rw [← ht, ← h.1, hb]
      rfl
    · simp only [cut, hp, Bool.false_eq_true, if_false, Option.map_eq_some_iff] at h
      obtain ⟨⟨a', b'⟩, hcut, heq⟩ := h
      simp only [Prod.mk.injEq] at heq
      obtain ⟨rfl, rfl⟩ := heq
      simpa using ih hcut

/-- A pattern occurs just where it is a part of the text. -/
theorem occurs_iff {pat s : List α} : occurs pat s = true ↔ pat <:+: s := by
  constructor
  · intro h
    obtain ⟨⟨a, b⟩, hcut⟩ := Option.isSome_iff_exists.mp h
    exact ⟨a, b, (cut_eq_some hcut).symm⟩
  · intro ⟨a, b, hab⟩
    induction a generalizing s with
    | nil =>
      cases s with
      | nil =>
        have hp : pat = [] := by
          have := congrArg List.length hab
          simp at this
          exact this.1
        simp [occurs, cut, hp]
      | cons c s =>
        have hp : pat.isPrefixOf (c :: s) = true :=
          List.isPrefixOf_iff_prefix.mpr ⟨b, by simpa using hab⟩
        simp [occurs, cut, hp]
    | cons c a ih =>
      cases s with
      | nil => simp at hab
      | cons d s =>
        obtain ⟨rfl, htail⟩ : c = d ∧ a ++ pat ++ b = s := by simpa using hab
        by_cases hp : pat.isPrefixOf (c :: s) = true
        · simp [occurs, cut, hp]
        · have := ih htail
          simp only [occurs, Option.isSome_iff_exists] at this ⊢
          obtain ⟨p, hcut⟩ := this
          exact ⟨(c :: p.1, p.2), by simp [cut, hp, hcut]⟩

theorem occurs_singleton {c : α} {s : List α} : occurs [c] s = true ↔ c ∈ s := by
  rw [occurs_iff]
  constructor
  · intro ⟨a, b, hab⟩
    simp [← hab]
  · intro hmem
    obtain ⟨a, b, hab⟩ := List.append_of_mem hmem
    exact ⟨a, b, by simp [hab]⟩

/-- There is no cut just where the pattern does not occur. -/
theorem cut_eq_none_iff {pat s : List α} : cut pat s = none ↔ ¬ pat <:+: s := by
  rw [← occurs_iff, occurs]
  cases cut pat s <;> simp

/-- In front of the first occurrence no other one begins. -/
theorem not_isPrefix_of_cut {pat s a b : List α} (h : cut pat s = some (a, b)) {n : Nat} (hn : n < a.length) :
    ¬ pat <+: s.drop n := by
  induction s generalizing a n with
  | nil =>
    rw [cut] at h
    split at h
    · obtain ⟨rfl, -⟩ := Prod.mk.inj (Option.some.inj h)
      exact absurd hn (Nat.not_lt_zero n)
    · cases h
  | cons c s ih =>
    rw [cut] at h
    split at h
    · obtain ⟨rfl, -⟩ := Prod.mk.inj (Option.some.inj h)
      exact absurd hn (Nat.not_lt_zero n)
    · next hfront =>
      obtain ⟨⟨a', b'⟩, hcut, heq⟩ := Option.map_eq_some_iff.mp h
      obtain ⟨rfl, rfl⟩ := Prod.mk.inj heq
      cases n with
      | zero => exact fun hprefix => hfront (List.isPrefixOf_iff_prefix.mpr hprefix)
      | succ n => exact ih hcut (Nat.lt_of_succ_lt_succ hn)

/-- The cut is at the first place of the pattern. -/
theorem cut_append {pat a b : List α} (hpat : pat ≠ [])
    (hfirst : ∀ n, n < a.length → ¬ pat <+: (a ++ pat ++ b).drop n) :
    cut pat (a ++ pat ++ b) = some (a, b) := by
  induction a with
  | nil =>
    cases hs : [] ++ pat ++ b with
    | nil => simp_all
    | cons c s =>
      have hp : pat.isPrefixOf (c :: s) = true := by
        rw [List.isPrefixOf_iff_prefix, ← hs]
        exact ⟨b, by simp⟩
      simp only [cut, hp, if_true]
      rw [← hs]
      simp
  | cons c a ih =>
    have hp : ¬ pat.isPrefixOf (c :: (a ++ pat ++ b)) = true := by
      intro h
      exact hfirst 0 (by simp) (by simpa using List.isPrefixOf_iff_prefix.mp h)
    have htail : cut pat (a ++ pat ++ b) = some (a, b) := by
      apply ih
      intro n hn
      have := hfirst (n + 1) (by simpa using hn)
      simpa using this
    have hcons : c :: a ++ pat ++ b = c :: (a ++ pat ++ b) := by simp
    rw [hcons]
    simp only [cut, hp, Bool.false_eq_true, if_false, htail, Option.map_some]

/-- A pattern is found behind a text without the pattern's first element. -/
theorem cut_of_head_not_mem {c : α} {rest a : List α} (h : c ∉ a) (b : List α) :
    cut (c :: rest) (a ++ (c :: rest) ++ b) = some (a, b) := by
  refine cut_append (List.cons_ne_nil _ _) ?_
  intro n hn hfront
  rw [List.append_assoc, List.drop_append_of_le_length hn.le] at hfront
  cases hdrop : a.drop n with
  | nil => exact absurd (List.drop_eq_nil_iff.mp hdrop) (Nat.not_le.mpr hn)
  | cons d tail =>
    rw [hdrop] at hfront
    obtain rfl := (List.cons_prefix_cons.mp hfront).1
    exact h (List.mem_of_mem_drop (hdrop ▸ List.mem_cons_self))

theorem cut_singleton {c : α} {a : List α} (h : c ∉ a) (b : List α) : cut [c] (a ++ c :: b) = some (a, b) := by
  have hfound : cut [c] (a ++ [c] ++ b) = some (a, b) := cut_of_head_not_mem h b
  rwa [List.append_assoc, List.singleton_append] at hfound

theorem cut_singleton_spec {c : α} {s a b : List α} (h : cut [c] s = some (a, b)) : s = a ++ c :: b ∧ c ∉ a := by
  have hmem : c ∈ s := by
    rw [cut_eq_some h]
    simp
  obtain ⟨a', b', rfl, hfirst⟩ := List.eq_append_cons_of_mem hmem
  rw [cut_singleton hfirst, Option.some.injEq, Prod.mk.injEq] at h
  obtain ⟨rfl, rfl⟩ := h
  exact ⟨rfl, hfirst⟩

/-- The first piece is what stands in front of the first separator. -/
theorem pieces_singleton {c : α} {a : List α} (h : c ∉ a) (b : List α) (n : Nat) :
    pieces [c] (n + 1) (a ++ c :: b) = a :: pieces [c] n b := by
  simp only [pieces, cut_singleton h]

/-- A text without the separator is one piece. -/
theorem pieces_of_not_mem {c : α} {s : List α} (h : c ∉ s) (n : Nat) : pieces [c] n s = [s] := by
  cases n with
  | zero => rfl
  | succ n =>
    have hnone : cut [c] s = none := by
      rw [cut_eq_none_iff, ← occurs_iff, occurs_singleton]
      exact h
    simp only [pieces, hnone]

/-- The pieces joined with the separator are the text again. -/
theorem intercalate_pieces (sep : List α) (n : Nat) (s : List α) : sep.intercalate (pieces sep n s) = s := by
  induction n generalizing s with
  | zero => exact List.intercalate_singleton
  | succ n ih =>
    rw [pieces]
    cases hcut : cut sep s with
    | none => exact List.intercalate_singleton
    | some ab =>
      obtain ⟨a, b⟩ := ab
      have hne : pieces sep n b ≠ [] := by
        cases n with
        | zero => exact List.cons_ne_nil _ _
        | succ n =>
          rw [pieces]
          split
          all_goals exact List.cons_ne_nil _ _
      have hrest := ih b
      cases hpieces : pieces sep n b with
      | nil => exact absurd hpieces hne
      | cons p ps =>
        rw [hpieces] at hrest
        simp only [hpieces, List.intercalate_cons_cons, hrest]
        exact (cut_eq_some hcut).symm

/-- A piece is a part of the text. -/
theorem isInfix_of_mem_pieces {sep : List α} {n : Nat} {s piece : List α} (h : piece ∈ pieces sep n s) :
    piece <:+: s := by
  induction n generalizing s with
  | zero => exact (List.mem_singleton.mp h) ▸ List.infix_rfl
  | succ n ih =>
    rw [pieces] at h
    cases hcut : cut sep s with
    | none =>
      rw [hcut] at h
      exact (List.mem_singleton.mp h) ▸ List.infix_rfl
    | some ab =>
      obtain ⟨a, b⟩ := ab
      simp only [hcut, List.mem_cons] at h
      rw [cut_eq_some hcut]
      rcases h with rfl | h
      · exact ⟨[], sep ++ b, by simp⟩
      · exact (ih h).trans (List.suffix_append _ _).isInfix

/-- Beyond the length of the text the bound makes no difference. -/
theorem pieces_of_le {sep : List α} (hsep : sep ≠ []) {n m : Nat} {s : List α} (hn : s.length ≤ n)
    (hm : s.length ≤ m) : pieces sep n s = pieces sep m s := by
  have hnil : ∀ k, pieces sep k [] = [[]] := fun k => by
    cases k with
    | zero => rfl
    | succ k => rw [pieces, cut, if_neg hsep]
  induction n generalizing m s with
  | zero =>
    obtain rfl := List.length_eq_zero_iff.mp (Nat.le_zero.mp hn)
    rw [hnil, hnil]
  | succ n ih =>
    cases m with
    | zero =>
      obtain rfl := List.length_eq_zero_iff.mp (Nat.le_zero.mp hm)
      rw [hnil, hnil]
    | succ m =>
      rw [pieces, pieces]
      cases hcut : cut sep s with
      | none => rfl
      | some ab =>
        obtain ⟨a, b⟩ := ab
        have hlength := congrArg List.length (cut_eq_some hcut)
        have hpos := List.length_pos_iff.mpr hsep
        simp only [List.length_append] at hlength
        exact congrArg (a :: ·) (ih (by omega) (by omega))

/-- A pattern that begins nowhere in the first part of a text is looked for behind it. -/
theorem cut_skip {pat u : List α} (v : List α) (h : ∀ n < u.length, ¬ pat <+: (u ++ v).drop n) :
    cut pat (u ++ v) = (cut pat v).map fun ab => (u ++ ab.1, ab.2) := by
  induction u with
  | nil =>
    rw [List.nil_append]
    cases cut pat v <;> rfl
  | cons c u ih =>
    have hfront : ¬ pat.isPrefixOf (c :: (u ++ v)) = true := fun hp =>
      h 0 (Nat.succ_pos _) (List.isPrefixOf_iff_prefix.mp hp)
    have hrest : cut pat (u ++ v) = (cut pat v).map fun ab => (u ++ ab.1, ab.2) :=
      ih fun n hn => h (n + 1) (Nat.succ_lt_succ hn)
    rw [List.cons_append, cut, if_neg hfront, hrest, Option.map_map]
    rfl

/-- A text without the separator is one piece. -/
theorem pieces_of_not_isInfix {sep s : List α} (h : ¬ sep <:+: s) (n : Nat) : pieces sep n s = [s] := by
  cases n with
  | zero => rfl
  | succ n =>
    simp only [pieces, cut_eq_none_iff.mpr h]

/-- Two texts that look the same are cut alike where a separator begins at the same places. -/
theorem map_pieces_congr {β : Type} (look : α → β) {sep : List α} (hsep : sep ≠ []) (n : Nat) {s t : List α}
    (hlook : s.map look = t.map look) (h : ∀ k, sep <+: s.drop k ↔ sep <+: t.drop k) :
    (pieces sep n s).map (List.map look) = (pieces sep n t).map (List.map look) := by
  induction n generalizing s t with
  | zero =>
    rw [pieces, pieces, List.map_singleton, List.map_singleton, hlook]
  | succ n ih =>
    rw [pieces, pieces]
    cases hcut : cut sep s with
    | none =>
      have hnone : cut sep t = none := by
        rw [cut_eq_none_iff] at hcut ⊢
        rintro ⟨a, b, rfl⟩
        refine hcut (((h a.length).mpr ?_).isInfix.trans (List.drop_suffix _ _).isInfix)
        rw [List.append_assoc, List.drop_left]
        exact List.prefix_append _ _
      rw [hnone, List.map_singleton, List.map_singleton, hlook]
    | some ab =>
      obtain ⟨a, b⟩ := ab
      have hs := cut_eq_some hcut
      have hbegins : sep <+: t.drop a.length := by
        rw [← h, hs, List.append_assoc, List.drop_left]
        exact List.prefix_append _ _
      obtain ⟨b', hb'⟩ := hbegins
      have ht : t = t.take a.length ++ sep ++ b' := by rw [List.append_assoc, hb', List.take_append_drop]
      have hlength : (t.take a.length).length = a.length := by
        have hsame := congrArg List.length hlook
        rw [List.length_map, List.length_map, hs, List.length_append, List.length_append] at hsame
        rw [List.length_take]
        omega
      have hcut' : cut sep t = some (t.take a.length, b') := by
        rw [ht]
        refine (cut_append hsep fun n hn => ?_).trans ?_
        · rw [← ht, ← h]
          exact not_isPrefix_of_cut hcut (hlength ▸ hn)
        · rw [← ht]
      rw [hcut', List.map_cons, List.map_cons]
      have hfront : a.map look = (t.take a.length).map look := by
        have htake := congrArg (List.take a.length) hlook
        rw [← List.map_take, ← List.map_take, hs, List.append_assoc, List.take_left] at htake
        exact htake
      have hback : b.map look = b'.map look := by
        have hdrop := congrArg (List.drop (a ++ sep).length) hlook
        rw [← List.map_drop, ← List.map_drop, hs, List.drop_left] at hdrop
        rw [hdrop, List.length_append, ← List.drop_drop, ← hb', List.drop_left]
      refine List.cons_eq_cons.mpr ⟨hfront, ih hback fun k => ?_⟩
      have hrest := h ((a ++ sep).length + k)
      rw [← List.drop_drop, hs, List.drop_left, ← List.drop_drop, List.length_append, ← List.drop_drop, ← hb',
        List.drop_left] at hrest
      exact hrest

/-- Texts without the first element of a separator are the pieces of the text that joins them. -/
theorem pieces_intercalate {c : α} {rest : List α} {parts : List (List α)} (hparts : parts ≠ [])
    (h : ∀ part ∈ parts, c ∉ part) {n : Nat} (hn : parts.length ≤ n + 1) :
    pieces (c :: rest) n ((c :: rest).intercalate parts) = parts := by
  induction parts generalizing n with
  | nil => exact absurd rfl hparts
  | cons part parts ih =>
    obtain ⟨hpart, htail⟩ := List.forall_mem_cons.mp h
    cases parts with
    | nil =>
      rw [List.intercalate_singleton]
      refine pieces_of_not_isInfix (fun hpiece => hpart ?_) n
      exact hpiece.subset List.mem_cons_self
    | cons next parts =>
      obtain ⟨m, rfl⟩ : ∃ m, n = m + 1 := ⟨n - 1, by rw [List.length_cons, List.length_cons] at hn; omega⟩
      rw [List.intercalate_cons_cons, pieces, cut_of_head_not_mem hpart]
      exact congrArg (part :: ·) (ih (List.cons_ne_nil _ _) htail (Nat.le_of_succ_le_succ hn))

omit [DecidableEq α] in
/-- A separator that is not empty stands between any two texts. -/
theorem length_le_length_intercalate {sep : List α} (hsep : sep ≠ []) (parts : List (List α)) :
    parts.length ≤ (sep.intercalate parts).length + 1 := by
  induction parts with
  | nil => exact Nat.zero_le _
  | cons part parts ih =>
    cases parts with
    | nil => exact Nat.le_add_left 1 _
    | cons next parts =>
      have hpos := List.length_pos_iff.mpr hsep
      rw [List.intercalate_cons_cons, List.length_append, List.length_append, List.length_cons]
      omega

omit [DecidableEq α] in
/-- A joined text has nothing in it but its parts and the separator. -/
theorem mem_intercalate {sep : List α} {parts : List (List α)} {c : α} (h : c ∈ sep.intercalate parts) :
    c ∈ sep ∨ ∃ part ∈ parts, c ∈ part := by
  induction parts with
  | nil => cases h
  | cons part parts ih =>
    cases parts with
    | nil =>
      rw [List.intercalate_singleton] at h
      exact .inr ⟨part, List.mem_cons_self, h⟩
    | cons next parts =>
      rw [List.intercalate_cons_cons, List.mem_append, List.mem_append] at h
      rcases h with (h | h) | h
      · exact .inr ⟨part, List.mem_cons_self, h⟩
      · exact .inl h
      · exact (ih h).imp_right fun ⟨part, hpart, hc⟩ => ⟨part, List.mem_cons_of_mem _ hpart, hc⟩

end Text

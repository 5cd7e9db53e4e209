import Dm20.Lib.Text

/-! Texts joined with a separator, and the pieces between the separators in the joined text. -/

namespace Text

variable {α : Type}

/-- No occurrence of a separator begins in a text and goes on behind it. -/
def Closed (sep t : List α) : Prop :=
  ∀ p, p ≠ [] → p <:+ t → ¬ p <+: sep

/-- An end of a closed text is closed: a separator that began in it would reach out of both. -/
theorem Closed.suffix {sep t t' : List α} (h : Closed sep t) (ht' : t' <:+ t) : Closed sep t' :=
  fun p hne hp => h p hne (hp.trans ht')

/-- A text is closed where each of its ends that begins like the separator has an element
that is none of the separator's. -/
theorem closed_of_forall {c : α} {rest t : List α} (h : ∀ p, c :: p <:+ t → ∃ d ∈ p, d ∉ c :: rest) :
    Closed (c :: rest) t := by
  rintro (_ | ⟨d, p⟩) hne hsuffix hfront
  · exact hne rfl
  · obtain ⟨rfl, hp⟩ := List.cons_prefix_cons.mp hfront
    obtain ⟨e, he, hnot⟩ := h p hsuffix
    exact hnot (List.mem_cons_of_mem _ (hp.subset he))

variable [DecidableEq α] {sep : List α}

/-- The first place of a separator stays the first where more is put behind. -/
theorem cut_append_right {s a b : List α} (hsep : sep ≠ []) (h : cut sep s = some (a, b)) (r : List α) :
    cut sep (s ++ r) = some (a, b ++ r) := by
  induction s generalizing a with
  | nil =>
    rw [cut, if_neg hsep] at h
    cases h
  | cons c s ih =>
    rw [cut] at h
    rw [List.cons_append, cut]
    by_cases hfront : sep.isPrefixOf (c :: s) = true
    · rw [if_pos hfront] at h
      obtain ⟨rfl, rfl⟩ := Prod.mk.inj (Option.some.inj h)
      obtain ⟨t, ht⟩ := List.isPrefixOf_iff_prefix.mp hfront
      have hlonger : sep.isPrefixOf (c :: (s ++ r)) = true := by
        rw [List.isPrefixOf_iff_prefix, ← List.cons_append, ← ht]
        exact ⟨t ++ r, (List.append_assoc ..).symm⟩
      rw [if_pos hlonger, ← List.cons_append, ← ht, List.append_assoc, List.drop_left, List.drop_left]
    · rw [if_neg hfront, Option.map_eq_some_iff] at h
      obtain ⟨⟨a', b'⟩, hcut, heq⟩ := h
      obtain ⟨rfl, rfl⟩ := Prod.mk.inj heq
      have hrest := ih hcut
      have hlonger : ¬ sep.isPrefixOf (c :: (s ++ r)) = true := by
        intro hlonger
        have hlength : sep.length ≤ (c :: s).length := by
          rw [cut_eq_some hcut, List.length_cons, List.length_append, List.length_append]
          omega
        have hbegin : sep <+: (c :: s) ++ r := List.isPrefixOf_iff_prefix.mp hlonger
        have hinside := List.prefix_of_prefix_length_le hbegin (List.prefix_append _ _) hlength
        exact hfront (List.isPrefixOf_iff_prefix.mpr hinside)
      rw [if_neg hlonger, hrest]
      rfl

/-- In front of the first occurrence there is none. -/
theorem not_isInfix_of_cut {s a b : List α} (hsep : sep ≠ []) (h : cut sep s = some (a, b)) : ¬ sep <:+: a := by
  intro hwithin
  obtain ⟨⟨x, y⟩, hcut⟩ := Option.isSome_iff_exists.mp (occurs_iff.mpr hwithin)
  have hlonger := cut_append_right hsep hcut (sep ++ b)
  rw [← List.append_assoc, ← cut_eq_some h, h] at hlonger
  have hsame : a = x := (Prod.mk.inj (Option.some.inj hlonger)).1
  have hlength := congrArg List.length (cut_eq_some hcut)
  rw [hsame, List.length_append, List.length_append] at hlength
  exact hsep (List.length_eq_zero_iff.mp (by omega))

/-- The separator is in none of the pieces. -/
theorem not_isInfix_of_mem_pieces {n : Nat} {s piece : List α} (hsep : sep ≠ []) (hn : s.length ≤ n)
    (h : piece ∈ pieces sep n s) : ¬ sep <:+: piece := by
  induction n generalizing s with
  | zero =>
    obtain rfl : piece = s := List.mem_singleton.mp h
    rw [List.length_eq_zero_iff.mp (Nat.le_zero.mp hn), List.infix_nil]
    exact hsep
  | succ n ih =>
    rw [pieces] at h
    cases hcut : cut sep s with
    | none =>
      rw [hcut] at h
      obtain rfl := List.mem_singleton.mp h
      exact cut_eq_none_iff.mp hcut
    | some ab =>
      obtain ⟨a, b⟩ := ab
      rw [hcut] at h
      rcases List.mem_cons.mp h with rfl | h
      · exact not_isInfix_of_cut hsep hcut
      · refine ih ?_ h
        have hlength := congrArg List.length (cut_eq_some hcut)
        rw [List.length_append, List.length_append] at hlength
        have hpos := List.length_pos_iff.mpr hsep
        omega

omit [DecidableEq α] in
/-- Nothing without an element goes on from what is in front of it to what is behind it. -/
theorem isInfix_append_cons_iff_of_not_mem {u v : List α} {c : α} (hsep : sep ≠ []) (hc : c ∉ sep) :
    sep <:+: u ++ c :: v ↔ sep <:+: u ∨ sep <:+: v := by
  rw [List.infix_append_iff, List.infix_cons_iff]
  constructor
  · rintro (h | (h | h) | ⟨s, t, rfl, hs, ht⟩)
    · exact .inl h
    · obtain ⟨d, rest, rfl⟩ := List.exists_cons_of_ne_nil hsep
      obtain ⟨rfl, -⟩ := List.cons_prefix_cons.mp h
      exact absurd List.mem_cons_self hc
    · exact .inr h
    · cases t with
      | nil =>
        rw [List.append_nil]
        exact .inl hs.isInfix
      | cons d t =>
        obtain ⟨rfl, -⟩ := List.cons_prefix_cons.mp ht
        exact absurd (List.mem_append_right s List.mem_cons_self) hc
  · rintro (h | h)
    · exact .inl h
    · exact .inr (.inl (.inr h))

/-- The first separator behind a closed text without one is the one that follows it. -/
theorem cut_closed {t : List α} (hsep : sep ≠ []) (h : Closed sep t) (hnone : cut sep t = none) (rest : List α) :
    cut sep (t ++ sep ++ rest) = some (t, rest) := by
  refine cut_append hsep fun n hn hfront => ?_
  rw [List.append_assoc, List.drop_append_of_le_length hn.le] at hfront
  have hne : t.drop n ≠ [] := fun hnil => absurd (List.drop_eq_nil_iff.mp hnil) (Nat.not_le.mpr hn)
  obtain hle | hle := Nat.le_total sep.length (t.drop n).length
  · have hinside := List.prefix_of_prefix_length_le hfront (List.prefix_append _ _) hle
    exact cut_eq_none_iff.mp hnone (hinside.isInfix.trans (List.drop_suffix n t).isInfix)
  · have hbegins := List.prefix_of_prefix_length_le (List.prefix_append _ _) hfront hle
    exact h _ hne (List.drop_suffix n t) hbegins

/-- No end of a text is a beginning of it, but the whole. -/
def Borderless (sep : List α) : Prop :=
  ∀ p, p ≠ [] → p <+: sep → p <:+ sep → p = sep

/-- What an occurrence that begins in front of another one has in common with it is a border; where
none of the borders makes one, the other one is found. -/
theorem cut_of_borders {a : List α} (hsep : sep ≠ []) (hnone : ¬ sep <:+: a)
    (hborders : ∀ r, r ≠ [] → r <+: sep → r <:+ sep → r ≠ sep → ¬ sep <:+: a ++ r) (b : List α) :
    cut sep (a ++ sep ++ b) = some (a, b) := by
  refine cut_append hsep fun n hn hfront => ?_
  rw [List.append_assoc, List.drop_append_of_le_length hn.le] at hfront
  obtain hlt | hle := Nat.lt_or_ge (a.drop n).length sep.length
  · obtain ⟨r, hr⟩ := List.prefix_of_prefix_length_le (List.prefix_append _ _) hfront hlt.le
    have hlength := congrArg List.length hr
    rw [List.length_append, List.length_drop] at hlength
    have hfront : r <+: sep := by
      have hbegins : a.drop n ++ r <+: a.drop n ++ (sep ++ b) := by
        rw [hr]
        exact hfront
      rw [List.prefix_append_right_inj] at hbegins
      exact List.prefix_of_prefix_length_le hbegins (List.prefix_append _ _) (by omega)
    have hne : r ≠ [] := by
      rintro rfl
      rw [List.append_nil] at hr
      rw [hr] at hlt
      exact Nat.lt_irrefl _ hlt
    have hproper : r ≠ sep := by
      rintro rfl
      omega
    refine hborders r hne hfront ⟨_, hr⟩ hproper ⟨a.take n, [], ?_⟩
    rw [List.append_nil, ← hr, ← List.append_assoc, List.take_append_drop]
  · have hinside := List.prefix_of_prefix_length_le hfront (List.prefix_append _ _) hle
    exact hnone (hinside.isInfix.trans (List.drop_suffix n a).isInfix)

/-- Occurrences of a text without borders do not overlap. -/
theorem cut_borderless {a : List α} (hsep : sep ≠ []) (hborder : Borderless sep) (hnone : ¬ sep <:+: a) (b : List α) :
    cut sep (a ++ sep ++ b) = some (a, b) :=
  cut_of_borders hsep hnone (fun r hne hfront hback hproper => absurd (hborder r hne hfront hback) hproper) b

/-- A closed text and what follows it are cut each on its own. -/
theorem pieces_closed {t : List α} (hsep : sep ≠ []) (h : Closed sep t) (rest : List α) :
    pieces sep (t ++ sep ++ rest).length (t ++ sep ++ rest) =
      pieces sep t.length t ++ pieces sep rest.length rest := by
  have hpos := List.length_pos_iff.mpr hsep
  induction hlength : t.length using Nat.strong_induction_on generalizing t with
  | _ n ih =>
    subst hlength
    obtain ⟨m, hm⟩ : ∃ m, (t ++ sep ++ rest).length = m + 1 :=
      Nat.exists_eq_succ_of_ne_zero (by rw [List.length_append, List.length_append]; omega)
    rw [hm, pieces]
    rw [List.length_append, List.length_append] at hm
    cases hcut : cut sep t with
    | none =>
      rw [cut_closed hsep h hcut, pieces_of_not_isInfix (cut_eq_none_iff.mp hcut)]
      exact congrArg (t :: ·) (pieces_of_le hsep (by omega) le_rfl)
    | some ab =>
      obtain ⟨a, b⟩ := ab
      have ht := cut_eq_some hcut
      have hshort : b.length + sep.length ≤ t.length := by
        rw [ht, List.length_append, List.length_append]
        omega
      obtain ⟨k, hk⟩ : ∃ k, t.length = k + 1 := Nat.exists_eq_succ_of_ne_zero (by omega)
      have hrest := ih b.length (by omega) (h.suffix ⟨a ++ sep, ht.symm⟩) rfl
      rw [List.append_assoc, cut_append_right hsep hcut, hk, pieces, hcut, List.cons_append]
      refine congrArg (a :: ·) ?_
      rw [pieces_of_le hsep (n := k) (m := b.length) (by omega) le_rfl, ← hrest, List.append_assoc]
      refine pieces_of_le hsep ?_ le_rfl
      rw [List.length_append, List.length_append]
      omega

/-- Closed texts joined with a separator are cut each on its own. -/
theorem pieces_intercalate_closed {texts : List (List α)} (hsep : sep ≠ []) (hne : texts ≠ [])
    (h : ∀ t ∈ texts, Closed sep t) : pieces sep (sep.intercalate texts).length (sep.intercalate texts) =
      texts.flatMap fun t => pieces sep t.length t := by
  induction texts with
  | nil => exact absurd rfl hne
  | cons t texts ih =>
    obtain ⟨ht, htexts⟩ := List.forall_mem_cons.mp h
    cases texts with
    | nil => rw [List.intercalate_singleton, List.flatMap_singleton]
    | cons next texts =>
      rw [List.intercalate_cons_cons, pieces_closed hsep ht, ih (List.cons_ne_nil _ _) htexts]
      rfl

omit [DecidableEq α] in
/-- Texts that are not empty are joined to a text that is not empty. -/
theorem length_intercalate_ne_zero {texts : List (List α)} (hne : texts ≠ []) (h : ∀ t ∈ texts, t ≠ []) :
    (sep.intercalate texts).length ≠ 0 := by
  obtain ⟨t, rest, rfl⟩ := List.exists_cons_of_ne_nil hne
  have hpos := List.length_pos_iff.mpr (h t List.mem_cons_self)
  cases rest with
  | nil =>
    rw [List.intercalate_singleton]
    omega
  | cons next rest =>
    rw [List.intercalate_cons_cons, List.length_append, List.length_append]
    omega

theorem length_pieces_pos (sep : List α) (n : Nat) (t : List α) : 0 < (pieces sep n t).length := by
  cases n with
  | zero => exact Nat.one_pos
  | succ n =>
    rw [pieces]
    split <;> exact Nat.succ_pos _

/-- A text in which the separator occurs has more than one piece. -/
theorem one_lt_length_pieces {t : List α} (hsep : sep ≠ []) (h : sep <:+: t) : 1 < (pieces sep t.length t).length := by
  obtain ⟨⟨a, b⟩, hcut⟩ := Option.isSome_iff_exists.mp (occurs_iff.mpr h)
  obtain ⟨k, hk⟩ : ∃ k, t.length = k + 1 := by
    refine Nat.exists_eq_succ_of_ne_zero ?_
    have hpos := List.length_pos_iff.mpr hsep
    have hle := h.length_le
    omega
  rw [hk, pieces, hcut, List.length_cons]
  exact Nat.succ_lt_succ (length_pieces_pos sep k b)

/-- Closed texts are the pieces of the text that joins them where there are as many pieces as
texts, which is where the separator occurs in none of them. -/
theorem length_pieces_intercalate_eq_iff {texts : List (List α)} (hsep : sep ≠ []) (hne : texts ≠ [])
    (h : ∀ t ∈ texts, Closed sep t) :
    (pieces sep (sep.intercalate texts).length (sep.intercalate texts)).length = texts.length ↔
      ∀ t ∈ texts, ¬ sep <:+: t := by
  rw [pieces_intercalate_closed hsep hne h]
  have hcount : texts.length ≤ (texts.flatMap fun t => pieces sep t.length t).length ∧
      ((texts.flatMap fun t => pieces sep t.length t).length = texts.length ↔ ∀ t ∈ texts, ¬ sep <:+: t) := by
    clear hne h
    induction texts with
    | nil => simp
    | cons t texts ih =>
      obtain ⟨hle, hiff⟩ := ih
      have hpos := length_pieces_pos sep t.length t
      rw [List.flatMap_cons, List.length_append, List.length_cons, List.forall_mem_cons, ← hiff]
      refine ⟨by omega, ?_⟩
      by_cases hwithin : sep <:+: t
      · have hlt := one_lt_length_pieces hsep hwithin
        exact iff_of_false (by omega) fun hboth => hboth.1 hwithin
      · rw [pieces_of_not_isInfix hwithin, List.length_singleton]
        exact ⟨fun heq => ⟨hwithin, by omega⟩, fun hboth => by omega⟩
  exact hcount.2

/-- Closed texts without the separator come back out of what they were joined to. -/
theorem pieces_intercalate_of_not_isInfix {texts : List (List α)} (hsep : sep ≠ []) (hne : texts ≠ [])
    (h : ∀ t ∈ texts, Closed sep t) (hnone : ∀ t ∈ texts, ¬ sep <:+: t) :
    pieces sep (sep.intercalate texts).length (sep.intercalate texts) = texts := by
  rw [pieces_intercalate_closed hsep hne h]
  clear hne h
  induction texts with
  | nil => rfl
  | cons t texts ih =>
    obtain ⟨ht, htexts⟩ := List.forall_mem_cons.mp hnone
    rw [List.flatMap_cons, pieces_of_not_isInfix ht, ih htexts]
    rfl

end Text

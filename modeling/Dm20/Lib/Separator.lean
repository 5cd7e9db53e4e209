import Dm20.Lib.Text

namespace Text

variable {α β : Type} {image : β → List α} {sep : List β}

/-- A symbol that is told apart from those of a separator by the text that shows it: one letter
of its own, or a text that the separator is not in, between letters that are not the separator's. -/
def Apart (image : β → List α) (sep : List β) (b : β) : Prop :=
  (∃ a, image b = [a] ∧ ∀ b' ∈ sep, image b' = [a] → b' = b) ∨
    ∃ l m r, image b = l :: (m ++ [r]) ∧ (∀ b' ∈ sep, image b' ≠ [l] ∧ image b' ≠ [r]) ∧
      ¬ sep.flatMap image <:+: m

/-- The symbols of the separator are shown by one letter each, and those of the text are told
apart from them. -/
structure Distinct (image : β → List α) (sep s : List β) : Prop where
  single : ∀ b ∈ sep, ∃ a, image b = [a]
  apart : ∀ b ∈ s, Apart image sep b

variable {s : List β}

/-- The image of a distinct separator consists of single letters. -/
theorem Distinct.mem_image (h : Distinct image sep s) {a : α} (ha : a ∈ sep.flatMap image) :
    ∃ b ∈ sep, image b = [a] := by
  obtain ⟨b, hb, hmem⟩ := List.mem_flatMap.mp ha
  obtain ⟨a', hsingle⟩ := h.single b hb
  rw [hsingle, List.mem_singleton] at hmem
  exact ⟨b, hb, hmem ▸ hsingle⟩

theorem Distinct.ne_nil (h : Distinct image sep s) (hsep : sep ≠ []) : sep.flatMap image ≠ [] := by
  cases sep with
  | nil => exact absurd rfl hsep
  | cons b sep =>
    obtain ⟨a, ha⟩ := h.single b List.mem_cons_self
    rw [List.flatMap_cons, ha]
    exact List.cons_ne_nil _ _

/-- A separator that is distinct in a text is so in the rest of it. -/
theorem Distinct.tail {b : β} (h : Distinct image sep (b :: s)) : Distinct image sep s where
  single := h.single
  apart c hc := h.apart c (List.mem_cons_of_mem _ hc)

/-- The symbols of a separator stand in front of a text as their letters do. -/
theorem Distinct.isPrefix_iff (h : Distinct image sep s) {p : List β} (hp : ∀ b ∈ p, b ∈ sep) :
    p.flatMap image <+: s.flatMap image ↔ p <+: s := by
  constructor
  · intro hfront
    induction p generalizing s with
    | nil => exact List.nil_prefix
    | cons b p ih =>
      have hb : b ∈ sep := hp b List.mem_cons_self
      obtain ⟨a, ha⟩ := h.single b hb
      rw [List.flatMap_cons, ha, List.singleton_append] at hfront
      cases s with
      | nil => exact absurd (List.prefix_nil.mp hfront) (List.cons_ne_nil _ _)
      | cons c s =>
        rcases h.apart c List.mem_cons_self with ⟨a', hc, huniq⟩ | ⟨l, m, r, hc, hedge, -⟩
        · rw [List.flatMap_cons, hc, List.singleton_append, List.cons_prefix_cons] at hfront
          obtain rfl := huniq b hb (hfront.1 ▸ ha)
          exact List.cons_prefix_cons.mpr ⟨rfl, ih h.tail (fun b hb => hp b (List.mem_cons_of_mem _ hb)) hfront.2⟩
        · rw [List.flatMap_cons, hc, List.cons_append, List.cons_prefix_cons] at hfront
          exact absurd (hfront.1 ▸ ha) (hedge b hb).1
  · rintro ⟨t, rfl⟩
    rw [List.flatMap_append]
    exact List.prefix_append _ _

/-- The separator begins nowhere in the text that shows another symbol. -/
theorem Distinct.not_isPrefix_drop (h : Distinct image sep s) (hsep : sep ≠ []) {l r : α} {m : List α}
    (hedge : ∀ b ∈ sep, image b ≠ [l] ∧ image b ≠ [r]) (hm : ¬ sep.flatMap image <:+: m) (v : List α) :
    ∀ n < (l :: (m ++ [r])).length, ¬ sep.flatMap image <+: (l :: (m ++ [r]) ++ v).drop n := by
  intro n hn hfront
  cases n with
  | zero =>
    obtain ⟨a, rest, hP⟩ := List.exists_cons_of_ne_nil (h.ne_nil hsep)
    obtain ⟨b, hb, hsingle⟩ := h.mem_image (a := a) (hP ▸ List.mem_cons_self)
    rw [hP, List.drop_zero, List.cons_append, List.cons_prefix_cons] at hfront
    exact (hedge b hb).1 (hfront.1 ▸ hsingle)
  | succ n =>
    have hle : n ≤ m.length := by
      simp only [List.length_cons, List.length_append, List.length_nil] at hn
      omega
    rw [List.cons_append, List.drop_succ_cons, List.append_assoc, List.drop_append_of_le_length hle] at hfront
    by_cases hlength : (sep.flatMap image).length ≤ (m.drop n).length
    · have hinner := List.prefix_of_prefix_length_le hfront (List.prefix_append _ _) hlength
      exact hm (hinner.isInfix.trans (List.drop_suffix n m).isInfix)
    · have hwhole : m.drop n ++ [r] <+: m.drop n ++ ([r] ++ v) := by
        rw [← List.append_assoc]
        exact List.prefix_append _ _
      have hlast : m.drop n ++ [r] <+: sep.flatMap image := by
        refine List.prefix_of_prefix_length_le hwhole hfront ?_
        rw [List.length_append, List.length_singleton]
        omega
      obtain ⟨b, hb, hsingle⟩ := h.mem_image (a := r) (hlast.subset (by simp))
      exact (hedge b hb).2 hsingle

variable [DecidableEq α] [DecidableEq β]

/-- The first separator of a text stands where it does among the symbols. -/
theorem Distinct.cut_flatMap (h : Distinct image sep s) (hsep : sep ≠ []) :
    cut (sep.flatMap image) (s.flatMap image) =
      (cut sep s).map fun ab => (ab.1.flatMap image, ab.2.flatMap image) := by
  induction s with
  | nil =>
    rw [List.flatMap_nil, cut, cut, if_neg (h.ne_nil hsep), if_neg hsep]
    rfl
  | cons b s ih =>
    have hfront := h.isPrefix_iff fun _ hb => hb
    rcases h.apart b List.mem_cons_self with ⟨a, hb, -⟩ | ⟨l, m, r, hb, hedge, hm⟩
    · by_cases hp : sep <+: b :: s
      · obtain ⟨t, ht⟩ := hp
        have himage : (b :: s).flatMap image = sep.flatMap image ++ t.flatMap image := by
          rw [← ht, List.flatMap_append]
        have hcut : cut sep (b :: s) = some ([], t) := by
          rw [cut, if_pos (List.isPrefixOf_iff_prefix.mpr ⟨t, ht⟩), ← ht, List.drop_left]
        have hcut' : cut (sep.flatMap image) ((b :: s).flatMap image) = some ([], t.flatMap image) := by
          have hP := List.isPrefixOf_iff_prefix.mpr (hfront.mpr ⟨t, ht⟩)
          rw [himage] at hP ⊢
          cases hw : sep.flatMap image ++ t.flatMap image with
          | nil => exact absurd (List.append_eq_nil_iff.mp hw).1 (h.ne_nil hsep)
          | cons c w =>
            rw [hw] at hP
            rw [cut, if_pos hP, ← hw, List.drop_left]
        rw [hcut, hcut']
        rfl
      · have hP : ¬ (sep.flatMap image).isPrefixOf (a :: s.flatMap image) = true := by
          rw [List.isPrefixOf_iff_prefix]
          rw [List.flatMap_cons, hb, List.singleton_append] at hfront
          exact mt hfront.mp hp
        rw [List.flatMap_cons, hb, List.singleton_append, cut, if_neg hP, ih h.tail, cut,
          if_neg (mt List.isPrefixOf_iff_prefix.mp hp), Option.map_map, Option.map_map]
        refine Option.map_congr fun ab _ => ?_
        simp [hb]
    · have hp : ¬ sep.isPrefixOf (b :: s) = true := by
        intro hp
        obtain ⟨c, sep', rfl⟩ := List.exists_cons_of_ne_nil hsep
        obtain rfl := (List.cons_prefix_cons.mp (List.isPrefixOf_iff_prefix.mp hp)).1
        obtain ⟨a, ha⟩ := h.single c List.mem_cons_self
        simp [hb] at ha
      rw [List.flatMap_cons, hb, cut_skip _ (h.not_isPrefix_drop hsep hedge hm _), ih h.tail, cut, if_neg hp,
        Option.map_map, Option.map_map]
      refine Option.map_congr fun ab _ => ?_
      simp [hb]

/-- A text is taken apart at a separator as its symbols are. -/
theorem Distinct.pieces_flatMap (h : Distinct image sep s) (hsep : sep ≠ []) (n : Nat) :
    pieces (sep.flatMap image) n (s.flatMap image) = (pieces sep n s).map fun piece => piece.flatMap image := by
  induction n generalizing s with
  | zero => rfl
  | succ n ih =>
    rw [pieces, pieces, h.cut_flatMap hsep]
    cases hcut : cut sep s with
    | none => rfl
    | some ab =>
      obtain ⟨a, b⟩ := ab
      have hrest : Distinct image sep b :=
        ⟨h.single, fun c hc => h.apart c (by rw [cut_eq_some hcut]; exact List.mem_append_right _ hc)⟩
      simp only [Option.map_some, List.map_cons, ih hrest]

end Text

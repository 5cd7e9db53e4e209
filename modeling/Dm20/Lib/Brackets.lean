import Mathlib.Data.List.Infix
import Mathlib.Data.List.TakeWhile
import Mathlib.Tactic.SplitIfs
import Dm20.Lib.Joined
import Dm20.Lib.Placeholder

/-! The outermost groups between two brackets, or between two quotes, as the numbered parts of a
text. Brackets that close nothing are letters, and so is what follows a bracket that is never closed. -/

namespace Placeholder

variable {α : Type} [DecidableEq α]

/-- The text behind a place, at a nesting depth, with what the open group has so far and the number
of the next group. -/
def scanSegs (left right : α) : Int → List α → Nat → List α → Segs α
  | num, inner, _, [] => if 0 < num then (left :: inner).map .letter else []
  | num, inner, i, c :: s =>
    if 0 < num then
      if c = right then
        if num = 1 then .part i inner :: scanSegs left right 0 [] (i + 1) s
        else scanSegs left right (num - 1) (inner ++ [c]) i s
      else if c = left then scanSegs left right (num + 1) (inner ++ [c]) i s
      else scanSegs left right num (inner ++ [c]) i s
    else if c = left then
      if num = 0 then scanSegs left right 1 [] i s
      else .letter c :: scanSegs left right (num + 1) [] i s
    else if c = right then .letter c :: scanSegs left right (num - 1) [] i s
    else .letter c :: scanSegs left right num [] i s

/-- A text with its groups as parts. -/
def groups (left right : α) (s : List α) : Segs α :=
  scanSegs left right 0 [] 0 s

/-- Between quotes there is none; between brackets those that open come first. -/
def Enclosed (left right : α) (s : List α) : Prop :=
  if left = right then right ∉ s
  else (∀ u, u <+: s → u.count right ≤ u.count left) ∧ s.count left = s.count right

section Scan

variable {left right : α}

omit [DecidableEq α] in
theorem render_letters (style : Style α) (plain : Nat → Bool) (s : List α) :
    style.render plain (s.map .letter) = s :=
  flatMap_letters (fun _ => rfl) s

/-- The parts and the letters between them are the text. -/
theorem render_scanSegs (name : Nat → List α) (num : Int) (inner : List α) (i : Nat) (s : List α) :
    (Style.mk left right name).render (fun _ => true) (scanSegs left right num inner i s) =
      if 0 < num then left :: (inner ++ s) else s := by
  have hletter : ∀ (c : α) (segs : Segs α), (Style.mk left right name).render (fun _ => true) (.letter c :: segs) =
      c :: (Style.mk left right name).render (fun _ => true) segs := fun _ _ => rfl
  induction s generalizing num inner i with
  | nil =>
    rw [scanSegs]
    split_ifs
    · rw [render_letters, List.append_nil]
    · rfl
  | cons c s ih =>
    rw [scanSegs]
    split_ifs with hopen hright hone hleft hleft hzero hright
    · have hpart : (Style.mk left right name).render (fun _ => true)
            (.part i inner :: scanSegs left right 0 [] (i + 1) s) =
          left :: (inner ++ [right]) ++ (Style.mk left right name).render (fun _ => true)
            (scanSegs left right 0 [] (i + 1) s) := rfl
      rw [hpart, ih, if_neg (by decide), hright]
      simp
    · rw [ih, if_pos (by omega)]
      simp
    · rw [ih, if_pos (by omega)]
      simp
    · rw [ih, if_pos hopen]
      simp
    · rw [ih, if_pos (by decide), hleft]
      rfl
    · rw [hletter, ih, if_neg (by omega)]
    · rw [hletter, ih, if_neg (by omega)]
    · rw [hletter, ih, if_neg hopen]

/-- The parts have their places as numbers. -/
theorem numbers_scanSegs (num : Int) (inner : List α) (i : Nat) (s : List α) :
    (parts (scanSegs left right num inner i s)).map Prod.fst =
      List.range' i (parts (scanSegs left right num inner i s)).length := by
  have hletters : ∀ s : List α, parts (s.map .letter) = [] := fun s => by
    induction s with
    | nil => rfl
    | cons c s ih => exact ih
  have hletter : ∀ (c : α) (segs : Segs α), parts (.letter c :: segs) = parts segs := fun _ _ => rfl
  induction s generalizing num inner i with
  | nil =>
    rw [scanSegs]
    split_ifs
    · rw [hletters]
      rfl
    · rfl
  | cons c s ih =>
    rw [scanSegs]
    split_ifs
    · rw [parts_cons_part, List.map_cons, List.length_cons, List.range'_succ, ih]
    · exact ih ..
    · exact ih ..
    · exact ih ..
    · exact ih ..
    · rw [hletter]
      exact ih ..
    · rw [hletter]
      exact ih ..
    · rw [hletter]
      exact ih ..

/-- What an open group has so far. -/
def Opened (left right : α) (num : Int) (inner : List α) : Prop :=
  if left = right then num = 1 ∧ right ∉ inner
  else (∀ u, u <+: inner → u.count right ≤ u.count left) ∧ num = 1 + inner.count left - inner.count right

theorem opened_nil : Opened left right 1 [] := by
  unfold Opened
  split_ifs
  · exact ⟨rfl, List.not_mem_nil⟩
  · refine ⟨fun u hu => ?_, rfl⟩
    rw [List.prefix_nil.mp hu]
    exact le_rfl

/-- A character goes on with the group, but for the one that closes it. -/
theorem Opened.next {num : Int} {inner : List α} (h : Opened left right num inner) (hnum : 0 < num) {c : α}
    (hclose : ¬ (c = right ∧ num = 1)) :
    Opened left right (if c = right then num - 1 else if c = left then num + 1 else num) (inner ++ [c]) := by
  unfold Opened at h ⊢
  by_cases hquotes : left = right
  · rw [if_pos hquotes] at h ⊢
    obtain ⟨rfl, hnot⟩ := h
    have hc : ¬ c = right := fun hc => hclose ⟨hc, rfl⟩
    rw [if_neg hc, if_neg (hquotes ▸ hc), List.mem_append, List.mem_singleton, not_or]
    exact ⟨rfl, hnot, Ne.symm hc⟩
  · rw [if_neg hquotes] at h ⊢
    obtain ⟨hall, heq⟩ := h
    have hcounts : ((inner ++ [c]).count left : Int) = inner.count left + (if c = left then 1 else 0) ∧
        ((inner ++ [c]).count right : Int) = inner.count right + (if c = right then 1 else 0) := by
      simp only [List.count_append, List.count_singleton, beq_iff_eq]
      constructor <;> split_ifs <;> simp
    have hboth : ¬ (c = right ∧ c = left) := fun h => hquotes (h.2.symm.trans h.1)
    refine ⟨fun u hu => ?_, ?_⟩
    · rcases List.prefix_concat_iff.mp hu with rfl | hu
      · have hless := hall inner List.prefix_rfl
        by_cases hright : c = right
        · have hnot : ¬ c = left := fun hleft => hboth ⟨hright, hleft⟩
          have hone : ¬ num = 1 := fun hone => hclose ⟨hright, hone⟩
          rw [if_neg hnot, if_pos hright] at hcounts
          omega
        · rw [if_neg hright] at hcounts
          split_ifs at hcounts <;> omega
      · exact hall u hu
    · split_ifs with hright hleft
      · have hnot : ¬ c = left := fun hleft => hboth ⟨hright, hleft⟩
        rw [if_neg hnot, if_pos hright] at hcounts
        omega
      · rw [if_pos hleft, if_neg hright] at hcounts
        omega
      · rw [if_neg hleft, if_neg hright] at hcounts
        omega

/-- What is open up to the closing bracket is enclosed by the two brackets. -/
theorem Opened.enclosed {inner : List α} (h : Opened left right 1 inner) : Enclosed left right inner := by
  unfold Opened at h
  unfold Enclosed
  split_ifs at h ⊢
  · exact h.2
  · exact ⟨h.1, by omega⟩

/-- The parts of a text are enclosed by their brackets. -/
theorem enclosed_scanSegs {num : Int} {inner : List α} (hopen : 0 < num → Opened left right num inner) (i : Nat)
    (s : List α) : ∀ part ∈ parts (scanSegs left right num inner i s), Enclosed left right part.2 := by
  have hletters : ∀ s : List α, parts (s.map .letter) = [] := fun s => by
    induction s with
    | nil => rfl
    | cons c s ih => exact ih
  induction s generalizing num inner i with
  | nil =>
    rw [scanSegs]
    split_ifs
    · rw [hletters]
      exact nofun
    · exact nofun
  | cons c s ih =>
    rw [scanSegs]
    by_cases hnum : 0 < num
    · rw [if_pos hnum]
      by_cases hclose : c = right ∧ num = 1
      · rw [if_pos hclose.1, if_pos hclose.2, parts_cons_part, List.forall_mem_cons]
        obtain ⟨-, rfl⟩ := hclose
        exact ⟨(hopen hnum).enclosed, ih (fun hzero => absurd hzero (by decide)) _⟩
      · have hnext := (hopen hnum).next hnum hclose
        split_ifs at hnext ⊢ with hright hone
        · exact absurd ⟨hright, hone⟩ hclose
        · exact ih (fun _ => hnext) _
        · exact ih (fun _ => hnext) _
        · exact ih (fun _ => hnext) _
    · rw [if_neg hnum]
      split_ifs
      · exact ih (fun _ => opened_nil) _
      · exact ih (fun hpos => absurd hpos (by omega)) _
      · exact ih (fun hpos => absurd hpos (by omega)) _
      · exact ih (fun hpos => absurd hpos hnum) _

/-- A text in quotes has no border but the quote; one in brackets has none. -/
theorem Enclosed.border {s : List α} (h : Enclosed left right s) {r : List α} (hne : r ≠ [])
    (hfront : r <+: left :: (s ++ [right])) (hback : r <:+ left :: (s ++ [right]))
    (hproper : r ≠ left :: (s ++ [right])) :
    r = [left] ∧ left = right := by
  obtain ⟨c, u, rfl⟩ := List.exists_cons_of_ne_nil hne
  obtain ⟨rfl, hu⟩ := List.cons_prefix_cons.mp hfront
  have hwithin : u <+: s := by
    rcases List.prefix_concat_iff.mp hu with rfl | hu
    · exact absurd rfl hproper
    · exact hu
  obtain ⟨v, hv⟩ := hback
  have hvne : v ≠ [] := by
    rintro rfl
    exact hproper hv
  obtain ⟨d, w, rfl⟩ := List.exists_cons_of_ne_nil hvne
  obtain ⟨rfl, hw⟩ : d = c ∧ w ++ c :: u = s ++ [right] := List.cons.inj hv
  unfold Enclosed at h
  split_ifs at h with hquotes
  · -- the border ends with the quote that closes, which stands nowhere else
    rcases List.eq_nil_or_concat' u with rfl | ⟨u', e, rfl⟩
    · exact ⟨rfl, hquotes⟩
    · have hlast := congrArg List.getLast? hw
      rw [← List.cons_append, ← List.append_assoc, List.getLast?_concat, List.getLast?_concat] at hlast
      exact absurd (hwithin.subset (Option.some.inj hlast ▸ List.mem_append_right _ List.mem_cons_self)) h
  · -- both the border and what is in front of it open one bracket more than they close
    have hrest : w <+: s := by
      have hshort : w <+: s ++ [right] := ⟨_, hw⟩
      rcases List.prefix_concat_iff.mp hshort with rfl | hw'
      · have hlength := congrArg List.length hw
        simp at hlength
      · exact hw'
    have hleft := congrArg (List.count d) hw
    have hright := congrArg (List.count right) hw
    have hfirst := h.1 u hwithin
    have hsecond := h.1 w hrest
    have hsame := h.2
    rw [List.count_append, List.count_append, List.count_cons_self, List.count_singleton,
      if_neg (by simpa using Ne.symm hquotes)] at hleft
    rw [List.count_append, List.count_append, List.count_cons_of_ne hquotes, List.count_singleton_self] at hright
    omega

end Scan

section Substitutions

variable {style : Style α} {segs : Segs α}

/-- The segments in front of the part of a number; all where there is none. -/
def upTo (i : Nat) (segs : Segs α) : Segs α :=
  segs.takeWhile fun seg => decide (seg.part?.map Prod.fst ≠ some i)

/-- No part stands, between its delimiters, in front of its own place, where those in front of it
are shown by their names. -/
def Fresh (style : Style α) (segs : Segs α) : Prop :=
  ∀ part ∈ parts segs,
    ¬ style.left :: (part.2 ++ [style.right]) <:+: style.render (fun _ => false) (upTo part.1 segs) ++ [style.left]

/-- In front of the part of a number, or nowhere if there is none, its name stands neither outside
of the parts with higher numbers nor at the front of their names. -/
def Placed (style : Style α) (n : Nat) (segs : Segs α) : Prop :=
  ∀ i < n, ¬ style.name i <:+: Style.render { style with name := fun _ => [] } (· < i) (upTo i segs) ∧
    ∀ part ∈ parts (upTo i segs), i < part.1 → ¬ style.name i <+: style.name part.1

instance : Decidable (Fresh style segs) :=
  List.decidableBAll _ _

instance (n : Nat) : Decidable (Placed style n segs) :=
  Nat.decidableBallLT n fun i _ =>
    ¬ style.name i <:+: Style.render { style with name := fun _ => [] } (· < i) (upTo i segs) ∧
      ∀ part ∈ parts (upTo i segs), i < part.1 → ¬ style.name i <+: style.name part.1

omit [DecidableEq α] in
/-- The segments up to a part are those in front of the first part of its number. -/
theorem upTo_eq {i : Nat} {s : List α} {before after : Segs α} (h : ∀ part ∈ parts before, part.1 ≠ i) :
    upTo i (before ++ .part i s :: after) = before := by
  have hall : ∀ seg ∈ before, seg.part?.map Prod.fst ≠ some i := by
    intro seg hseg
    cases seg with
    | letter c => exact nofun
    | part j s =>
      have hj := h (j, s) (List.mem_filterMap.mpr ⟨_, hseg, rfl⟩)
      exact fun heq => hj (Option.some.inj heq)
  rw [upTo, List.takeWhile_append_of_pos fun seg hseg => decide_eq_true (hall seg hseg), List.takeWhile_cons_of_neg,
    List.append_nil]
  simp [Seg.part?]

omit [DecidableEq α] in
theorem upTo_of_not_mem {i : Nat} (h : ∀ part ∈ parts segs, part.1 ≠ i) : upTo i segs = segs := by
  rw [upTo, List.takeWhile_eq_self_iff]
  intro seg hseg
  cases seg with
  | letter c => exact decide_eq_true nofun
  | part j s =>
    have hj := h (j, s) (List.mem_filterMap.mpr ⟨_, hseg, rfl⟩)
    exact decide_eq_true fun heq => hj (Option.some.inj heq)

omit [DecidableEq α] in
/-- The parts in front of the part of a number have lower ones. -/
theorem lt_of_ordered {i : Nat} {s : List α} {before after : Segs α}
    (hordered : (parts (before ++ .part i s :: after)).Pairwise (·.1 < ·.1)) : ∀ part ∈ parts before, part.1 < i := by
  rw [parts_append, parts_cons_part, List.pairwise_append] at hordered
  exact fun part hpart => hordered.2.2 part hpart _ List.mem_cons_self

/-- Where no part stands in front of its own place, each is found there. -/
theorem hides_of_fresh (hordered : (parts segs).Pairwise (·.1 < ·.1))
    (henclosed : ∀ part ∈ parts segs, Enclosed style.left style.right part.2) (h : Fresh style segs) :
    Hides style segs := by
  rintro ⟨i, s⟩ hmem
  cases hplace : style.place (i ≤ ·) i segs with
  | none => exact absurd rfl (place_eq_none hplace _ hmem)
  | some ab =>
    obtain ⟨a, b⟩ := ab
    obtain ⟨before, s', after, rfl, hbefore, rfl, rfl⟩ := place_eq_some hplace
    have hlt := lt_of_ordered hordered
    obtain rfl : s' = s := by
      have hmem' : (i, s') ∈ parts (before ++ .part i s' :: after) := by
        rw [parts_append, parts_cons_part]
        exact List.mem_append_right _ List.mem_cons_self
      have hnodup : ((parts (before ++ .part i s' :: after)).map Prod.fst).Nodup :=
        List.pairwise_map.mpr (hordered.imp fun h => h.ne)
      exact congrArg Prod.snd (List.inj_on_of_nodup_map hnodup hmem' hmem rfl)
    have hnamed : style.render (i ≤ ·) before = style.render (fun _ => false) before :=
      render_congr fun part hpart => decide_eq_false (Nat.not_le.mpr (hlt part hpart))
    have hrender : style.render (i ≤ ·) (before ++ .part i s' :: after) =
        style.render (i ≤ ·) before ++ style.left :: (s' ++ [style.right]) ++ style.render (i ≤ ·) after := by
      rw [render_append, List.append_assoc]
      refine congrArg _ ?_
      simp [Style.render, Style.show1]
    have hfresh := h (i, s') hmem
    simp only [upTo_eq hbefore, ← hnamed] at hfresh
    rw [hrender]
    refine Text.cut_of_borders (List.cons_ne_nil _ _)
      (fun hwithin => hfresh (hwithin.trans (List.prefix_append _ _).isInfix))
      (fun r hne hfront hback hproper => ?_) _
    rw [((henclosed (i, s') hmem).border hne hfront hback hproper).1]
    exact hfresh

omit [DecidableEq α] in
/-- A name that stands in a text with its parts stands outside of those shown by their names, or in
one of these names. -/
theorem isInfix_render {name : List α} (hname : name ≠ [] ∧ style.left ∉ name ∧ style.right ∉ name) {plain : Nat → Bool}
    (segs : Segs α) (front : List α) (h : name <:+: front ++ style.render plain segs) :
    name <:+: front ++ Style.render { style with name := fun _ => [] } plain segs ∨
      ∃ part ∈ parts segs, plain part.1 = false ∧ name <:+: style.name part.1 := by
  obtain ⟨hne, hleft, hright⟩ := hname
  induction segs generalizing front with
  | nil => exact .inl h
  | cons seg segs ih =>
    cases seg with
    | letter c =>
      have hmove : ∀ st : Style α,
          front ++ st.render plain (.letter c :: segs) = front ++ [c] ++ st.render plain segs :=
        fun st => by simp [Style.render, Style.show1]
      rw [hmove] at h ⊢
      exact ih _ h
    | part j s =>
      by_cases hplain : plain j = true
      · have hmove : ∀ st : Style α, front ++ st.render plain (.part j s :: segs) =
            front ++ st.left :: (s ++ [st.right]) ++ st.render plain segs := fun st => by
          simp [Style.render, Style.show1, hplain]
        rw [hmove] at h ⊢
        rcases ih _ h with h | ⟨part, hpart, hnamed⟩
        · exact .inl h
        · exact .inr ⟨part, List.mem_cons_of_mem _ hpart, hnamed⟩
      · have hmove : ∀ st : Style α, front ++ st.render plain (.part j s :: segs) =
            front ++ st.left :: (st.name j ++ st.right :: st.render plain segs) := fun st => by
          simp [Style.render, Style.show1, hplain]
        rw [hmove, Text.isInfix_append_cons_iff_of_not_mem hne hleft,
          Text.isInfix_append_cons_iff_of_not_mem hne hright] at h
        rw [hmove, Text.isInfix_append_cons_iff_of_not_mem hne hleft, List.nil_append, ← List.nil_append (_ :: _),
          Text.isInfix_append_cons_iff_of_not_mem hne hright]
        rcases h with h | h | h
        · exact .inl (.inl h)
        · exact .inr ⟨(j, s), List.mem_cons_self, by simpa using hplain, h⟩
        · rcases ih [] h with h | ⟨part, hpart, hnamed⟩
          · exact .inl (.inr (.inr h))
          · exact .inr ⟨part, List.mem_cons_of_mem _ hpart, hnamed⟩

/-- Where the names stand just at their places, each is found there. -/
theorem restores_of_placed {n : Nat} (hordered : (parts segs).Pairwise (·.1 < ·.1))
    (hname : ∀ i, style.name i ≠ [] ∧ style.left ∉ style.name i ∧ style.right ∉ style.name i)
    (hfront : ∀ i j, style.name i <:+: style.name j → style.name i <+: style.name j) (h : Placed style n segs) :
    Restores style n segs := by
  intro i hi
  obtain ⟨habsent, hlonger⟩ := h i hi
  obtain ⟨hne, hleft, hright⟩ := hname i
  have hnot : ∀ segs' : Segs α, upTo i segs = segs' → (∀ part ∈ parts segs', part.1 ≠ i) →
      ¬ style.name i <:+: style.render (· < i) segs' := by
    rintro segs' rfl hother hwithin
    rcases isInfix_render (hname i) _ [] hwithin with hwithin | ⟨part, hpart, hhigh, hwithin⟩
    · exact habsent hwithin
    · have hle := Nat.le_of_not_lt (of_decide_eq_false hhigh)
      exact hlonger part hpart (Nat.lt_of_le_of_ne hle (Ne.symm (hother part hpart))) (hfront i part.1 hwithin)
  cases hplace : style.place (· < i) i segs with
  | none =>
    have hother := place_eq_none hplace
    exact Text.cut_eq_none_iff.mpr (hnot segs (upTo_of_not_mem hother) hother)
  | some ab =>
    obtain ⟨a, b⟩ := ab
    obtain ⟨before, s, after, rfl, hbefore, rfl, rfl⟩ := place_eq_some hplace
    have hwhole : style.render (· < i) (before ++ .part i s :: after) =
        style.render (· < i) before ++ [style.left] ++ style.name i ++ style.right :: style.render (· < i) after := by
      rw [render_append]
      simp [Style.render, Style.show1]
    rw [hwhole, Option.map_some]
    have hends : ∀ p, p ≠ [] → p <:+ style.render (· < i) before ++ [style.left] → style.left ∈ p := by
      rintro p hp ⟨front, hsuffix⟩
      have hend := congrArg List.getLast? hsuffix
      rw [List.getLast?_append_of_ne_nil _ hp, List.getLast?_concat] at hend
      exact List.mem_of_getLast? hend
    refine Text.cut_closed hne (fun p hp hsuffix hbegins => hleft (hbegins.subset (hends p hp hsuffix))) ?_ _
    rw [Text.cut_eq_none_iff, List.infix_concat_iff, not_or]
    exact ⟨fun hsuffix => hleft (hends _ hne hsuffix), hnot before (upTo_eq hbefore) hbefore⟩

end Substitutions

end Placeholder

import Dm20.Lib.Brackets
import Dm20.TupleLib.StringUtil

namespace IS.StringUtil

open Placeholder

/-- A text without the brackets goes to the open group as it is. -/
theorem foldl_next_of_not_mem {left right : Char} {s : Str} (hleft : left ∉ s) (hright : right ∉ s) (st : BracketScan) :
    s.foldl (BracketScan.next left right) st = if 0 < st.num then { st with inner := st.inner ++ s } else st := by
  induction s generalizing st with
  | nil => simp
  | cons c s ih =>
    rw [List.mem_cons, not_or] at hleft hright
    rw [List.foldl_cons, ih hleft.2 hright.2, BracketScan.next, if_neg (Ne.symm hleft.1), if_neg (Ne.symm hright.1)]
    by_cases hopen : 0 < st.num
    · simp [hopen]
    · simp [hopen]

section Steps

variable {left right : Char} {st : BracketScan}

/-- The bracket that closes an open group. -/
theorem next_right (hopen : 0 < st.num) : BracketScan.next left right st right =
    if st.num = 1 then { num := 0, inner := [], ret := st.ret ++ [st.inner] }
    else { st with num := st.num - 1, inner := st.inner ++ [right] } := by
  obtain ⟨num, inner, ret⟩ := st
  by_cases hone : num = 1
  · subst hone
    by_cases hquotes : right = left
    · simp [BracketScan.next, hquotes]
    · simp [BracketScan.next, hquotes]
  · have hpos : 0 < num := hopen
    have hmore : 0 < num - 1 := by omega
    have hne : ¬ num - 1 = 0 := by omega
    by_cases hquotes : right = left
    · simp only [BracketScan.next, hquotes, if_true, hpos, and_self, hne, if_false, hmore, hone]
    · simp only [BracketScan.next, hquotes, if_true, hne, if_false, hmore, hone]

/-- Another bracket that opens within a group. -/
theorem next_left (hopen : 0 < st.num) (hne : left ≠ right) : BracketScan.next left right st left =
    { st with num := st.num + 1, inner := st.inner ++ [left] } := by
  unfold BracketScan.next
  rw [if_pos rfl, if_neg fun h => hne h.2, if_neg (by omega)]
  exact if_pos (show 0 < st.num + 1 by omega)

/-- A bracket that opens outside of the groups. -/
theorem next_left_outside (hclosed : ¬ 0 < st.num) :
    BracketScan.next left right st left = { st with num := st.num + 1 } := by
  unfold BracketScan.next
  rw [if_pos rfl, if_neg fun h => hclosed h.1]
  split_ifs with hone
  · rfl
  · exact if_neg (show ¬ 0 < st.num + 1 by omega)

/-- A bracket that closes nothing. -/
theorem next_right_outside (hclosed : ¬ 0 < st.num) (hne : right ≠ left) :
    BracketScan.next left right st right = { st with num := st.num - 1 } := by
  have hpos : ¬ st.num - 1 = 0 := by omega
  have hmore : ¬ 0 < st.num - 1 := by omega
  simp only [BracketScan.next, if_neg hne, if_true, if_neg hpos, if_neg hmore]

end Steps

section Symbols

variable {β : Type} [DecidableEq β] {image : β → Str} {letter : Char → β} {left right : Char}

/-- The scan of a text of symbols, of which only the brackets are shown with brackets, finds the
texts of its groups. -/
theorem foldl_next_flatMap (hletter : ∀ c, image (letter c) = [c])
    (hplain : ∀ b, b ≠ letter left → b ≠ letter right → left ∉ image b ∧ right ∉ image b) (xs : List β) (num : Int)
    (inner : List β) (i : Nat) (ret : List Str) (hinner : ¬ 0 < num → inner = []) :
    ((xs.flatMap image).foldl (BracketScan.next left right) { num, inner := inner.flatMap image, ret }).ret =
      ret ++ (parts (scanSegs (letter left) (letter right) num inner i xs)).map fun part => part.2.flatMap image := by
  induction xs generalizing num inner i ret with
  | nil =>
    have hnone : ∀ s : List β, parts (s.map .letter) = [] := fun s => by
      induction s with
      | nil => rfl
      | cons c s ih => exact ih
    rw [scanSegs]
    split_ifs
    · rw [hnone]
      simp
    · simp [parts]
  | cons b xs ih =>
    have hskip : ∀ segs : Segs β, parts (.letter b :: segs) = parts segs := fun _ => rfl
    have hmore : inner.flatMap image ++ image b = (inner ++ [b]).flatMap image := by
      rw [List.flatMap_append, List.flatMap_singleton]
    rw [List.flatMap_cons, List.foldl_append, scanSegs]
    by_cases hnum : 0 < num
    · rw [if_pos hnum]
      by_cases hright : b = letter right
      · have himage : image b = [right] := hright ▸ hletter right
        rw [if_pos hright, himage, List.foldl_cons, List.foldl_nil, next_right hnum]
        by_cases hone : num = 1
        · rw [if_pos hone, if_pos hone, parts_cons_part, List.map_cons]
          refine (ih 0 [] (i + 1) _ fun _ => rfl).trans ?_
          rw [List.append_assoc, List.singleton_append]
        · rw [if_neg hone, if_neg hone]
          simp only [← himage, hmore]
          exact ih (num - 1) (inner ++ [b]) i _ fun h => absurd (by omega) h
      · rw [if_neg hright]
        by_cases hleft : b = letter left
        · have himage : image b = [left] := hleft ▸ hletter left
          have hne : left ≠ right := fun h => hright (hleft.trans (congrArg letter h))
          rw [if_pos hleft, himage, List.foldl_cons, List.foldl_nil, next_left hnum hne]
          simp only [← himage, hmore]
          exact ih (num + 1) (inner ++ [b]) i _ fun h => absurd (by omega) h
        · obtain ⟨hnoleft, hnoright⟩ := hplain b hleft hright
          rw [if_neg hleft, foldl_next_of_not_mem hnoleft hnoright, if_pos hnum]
          simp only [hmore]
          exact ih num (inner ++ [b]) i _ fun h => absurd hnum h
    · obtain rfl := hinner hnum
      rw [if_neg hnum]
      by_cases hleft : b = letter left
      · have himage : image b = [left] := hleft ▸ hletter left
        rw [if_pos hleft, himage, List.foldl_cons, List.foldl_nil, next_left_outside hnum]
        split_ifs with hzero
        · rw [hzero]
          exact ih 1 [] i _ fun _ => rfl
        · rw [hskip]
          exact ih (num + 1) [] i _ fun _ => rfl
      · rw [if_neg hleft]
        by_cases hright : b = letter right
        · have himage : image b = [right] := hright ▸ hletter right
          have hne : right ≠ left := fun h => hleft (hright.trans (congrArg letter h))
          rw [if_pos hright, himage, List.foldl_cons, List.foldl_nil, next_right_outside hnum hne, hskip]
          exact ih (num - 1) [] i _ fun _ => rfl
        · obtain ⟨hnoleft, hnoright⟩ := hplain b hleft hright
          rw [if_neg hright, foldl_next_of_not_mem hnoleft hnoright, if_neg hnum, hskip]
          exact ih num [] i _ fun _ => rfl

theorem getStringInBracketFirst_flatMap (hletter : ∀ c, image (letter c) = [c])
    (hplain : ∀ b, b ≠ letter left → b ≠ letter right → left ∉ image b ∧ right ∉ image b) (xs : List β) :
    getStringInBracketFirst (xs.flatMap image) left right =
      (parts (shown image (groups (letter left) (letter right) xs))).map Prod.snd := by
  rw [parts_shown, List.map_map]
  exact foldl_next_flatMap hletter hplain xs 0 [] 0 [] fun _ => rfl

end Symbols

/-- The scan of a text finds the texts of its groups. -/
theorem getStringInBracketFirst_eq (target : Str) (left right : Char) :
    getStringInBracketFirst target left right = (parts (groups left right target)).map Prod.snd := by
  have hself : ∀ s : Str, s.flatMap (fun c => [c]) = s := fun s => List.flatMap_singleton' s
  have hfound := @getStringInBracketFirst_flatMap Char _ (fun c => [c]) id left right (fun _ => rfl)
    (fun c hleft hright => by simpa using ⟨Ne.symm hleft, Ne.symm hright⟩) target
  rw [hself, parts_shown, List.map_map] at hfound
  rw [hfound]
  exact List.map_congr_left fun part _ => hself part.2

end IS.StringUtil

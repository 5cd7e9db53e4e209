import Mathlib.Data.List.Nodup
import Dm20.Lib.Text

/-! Texts with numbered parts between delimiters, each shown as it is or by a name,
and the substitutions that take one form to the other. -/

namespace Placeholder

variable {α : Type}

/-- A letter of a text, or a part with its number. -/
inductive Seg (α : Type) where
  | letter (a : α)
  | part (i : Nat) (s : List α)
deriving DecidableEq

abbrev Segs (α : Type) := List (Seg α)

/-- The delimiters of the parts and the names that stand for them. -/
structure Style (α : Type) where
  left : α
  right : α
  name : Nat → List α

namespace Style

variable (style : Style α)

/-- A segment, a part being shown as it is if its number is among the given ones. -/
def show1 (plain : Nat → Bool) : Seg α → List α
  | .letter c => [c]
  | .part i s => style.left :: ((if plain i then s else style.name i) ++ [style.right])

def render (plain : Nat → Bool) (segs : Segs α) : List α :=
  segs.flatMap (style.show1 plain)

/-- The texts before and behind the part of a number. -/
def place (plain : Nat → Bool) (i : Nat) : Segs α → Option (List α × List α)
  | [] => none
  | .letter c :: segs => (place plain i segs).map fun ab => (c :: ab.1, ab.2)
  | .part j s :: segs =>
    if j = i then some ([], style.render plain segs)
    else (place plain i segs).map fun ab => (style.show1 plain (.part j s) ++ ab.1, ab.2)

end Style

def Seg.part? : Seg α → Option (Nat × List α)
  | .letter _ => none
  | .part i s => some (i, s)

/-- The parts with their numbers. -/
def parts (segs : Segs α) : List (Nat × List α) :=
  segs.filterMap Seg.part?

variable {style : Style α} {plain plain' : Nat → Bool} {segs : Segs α}

theorem parts_cons_part (i : Nat) (s : List α) (segs : Segs α) : parts (.part i s :: segs) = (i, s) :: parts segs :=
  rfl

/-- The parts of two texts in a row are those of both. -/
theorem parts_append (segs segs' : Segs α) : parts (segs ++ segs') = parts segs ++ parts segs' :=
  List.filterMap_append

/-- Two texts in a row are rendered one after the other. -/
theorem render_append (segs segs' : Segs α) :
    style.render plain (segs ++ segs') = style.render plain segs ++ style.render plain segs' :=
  List.flatMap_append

/-- Which numbers are rendered as they are matters at the parts of the text only. -/
theorem render_congr (h : ∀ part ∈ parts segs, plain part.1 = plain' part.1) :
    style.render plain segs = style.render plain' segs := by
  induction segs with
  | nil => rfl
  | cons seg segs ih =>
    cases seg with
    | letter c => exact congrArg (c :: ·) (ih h)
    | part i s =>
      rw [parts_cons_part, List.forall_mem_cons] at h
      have hshow : style.show1 plain (.part i s) = style.show1 plain' (.part i s) := by
        rw [Style.show1, Style.show1, h.1]
      rw [Style.render, Style.render, List.flatMap_cons, List.flatMap_cons, hshow]
      exact congrArg _ (ih h.2)

/-- Where the part of a number stands. -/
theorem place_eq_some {i : Nat} {a b : List α} (h : style.place plain i segs = some (a, b)) :
    ∃ before s after, segs = before ++ .part i s :: after ∧ (∀ part ∈ parts before, part.1 ≠ i) ∧
      a = style.render plain before ∧ b = style.render plain after := by
  induction segs generalizing a b with
  | nil => cases h
  | cons seg segs ih =>
    cases seg with
    | letter c =>
      rw [Style.place, Option.map_eq_some_iff] at h
      obtain ⟨⟨a', b'⟩, hplace, heq⟩ := h
      obtain ⟨rfl, rfl⟩ := Prod.mk.inj heq
      obtain ⟨before, s, after, rfl, hbefore, rfl, rfl⟩ := ih hplace
      exact ⟨.letter c :: before, s, after, rfl, hbefore, rfl, rfl⟩
    | part j s =>
      rw [Style.place] at h
      split at h
      · next hj =>
        subst hj
        obtain ⟨rfl, rfl⟩ := Prod.mk.inj (Option.some.inj h)
        exact ⟨[], s, segs, rfl, nofun, rfl, rfl⟩
      · next hj =>
        rw [Option.map_eq_some_iff] at h
        obtain ⟨⟨a', b'⟩, hplace, heq⟩ := h
        obtain ⟨rfl, rfl⟩ := Prod.mk.inj heq
        obtain ⟨before, s', after, rfl, hbefore, rfl, rfl⟩ := ih hplace
        refine ⟨.part j s :: before, s', after, rfl, ?_, rfl, rfl⟩
        rw [parts_cons_part, List.forall_mem_cons]
        exact ⟨hj, hbefore⟩

/-- A part that is shown in another way changes the text at its own place only. -/
theorem render_of_place (hnodup : ((parts segs).map Prod.fst).Nodup) {i : Nat} {a b : List α}
    (hplace : style.place plain i segs = some (a, b)) (hother : ∀ j, j ≠ i → plain j = plain' j) :
    ∃ s, (i, s) ∈ parts segs ∧ style.render plain' segs = a ++ (style.show1 plain' (.part i s) ++ b) := by
  obtain ⟨before, s, after, rfl, hbefore, rfl, rfl⟩ := place_eq_some hplace
  have hafter : ∀ part ∈ parts after, part.1 ≠ i := by
    rw [parts_append, parts_cons_part, List.map_append, List.map_cons, List.nodup_append, List.nodup_cons] at hnodup
    intro part hpart heq
    exact hnodup.2.1.1 (List.mem_map.mpr ⟨part, hpart, heq⟩)
  refine ⟨s, ?_, ?_⟩
  · rw [parts_append, parts_cons_part]
    exact List.mem_append_right _ List.mem_cons_self
  · rw [render_append, render_congr fun part hpart => hother part.1 (hbefore part hpart),
      render_congr fun part hpart => hother part.1 (hafter part hpart)]
    rfl

/-- A part that has no place is none of the parts. -/
theorem place_eq_none {i : Nat} (h : style.place plain i segs = none) : ∀ part ∈ parts segs, part.1 ≠ i := by
  induction segs with
  | nil => exact nofun
  | cons seg segs ih =>
    cases seg with
    | letter c =>
      rw [Style.place, Option.map_eq_none_iff] at h
      exact ih h
    | part j s =>
      rw [Style.place] at h
      split at h
      · cases h
      · next hj =>
        rw [Option.map_eq_none_iff] at h
        rw [parts_cons_part, List.forall_mem_cons]
        exact ⟨hj, ih h⟩

section Shown

variable {β : Type}

/-- The style for symbols that stand for letters. -/
def Style.map (letter : α → β) (style : Style α) : Style β where
  left := letter style.left
  right := letter style.right
  name i := (style.name i).map letter

/-- The segments of a text of symbols, each of which is shown by a text. -/
def shown (image : β → List α) (segs : Segs β) : Segs α :=
  segs.flatMap fun
    | .letter b => (image b).map .letter
    | .part i s => [.part i (s.flatMap image)]

variable {image : β → List α} {letter : α → β}

theorem flatMap_letters (hletter : ∀ a, image (letter a) = [a]) (s : List α) :
    (s.map letter).flatMap image = s := by
  rw [List.flatMap_map]
  simp only [hletter]
  exact List.flatMap_singleton' s

/-- Two texts in a row are shown one after the other. -/
theorem shown_append (image : β → List α) (segs segs' : Segs β) :
    shown image (segs ++ segs') = shown image segs ++ shown image segs' :=
  List.flatMap_append

/-- The parts are shown with their numbers. -/
theorem parts_shown (image : β → List α) (segs : Segs β) :
    parts (shown image segs) = (parts segs).map fun part => (part.1, part.2.flatMap image) := by
  induction segs with
  | nil => rfl
  | cons seg segs ih =>
    have hcons : shown image (seg :: segs) = shown image [seg] ++ shown image segs := shown_append image [seg] segs
    rw [hcons, parts_append, ih]
    cases seg with
    | letter b =>
      have hnone : parts (shown image [.letter b]) = [] := by
        simp [shown, parts, Seg.part?]
      rw [hnone]
      rfl
    | part i s => rfl

/-- A text of symbols with its parts shown or named is shown as the text of letters is. -/
theorem render_shown (hletter : ∀ a, image (letter a) = [a]) (style : Style α) (plain : Nat → Bool) (segs : Segs β) :
    ((style.map letter).render plain segs).flatMap image = style.render plain (shown image segs) := by
  induction segs with
  | nil => rfl
  | cons seg segs ih =>
    have hseg : ((style.map letter).show1 plain seg).flatMap image = style.render plain (shown image [seg]) := by
      cases seg with
      | letter b =>
        simp only [Style.show1, Style.render, shown, List.flatMap_cons, List.flatMap_nil, List.append_nil,
          List.flatMap_map]
        exact (List.flatMap_singleton' _).symm
      | part i s =>
        simp only [Style.show1, Style.render, shown, Style.map, List.flatMap_cons, List.flatMap_nil, List.append_nil,
          List.flatMap_append, hletter]
        split
        · rfl
        · rw [flatMap_letters hletter]
          rfl
    have hcons : shown image (seg :: segs) = shown image [seg] ++ shown image segs := shown_append image [seg] segs
    rw [hcons, render_append, ← ih, ← hseg, Style.render, List.flatMap_cons, List.flatMap_append]
    rfl

end Shown

variable [DecidableEq α]

/-- The first occurrence of a text replaced. -/
def replaceFirst (s before after : List α) : List α :=
  match Text.cut before s with
  | none => s
  | some (a, b) => a ++ after ++ b

/-- While the parts are replaced by their names from the lowest number on, none of
them is found, with its delimiters, before its own place. -/
def Hides (style : Style α) (segs : Segs α) : Prop :=
  ∀ part ∈ parts segs, Text.cut (style.left :: (part.2 ++ [style.right])) (style.render (part.1 ≤ ·) segs) =
    style.place (part.1 ≤ ·) part.1 segs

/-- While the names of a range are replaced by their parts from the lowest number on,
each of them is found just where it stands for its part. -/
def Restores (style : Style α) (n : Nat) (segs : Segs α) : Prop :=
  ∀ i < n, Text.cut (style.name i) (style.render (· < i) segs) =
    (style.place (· < i) i segs).map fun ab => (ab.1 ++ [style.left], style.right :: ab.2)

instance : Decidable (Hides style segs) :=
  List.decidableBAll _ _

instance (n : Nat) : Decidable (Restores style n segs) :=
  Nat.decidableBallLT n fun i _ => Text.cut (style.name i) (style.render (· < i) segs) =
    (style.place (· < i) i segs).map fun ab => (ab.1 ++ [style.left], style.right :: ab.2)

/-- One part replaced by its name. -/
theorem hide_one (hnodup : ((parts segs).map Prod.fst).Nodup) {i : Nat} {s : List α} (hmem : (i, s) ∈ parts segs)
    (hcut : Text.cut (style.left :: (s ++ [style.right])) (style.render (i ≤ ·) segs) = style.place (i ≤ ·) i segs) :
    replaceFirst (style.render (i ≤ ·) segs) (style.left :: (s ++ [style.right]))
      (style.left :: (style.name i ++ [style.right])) = style.render (i + 1 ≤ ·) segs := by
  cases hplace : style.place (i ≤ ·) i segs with
  | none => exact absurd rfl (place_eq_none hplace _ hmem)
  | some ab =>
    obtain ⟨a, b⟩ := ab
    have hother : ∀ j : Nat, j ≠ i → decide (i ≤ j) = decide (i + 1 ≤ j) := fun j hj => by
      simp only [decide_eq_decide]
      omega
    obtain ⟨s', -, hrender⟩ := render_of_place hnodup hplace hother
    simp only [replaceFirst, hcut, hplace, hrender]
    have hnamed : ¬ i + 1 ≤ i := Nat.not_succ_le_self i
    simp [Style.show1, hnamed]

/-- One name replaced by its part, or none where the part is not there. -/
theorem restore_one (hnodup : ((parts segs).map Prod.fst).Nodup) {i : Nat} {s : List α}
    (hsame : ∀ part ∈ parts segs, part.1 = i → part.2 = s)
    (hcut : Text.cut (style.name i) (style.render (· < i) segs) =
      (style.place (· < i) i segs).map fun ab => (ab.1 ++ [style.left], style.right :: ab.2)) :
    replaceFirst (style.render (· < i) segs) (style.name i) s = style.render (· < i + 1) segs := by
  have hother : ∀ j : Nat, j ≠ i → decide (j < i) = decide (j < i + 1) := fun j hj => by
    simp only [decide_eq_decide]
    omega
  cases hplace : style.place (· < i) i segs with
  | none =>
    simp only [replaceFirst, hcut, hplace, Option.map_none]
    exact render_congr fun part hpart => hother part.1 (place_eq_none hplace part hpart)
  | some ab =>
    obtain ⟨a, b⟩ := ab
    obtain ⟨s', hmem, hrender⟩ := render_of_place hnodup hplace hother
    obtain rfl : s' = s := hsame (i, s') hmem rfl
    simp only [replaceFirst, hcut, hplace, hrender, Option.map_some]
    simp [Style.show1]

/-- All parts replaced by their names. -/
theorem hide_all (hnumbers : (parts segs).map Prod.fst = List.range (parts segs).length) (h : Hides style segs) :
    (parts segs).foldl (fun buf part => replaceFirst buf (style.left :: (part.2 ++ [style.right]))
      (style.left :: (style.name part.1 ++ [style.right]))) (style.render (fun _ => true) segs) =
        style.render (fun _ => false) segs := by
  have hnodup : ((parts segs).map Prod.fst).Nodup := by
    rw [hnumbers]
    exact List.nodup_range
  have hrun : ∀ (done rest : List (Nat × List α)), parts segs = done ++ rest →
      rest.foldl (fun buf part => replaceFirst buf (style.left :: (part.2 ++ [style.right]))
        (style.left :: (style.name part.1 ++ [style.right]))) (style.render (done.length ≤ ·) segs) =
          style.render ((parts segs).length ≤ ·) segs := by
    intro done rest
    induction rest generalizing done with
    | nil =>
      intro hparts
      rw [hparts, List.append_nil]
      rfl
    | cons part rest ih =>
      intro hparts
      have hmem : part ∈ parts segs := by
        rw [hparts]
        simp
      have hnumber : part.1 = done.length := by
        have hget := congrArg (fun l : List Nat => l[done.length]?) hnumbers
        rw [hparts] at hget
        simpa using hget
      have hstep := hide_one hnodup hmem (h part hmem)
      rw [hnumber] at hstep
      rw [List.foldl_cons, hnumber, hstep]
      have hnext := ih (done ++ [part]) (by rw [hparts, List.append_assoc, List.singleton_append])
      rwa [List.length_append, List.length_singleton] at hnext
  have hall := hrun [] (parts segs) rfl
  have hfirst : style.render (([] : List (Nat × List α)).length ≤ ·) segs = style.render (fun _ => true) segs :=
    render_congr fun part _ => by simp
  have hlast : style.render ((parts segs).length ≤ ·) segs = style.render (fun _ => false) segs := by
    refine render_congr fun part hpart => ?_
    have hlt := List.mem_range.mp (hnumbers ▸ List.mem_map_of_mem hpart)
    simpa using hlt
  rw [hfirst, hlast] at hall
  exact hall

/-- The names of some of the parts replaced by them. -/
theorem restore_all {whole : List (Nat × List α)} (hnumbers : whole.map Prod.fst = List.range whole.length)
    (hsub : (parts segs).Sublist whole) (h : Restores style whole.length segs) :
    whole.foldl (fun buf part => replaceFirst buf (style.name part.1) part.2) (style.render (fun _ => false) segs) =
      style.render (fun _ => true) segs := by
  have hwhole : (whole.map Prod.fst).Nodup := by
    rw [hnumbers]
    exact List.nodup_range
  have hnodup : ((parts segs).map Prod.fst).Nodup := hwhole.sublist (hsub.map _)
  have hrun : ∀ (done rest : List (Nat × List α)), whole = done ++ rest →
      rest.foldl (fun buf part => replaceFirst buf (style.name part.1) part.2) (style.render (· < done.length) segs) =
        style.render (· < whole.length) segs := by
    intro done rest
    induction rest generalizing done with
    | nil =>
      intro hparts
      rw [hparts, List.append_nil]
      rfl
    | cons part rest ih =>
      intro hparts
      have hmem : part ∈ whole := by
        rw [hparts]
        simp
      have hlength : done.length < whole.length := by
        rw [hparts]
        simp
      have hnumber : part.1 = done.length := by
        have hget := congrArg (fun l : List Nat => l[done.length]?) hnumbers
        rw [hparts] at hget
        simpa using hget
      have hsame : ∀ part' ∈ parts segs, part'.1 = done.length → part'.2 = part.2 := by
        intro part' hpart' heq
        have hboth := List.inj_on_of_nodup_map hwhole (hsub.subset hpart') hmem (heq.trans hnumber.symm)
        rw [hboth]
      have hstep := restore_one hnodup hsame (h done.length hlength)
      rw [List.foldl_cons, hnumber, hstep]
      have hnext := ih (done ++ [part]) (by rw [hparts, List.append_assoc, List.singleton_append])
      rwa [List.length_append, List.length_singleton] at hnext
  have hall := hrun [] whole rfl
  have hfirst : style.render (· < ([] : List (Nat × List α)).length) segs = style.render (fun _ => false) segs :=
    render_congr fun part _ => by simp
  have hlast : style.render (· < whole.length) segs = style.render (fun _ => true) segs := by
    refine render_congr fun part hpart => ?_
    have hlt := List.mem_range.mp (hnumbers ▸ List.mem_map_of_mem (hsub.subset hpart))
    simpa using hlt
  rw [hfirst, hlast] at hall
  exact hall

end Placeholder

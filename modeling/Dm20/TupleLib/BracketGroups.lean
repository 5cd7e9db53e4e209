import Dm20.Lib.Separator
import Dm20.TupleLib.BracketScan
import Dm20.TupleLib.Number

namespace IS.StringUtil

open Text Placeholder

/-- Where a character stands: in how many brackets, and in a literal of which quotes. -/
structure Nesting where
  depth : Nat
  quote : Option Char
deriving DecidableEq

namespace Nesting

def outside : Nesting :=
  { depth := 0, quote := none }

/-- The place behind a character; none behind a bracket that closes nothing. In a
literal only its own quote counts. -/
def next (n : Nesting) (c : Char) : Option Nesting :=
  match n.quote with
  | some q => some (if c = q then { n with quote := none } else n)
  | none =>
    if c = '\'' ∨ c = '"' then some { n with quote := some c }
    else if c = '(' then some { n with depth := n.depth + 1 }
    else if c = ')' then if n.depth = 0 then none else some { n with depth := n.depth - 1 }
    else some n

/-- The characters of a text, each marked if it is outside of brackets and literals,
and the place behind the text. -/
def marks (n : Nesting) : Str → Option (List (Char × Bool) × Nesting)
  | [] => some ([], n)
  | c :: s =>
    (n.next c).bind fun n' =>
      (n'.marks s).map fun r => ((c, decide (n = outside ∧ n' = outside)) :: r.1, r.2)

end Nesting

/-- The marked characters of a text whose brackets and quotes are balanced. -/
def marked (target : Str) : Option (List (Char × Bool)) :=
  match Nesting.outside.marks target with
  | some (marks, n) => if n = Nesting.outside then some marks else none
  | none => none

def Balanced (target : Str) : Prop :=
  (marked target).isSome = true

instance (target : Str) : Decidable (Balanced target) :=
  inferInstanceAs (Decidable (_ = true))

/-- The parts of a text between the separators that stand outside of its brackets and
literals; the empty text has none. -/
def topLevelParts (target sep : Str) : Option (List Str) :=
  (marked target).map fun marks =>
    if target = [] then []
    else (pieces (sep.map fun c => (c, true)) target.length marks).map fun piece => piece.map Prod.fst

/-- The parts joined with the separator are the text, and meet at the separators that
stand outside of its brackets and literals. -/
def SplitsAtTopLevel (target sep : Str) (parts : List Str) : Prop :=
  sep.intercalate parts = target ∧ topLevelParts target sep = some parts

instance (target sep : Str) (parts : List Str) : Decidable (SplitsAtTopLevel target sep parts) :=
  inferInstanceAs (Decidable (_ ∧ _))

/-- A character, or the text in round brackets with its number. -/
abbrev RoundSeg := Seg Char

/-- One of these, or a literal in single quotes with its number. -/
abbrev SingleSeg := Seg RoundSeg

/-- One of these, or a literal in double quotes with its number. -/
abbrev Item := Seg SingleSeg

def styleOf (left right : Char) (tag : Str) : Style Char where
  left := left
  right := right
  name i := tag ++ to_string_nat i

abbrev round : Style Char := styleOf '(' ')' "replaceK".toList
abbrev single : Style Char := styleOf '\'' '\'' "replaceS".toList
abbrev double : Style Char := styleOf '"' '"' "replaceD".toList

/-- What a pass leaves of the segments the pass before has hidden. -/
def roundHidden (seg : RoundSeg) : Str :=
  round.show1 (fun _ => false) seg

def singleHidden (seg : SingleSeg) : Str :=
  ((single.map .letter).show1 (fun _ => false) seg).flatMap roundHidden

def letter (c : Char) : SingleSeg :=
  .letter (.letter c)

def doubleHidden (item : Item) : Str :=
  ((double.map letter).show1 (fun _ => false) item).flatMap singleHidden

/-- The items of a text: its groups in round brackets, whatever stands in literals; in what is
left the literals in single quotes; and in what is left of it those in double quotes. -/
def itemsOf (target : Str) : List Item :=
  groups (letter '"') (letter '"') (groups (.letter '\'') (.letter '\'') (groups '(' ')' target))

/-- The items with their double quotes opened. -/
def opened (items : List Item) : List SingleSeg :=
  (double.map letter).render (fun _ => true) items

/-- The text with its round brackets as parts, and what is left of it for the later passes, with
the literals in single and in double quotes as parts. -/
def roundLayer (items : List Item) : Segs Char :=
  (single.map .letter).render (fun _ => true) (opened items)

def singleLayer (items : List Item) : Segs Char :=
  shown roundHidden (opened items)

def doubleLayer (items : List Item) : Segs Char :=
  shown singleHidden items

def text (items : List Item) : Str :=
  round.render (fun _ => true) (roundLayer items)

def hiddenText (items : List Item) : Str :=
  double.render (fun _ => false) (doubleLayer items)

/-- The delimiters of the groups. -/
def isDelimiter (c : Char) : Bool :=
  ['(', ')', '\'', '"'].contains c

def isLetter : Item → Bool
  | .letter (.letter (.letter _)) => true
  | _ => false

/-- An item with its characters marked; those of a group are not outside of it. -/
def markedItem : Item → List (Char × Bool)
  | .letter (.letter (.letter c)) => [(c, true)]
  | item => (text [item]).map fun c => (c, false)

/-- The parts of the items between the separators. -/
def slices (sep : Str) (items : List Item) : List (List Item) :=
  pieces (sep.map fun c => .letter (letter c)) items.length items

/-- A pass finds the parts of a layer and hides each of them in its place. -/
structure Found (style : Style Char) (segs : Segs Char) : Prop where
  texts : getStringInBracketFirst (style.render (fun _ => true) segs) style.left style.right =
    (parts segs).map Prod.snd
  numbers : (parts segs).map Prod.fst = List.range (parts segs).length
  hides : Hides style segs

/-- The separator is not empty, and what the passes leave of the text has it only where the
text has it: it has no delimiter and is in no hidden group, or it is not there at all. -/
def Fits (sep : Str) (items : List Item) : Prop :=
  sep ≠ [] ∧ ((∀ c ∈ sep, isDelimiter c = false) ∧
    (∀ item ∈ items, isLetter item = false → contain (doubleHidden item) sep = false) ∨
      contain (hiddenText items) sep = false)

instance (sep : Str) (items : List Item) : Decidable (Fits sep items) :=
  haveI : Decidable (∀ c ∈ sep, isDelimiter c = false) := List.decidableBAll _ sep
  inferInstanceAs (Decidable (_ ∧ _))

/-- The places at which a separator begins outside of brackets and literals. -/
def separators (sep : Str) (marks : List (Char × Bool)) : List Nat :=
  (List.range marks.length).filter fun k => (sep.map fun c => (c, true)).isPrefixOf (marks.drop k)

/-- The condition on a text and a separator. No group, with its delimiters, stands in front of its
own place, where those in front of it have been named; in the parts between the separators the name
of a group stands not in front of the group, nor at all in a part without the group (outside of
those with higher numbers, or at the front of the name of one). The separator can be told from the
names, and stands outside of brackets and literals where it stands outside of the groups. -/
structure Unconfused (target sep : Str) : Prop where
  fresh : Fresh round (roundLayer (itemsOf target)) ∧ Fresh single (singleLayer (itemsOf target)) ∧
    Fresh double (doubleLayer (itemsOf target))
  placed : ∀ slice ∈ slices sep (itemsOf target),
    Placed double (parts (doubleLayer (itemsOf target))).length (doubleLayer slice) ∧
    Placed single (parts (singleLayer (itemsOf target))).length (singleLayer slice) ∧
    Placed round (parts (roundLayer (itemsOf target))).length (roundLayer slice)
  fits : Fits sep (itemsOf target)
  separated : (marked target).map (separators sep) = some (separators sep ((itemsOf target).flatMap markedItem))

instance (target sep : Str) : Decidable (Unconfused target sep) :=
  decidable_of_iff (_ ∧ _ ∧ _ ∧ _)
    ⟨fun h => ⟨h.1, h.2.1, h.2.2.1, h.2.2.2⟩, fun h => ⟨h.fresh, h.placed, h.fits, h.separated⟩⟩

variable {items : List Item} {target sep : Str}

private theorem roundHidden_letter (c : Char) : roundHidden (.letter c) = [c] :=
  rfl

private theorem singleHidden_letter (c : Char) : singleHidden (letter c) = [c] :=
  rfl

private theorem hiddenText_eq (items : List Item) : hiddenText items = items.flatMap doubleHidden := by
  rw [hiddenText, doubleLayer, ← render_shown singleHidden_letter, Style.render, List.flatMap_assoc]
  rfl

private theorem render_doubleLayer (items : List Item) :
    double.render (fun _ => true) (doubleLayer items) = single.render (fun _ => false) (singleLayer items) := by
  have hsingle := render_shown roundHidden_letter single (fun _ => false) (opened items)
  rw [Style.render, List.flatMap_assoc] at hsingle
  rw [doubleLayer, singleLayer, ← render_shown singleHidden_letter, ← hsingle]
  rfl

private theorem render_singleLayer (items : List Item) :
    single.render (fun _ => true) (singleLayer items) = round.render (fun _ => false) (roundLayer items) := by
  rw [singleLayer, ← render_shown roundHidden_letter]
  rfl

private theorem opened_append (items items' : List Item) : opened (items ++ items') = opened items ++ opened items' :=
  render_append _ _

private theorem roundLayer_append (items items' : List Item) :
    roundLayer (items ++ items') = roundLayer items ++ roundLayer items' := by
  rw [roundLayer, opened_append, render_append]
  rfl

private theorem singleLayer_append (items items' : List Item) :
    singleLayer (items ++ items') = singleLayer items ++ singleLayer items' := by
  rw [singleLayer, opened_append, shown_append]
  rfl

private theorem doubleLayer_append (items items' : List Item) :
    doubleLayer (items ++ items') = doubleLayer items ++ doubleLayer items' :=
  shown_append _ _ _

private theorem text_append (items items' : List Item) : text (items ++ items') = text items ++ text items' := by
  rw [text, roundLayer_append, render_append]
  rfl

private theorem text_eq_flatMap (items : List Item) : text items = items.flatMap fun item => text [item] := by
  induction items with
  | nil => rfl
  | cons item items ih => rw [← List.singleton_append, text_append, List.singleton_append, List.flatMap_cons, ih]

/-- Joining the texts of items is the text of the joined items. -/
private theorem text_intercalate (sep : List Item) (slices : List (List Item)) :
    (text sep).intercalate (slices.map text) = text (sep.intercalate slices) := by
  induction slices with
  | nil => rfl
  | cons slice slices ih =>
    cases slices with
    | nil => rw [List.map_singleton, List.intercalate_singleton, List.intercalate_singleton]
    | cons slice' slices =>
      rw [List.intercalate_cons_cons, text_append, text_append, ← ih]
      exact List.intercalate_cons_cons

/-- The parts of a slice are some of the parts of the whole. -/
theorem parts_sublist {layer : List Item → Segs Char}
    (hlayer : ∀ items items', layer (items ++ items') = layer items ++ layer items') {slice : List Item}
    (h : slice <:+: items) : (parts (layer slice)).Sublist (parts (layer items)) := by
  obtain ⟨before, after, rfl⟩ := h
  rw [hlayer, hlayer, parts_append, parts_append, List.append_assoc]
  exact (List.sublist_append_left _ _).trans (List.sublist_append_right _ _)

private theorem zipIdx_parts {segs : Segs Char} (h : (parts segs).map Prod.fst = List.range (parts segs).length) :
    ((parts segs).map Prod.snd).zipIdx = (parts segs).map Prod.swap := by
  rw [List.zipIdx_eq_zip_range', List.length_map, ← List.range_eq_range', ← h, List.zip_map']
  rfl

private theorem replaceOnce_eq (target before after : Str) :
    replaceOnce target before after = replaceFirst target before after := by
  unfold replaceOnce replaceFirst
  cases cut before target <;> rfl

/-- A pass that finds the parts of its layer hides them. -/
theorem hide_found {left right : Char} {tag : Str} {segs : Segs Char} (h : Found (styleOf left right tag) segs) :
    hide left right tag (getStringInBracketFirst ((styleOf left right tag).render (fun _ => true) segs) left right)
      ((styleOf left right tag).render (fun _ => true) segs) =
      (styleOf left right tag).render (fun _ => false) segs := by
  have htexts : getStringInBracketFirst ((styleOf left right tag).render (fun _ => true) segs) left right =
      (parts segs).map Prod.snd := h.texts
  rw [← hide_all h.numbers h.hides, hide, htexts, zipIdx_parts h.numbers, List.foldl_map]
  refine List.foldl_ext _ _ _ fun buf part _ => ?_
  simp only [Prod.fst_swap, Prod.snd_swap, styleOf, List.append_assoc, List.cons_append, List.nil_append, replaceOnce_eq]

/-- The names of a pass in a slice are replaced by the parts they stand for. -/
theorem unhide_restores {left right : Char} {tag : Str} {segs whole : Segs Char}
    (hnumbers : (parts whole).map Prod.fst = List.range (parts whole).length)
    (hsub : (parts segs).Sublist (parts whole)) (h : Restores (styleOf left right tag) (parts whole).length segs) :
    unhide tag ((parts whole).map Prod.snd) ((styleOf left right tag).render (fun _ => false) segs) =
      (styleOf left right tag).render (fun _ => true) segs := by
  rw [← restore_all hnumbers hsub h, unhide, zipIdx_parts hnumbers, List.foldl_map]
  refine List.foldl_ext _ _ _ fun buf part _ => ?_
  simp only [Prod.fst_swap, Prod.snd_swap, styleOf, replaceOnce_eq]

/-- A group begins and ends with delimiters, as it is and when it is hidden. -/
theorem group_cases (item : Item) : (∃ c, item = .letter (letter c)) ∨ isLetter item = false ∧
    markedItem item = ((text [item]).map fun c => (c, false)) ∧
    ∃ left right inner name, isDelimiter left = true ∧ isDelimiter right = true ∧
      text [item] = left :: (inner ++ [right]) ∧ doubleHidden item = left :: (name ++ [right]) := by
  rcases item with (((c | ⟨i, s⟩) | ⟨i, segs⟩) | ⟨i, segs⟩)
  · exact .inl ⟨c, rfl⟩
  · refine .inr ⟨rfl, rfl, '(', ')', s, round.name i, rfl, rfl, ?_, ?_⟩
    · simp [text, roundLayer, opened, Style.render, Style.show1, styleOf]
    · simp [doubleHidden, singleHidden, roundHidden, Style.show1, styleOf]
  · refine .inr ⟨rfl, rfl, '\'', '\'', round.render (fun _ => true) segs, single.name i, rfl, rfl, ?_, ?_⟩
    · simp [text, roundLayer, opened, Style.render, Style.show1, styleOf, Style.map]
    · simp [doubleHidden, singleHidden, roundHidden, Style.show1, styleOf, Style.map, List.flatMap_map]
  · refine .inr ⟨rfl, rfl, '"', '"', round.render (fun _ => true) ((single.map .letter).render (fun _ => true) segs),
      double.name i, rfl, rfl, ?_, ?_⟩
    · simp [text, roundLayer, opened, Style.render, Style.show1, styleOf, Style.map, letter]
    · simp [doubleHidden, Style.show1, styleOf, Style.map, singleHidden_letter, List.flatMap_map]

private theorem length_le_flatMap {α : Type} {image : Item → List α} (himage : ∀ item, image item ≠ [])
    (items : List Item) :
    items.length ≤ (items.flatMap image).length := by
  induction items with
  | nil => exact Nat.le_refl _
  | cons item items ih =>
    have hpos := List.length_pos_iff.mpr (himage item)
    rw [List.flatMap_cons, List.length_append, List.length_cons]
    omega

private theorem markedItem_ne_nil (item : Item) : markedItem item ≠ [] := by
  rcases group_cases item with ⟨c, rfl⟩ | ⟨-, hmarked, left, right, inner, name, -, -, htext, -⟩
  · exact List.cons_ne_nil _ _
  · rw [hmarked, htext]
    exact List.cons_ne_nil _ _

private theorem doubleHidden_ne_nil (item : Item) : doubleHidden item ≠ [] := by
  rcases group_cases item with ⟨c, rfl⟩ | ⟨-, -, left, right, inner, name, -, -, -, hhidden⟩
  · exact List.cons_ne_nil _ _
  · rw [hhidden]
    exact List.cons_ne_nil _ _

private theorem flatMap_markedItem (items : List Item) : (items.flatMap markedItem).map Prod.fst = text items := by
  rw [text_eq_flatMap, List.map_flatMap]
  refine List.flatMap_congr fun item _ => ?_
  rcases group_cases item with ⟨c, rfl⟩ | ⟨-, hmarked, -⟩
  · rfl
  · rw [hmarked, List.map_map]
    exact List.map_id _

private theorem length_markedItem (items : List Item) : (items.flatMap markedItem).length = (text items).length := by
  rw [← flatMap_markedItem, List.length_map]

/-- The letters outside of the groups are told apart from the marked groups. -/
theorem distinct_markedItem (hsep : sep ≠ []) (items : List Item) :
    Distinct markedItem (sep.map fun c => .letter (letter c)) items where
  single b hb := by
    obtain ⟨c, -, rfl⟩ := List.mem_map.mp hb
    exact ⟨(c, true), rfl⟩
  apart item _ := by
    rcases group_cases item with ⟨c, rfl⟩ | ⟨-, hmarked, left, right, inner, name, -, -, htext, -⟩
    · refine .inl ⟨(c, true), rfl, fun b hb himage => ?_⟩
      obtain ⟨d, -, rfl⟩ := List.mem_map.mp hb
      obtain ⟨rfl⟩ : d = c := by simpa [markedItem, letter] using himage
      rfl
    · refine .inr ⟨(left, false), inner.map fun c => (c, false), (right, false), ?_, fun b hb => ?_, fun hpiece => ?_⟩
      · rw [hmarked, htext]
        simp
      · obtain ⟨c, -, rfl⟩ := List.mem_map.mp hb
        simp [markedItem, letter]
      · obtain ⟨c, rest, rfl⟩ := List.exists_cons_of_ne_nil hsep
        have hmem : (c, true) ∈ inner.map fun c => (c, false) := hpiece.subset (by simp [markedItem, letter])
        simp at hmem

/-- A separator without delimiters is told apart from the hidden groups it is not in. -/
theorem distinct_doubleHidden (hdelimiter : ∀ c ∈ sep, isDelimiter c = false)
    (hgroup : ∀ item ∈ items, isLetter item = false → contain (doubleHidden item) sep = false) :
    Distinct doubleHidden (sep.map fun c => .letter (letter c)) items where
  single b hb := by
    obtain ⟨c, -, rfl⟩ := List.mem_map.mp hb
    exact ⟨c, rfl⟩
  apart item hitem := by
    rcases group_cases item with ⟨c, rfl⟩ | ⟨hletter, -, left, right, inner, name, hleft, hright, -, hhidden⟩
    · refine .inl ⟨c, rfl, fun b hb himage => ?_⟩
      obtain ⟨d, -, rfl⟩ := List.mem_map.mp hb
      obtain rfl : d = c := List.singleton_inj.mp himage
      rfl
    · refine .inr ⟨left, name, right, hhidden, fun b hb => ?_, fun hpiece => ?_⟩
      · obtain ⟨c, hc, rfl⟩ := List.mem_map.mp hb
        have hplain := hdelimiter c hc
        constructor
        · intro himage
          obtain rfl : c = left := List.singleton_inj.mp himage
          exact Bool.false_ne_true (hplain.symm.trans hleft)
        · intro himage
          obtain rfl : c = right := List.singleton_inj.mp himage
          exact Bool.false_ne_true (hplain.symm.trans hright)
      · have hsep : (sep.map fun c => (.letter (letter c) : Item)).flatMap doubleHidden = sep :=
          flatMap_letters (fun _ => rfl) sep
        rw [hsep] at hpiece
        have habsent : ¬ sep <:+: doubleHidden item := by
          rw [← occurs_iff]
          exact Bool.eq_false_iff.mp (hgroup item hitem hletter)
        rw [hhidden] at habsent
        exact habsent (hpiece.trans ⟨[left], [right], by simp⟩)

/-- The text the passes leave is cut between the items. -/
theorem pieces_hiddenText (h : Fits sep items) : pieces sep (hiddenText items).length (hiddenText items) =
    (slices sep items).map fun slice => slice.flatMap doubleHidden := by
  obtain ⟨hsep, hfits⟩ := h
  have hitems : (sep.map fun c => (.letter (letter c) : Item)) ≠ [] := fun hnil => hsep (List.map_eq_nil_iff.mp hnil)
  have himage : (sep.map fun c => (.letter (letter c) : Item)).flatMap doubleHidden = sep :=
    flatMap_letters (fun _ => rfl) sep
  rcases hfits with ⟨hdelimiter, hgroup⟩ | habsent
  · have hpieces := (distinct_doubleHidden hdelimiter hgroup).pieces_flatMap hitems (hiddenText items).length
    rw [himage, ← hiddenText_eq] at hpieces
    rw [hpieces, slices, pieces_of_le hitems (hiddenText_eq items ▸ length_le_flatMap doubleHidden_ne_nil items)
      (Nat.le_refl items.length)]
  · have hnone : ¬ sep <:+: hiddenText items := by
      rw [← occurs_iff]
      exact Bool.eq_false_iff.mp habsent
    have hnone' : ¬ (sep.map fun c => (.letter (letter c) : Item)) <:+: items := by
      rintro ⟨before, after, rfl⟩
      refine hnone ⟨before.flatMap doubleHidden, after.flatMap doubleHidden, ?_⟩
      rw [hiddenText_eq, List.flatMap_append, List.flatMap_append, himage]
    rw [pieces_of_not_isInfix hnone, slices, pieces_of_not_isInfix hnone', List.map_singleton, hiddenText_eq]

section Passes

private theorem opened_itemsOf (target : Str) :
    opened (itemsOf target) = groups (.letter '\'') (.letter '\'') (groups '(' ')' target) :=
  render_scanSegs _ 0 [] 0 _

private theorem roundLayer_itemsOf (target : Str) : roundLayer (itemsOf target) = groups '(' ')' target := by
  rw [roundLayer, opened_itemsOf]
  exact render_scanSegs _ 0 [] 0 _

private theorem text_itemsOf (target : Str) : text (itemsOf target) = target := by
  rw [text, roundLayer_itemsOf]
  exact render_scanSegs _ 0 [] 0 _

private theorem numbers_groups {α : Type} [DecidableEq α] (left right : α) (s : List α) :
    (parts (groups left right s)).map Prod.fst = List.range (parts (groups left right s)).length := by
  rw [List.range_eq_range']
  exact numbers_scanSegs 0 [] 0 s

private theorem numbers_shown {β : Type} {image : β → Str} {segs : Segs β}
    (h : (parts segs).map Prod.fst = List.range (parts segs).length) :
    (parts (shown image segs)).map Prod.fst = List.range (parts (shown image segs)).length := by
  rw [parts_shown, List.map_map, List.length_map]
  exact h

/-- Numbers that are the places are in order. -/
theorem ordered_of_numbers {segs : Segs Char} (h : (parts segs).map Prod.fst = List.range (parts segs).length) :
    (parts segs).Pairwise (·.1 < ·.1) := by
  rw [← List.pairwise_map (f := Prod.fst) (R := (· < ·)), h]
  exact List.pairwise_lt_range

/-- The letters of a name are neither delimiters nor digits. -/
def IsTag (tag : Str) : Prop :=
  tag ≠ [] ∧ ∀ c ∈ tag, isDelimiter c = false ∧ c.isDigit = false

private theorem not_isDelimiter_of_isDigit {c : Char} (h : c.isDigit = true) : isDelimiter c = false := by
  rw [Bool.eq_false_iff]
  intro hdelimiter
  rw [isDelimiter, List.contains_iff_mem] at hdelimiter
  simp only [List.mem_cons, List.not_mem_nil, or_false] at hdelimiter
  rcases hdelimiter with rfl | rfl | rfl | rfl <;> cases h

private theorem name_plain {left right : Char} {tag : Str} (htag : IsTag tag) (i : Nat) :
    ∀ c ∈ (styleOf left right tag).name i, isDelimiter c = false := by
  intro c hc
  rcases List.mem_append.mp hc with hc | hc
  · exact (htag.2 c hc).1
  · exact not_isDelimiter_of_isDigit (isDigit_of_mem_to_string_nat hc)

instance (tag : Str) : Decidable (IsTag tag) :=
  haveI : Decidable (∀ c ∈ tag, isDelimiter c = false ∧ c.isDigit = false) := List.decidableBAll _ tag
  inferInstanceAs (Decidable (_ ∧ _))

/-- A name that stands in another one stands at its front: behind it there are only digits. -/
theorem isPrefix_of_isInfix_name {left right : Char} {tag : Str} (htag : IsTag tag) {i j : Nat}
    (h : (styleOf left right tag).name i <:+: (styleOf left right tag).name j) :
    (styleOf left right tag).name i <+: (styleOf left right tag).name j := by
  obtain ⟨front, back, heq⟩ := h
  have heq : front ++ (tag ++ to_string_nat i) ++ back = tag ++ to_string_nat j := heq
  rcases List.eq_nil_or_concat' front with rfl | ⟨front, c, rfl⟩
  · exact ⟨back, heq⟩
  · obtain ⟨tag', d, rfl⟩ := (List.eq_nil_or_concat' tag).resolve_left htag.1
    -- the last letter of the tag would stand among the digits
    have hdigit : d ∈ to_string_nat j := by
      have hdrop := congrArg (List.drop (tag' ++ [d]).length) heq
      rw [List.drop_left] at hdrop
      rw [← hdrop]
      have hplace : front ++ [c] ++ (tag' ++ [d] ++ to_string_nat i) ++ back =
          (front ++ [c] ++ tag') ++ d :: (to_string_nat i ++ back) := by simp
      rw [hplace, List.drop_append_of_le_length (by simp)]
      exact List.mem_append_right _ List.mem_cons_self
    have hletter := (htag.2 d (List.mem_append_right _ List.mem_cons_self)).2
    rw [isDigit_of_mem_to_string_nat hdigit] at hletter
    cases hletter

/-- The pass for a kind of quotes, over symbols of which only the quote is shown with one. -/
theorem found_quotes {β : Type} [DecidableEq β] {image : β → Str} {symbol : Char → β}
    (hsymbol : ∀ c, image (symbol c) = [c]) {q : Char} {tag : Str} (hplain : ∀ b, b ≠ symbol q → q ∉ image b)
    (xs : List β) (h : Fresh (styleOf q q tag) (shown image (groups (symbol q) (symbol q) xs))) :
    Found (styleOf q q tag) (shown image (groups (symbol q) (symbol q) xs)) where
  texts := by
    have hshown : (styleOf q q tag).render (fun _ => true) (shown image (groups (symbol q) (symbol q) xs)) =
        xs.flatMap image := by
      rw [← render_shown hsymbol]
      exact congrArg (List.flatMap image) (render_scanSegs _ 0 [] 0 xs)
    rw [hshown]
    exact getStringInBracketFirst_flatMap hsymbol (fun b hleft _ => ⟨hplain b hleft, hplain b hleft⟩) xs
  numbers := numbers_shown (numbers_groups _ _ _)
  hides := by
    refine hides_of_fresh (ordered_of_numbers (numbers_shown (numbers_groups _ _ _))) (fun part hpart => ?_) h
    rw [parts_shown] at hpart
    obtain ⟨⟨i, s⟩, hmem, rfl⟩ := List.mem_map.mp hpart
    have henclosed := enclosed_scanSegs (fun hzero => absurd hzero (by decide)) 0 xs (i, s) hmem
    rw [Enclosed, if_pos rfl] at henclosed
    have hnot : q ∉ s.flatMap image → Enclosed q q (s.flatMap image) := fun hnot => by rwa [Enclosed, if_pos rfl]
    refine hnot fun hquote => ?_
    obtain ⟨b, hb, hquote⟩ := List.mem_flatMap.mp hquote
    exact hplain b (fun heq => henclosed (heq ▸ hb)) hquote

/-- The places of fresh round groups are found in the text that has them. -/
private theorem found_round (h : Fresh round (roundLayer (itemsOf target))) :
    Found round (roundLayer (itemsOf target)) where
  texts := by
    have htext : round.render (fun _ => true) (roundLayer (itemsOf target)) = target := text_itemsOf target
    rw [htext, roundLayer_itemsOf]
    exact getStringInBracketFirst_eq target '(' ')'
  numbers := by
    rw [roundLayer_itemsOf]
    exact numbers_groups _ _ _
  hides := by
    rw [roundLayer_itemsOf] at h ⊢
    exact hides_of_fresh (ordered_of_numbers (numbers_groups _ _ _))
      (enclosed_scanSegs (fun hzero => absurd hzero (by decide)) 0 target) h

private theorem isTag_round : IsTag "replaceK".toList := by decide

private theorem isTag_single : IsTag "replaceS".toList := by decide

private theorem isTag_double : IsTag "replaceD".toList := by decide

private theorem not_mem_name {left right : Char} {tag : Str} (htag : IsTag tag) (i : Nat) {c : Char}
    (hc : isDelimiter c = true) : c ∉ (styleOf left right tag).name i := by
  intro hmem
  rw [name_plain htag i c hmem] at hc
  cases hc

/-- A text with its round groups hidden has no delimiter but those that stood outside of them. -/
private theorem not_mem_roundHidden {b : RoundSeg} {q : Char} (hq : isDelimiter q = true)
    (hleft : q ≠ '(') (hright : q ≠ ')')
    (hb : b ≠ .letter q) : q ∉ roundHidden b := by
  cases b with
  | letter c => simpa [roundHidden, Style.show1] using fun h => hb (congrArg Seg.letter h.symm)
  | part i s =>
    have hname : q ∉ round.name i := not_mem_name isTag_round i hq
    have hshow : roundHidden (.part i s) = '(' :: (round.name i ++ [')']) := rfl
    rw [hshow, List.mem_cons, List.mem_append, List.mem_singleton, not_or, not_or]
    exact ⟨hleft, hname, hright⟩

private theorem found_single (h : Fresh single (singleLayer (itemsOf target))) :
    Found single (singleLayer (itemsOf target)) := by
  rw [singleLayer, opened_itemsOf] at h ⊢
  exact found_quotes roundHidden_letter (fun b hb => not_mem_roundHidden (by decide) (by decide) (by decide) hb) _ h

/-- The places of fresh quoted groups are found in the text that has them. -/
private theorem found_double (h : Fresh double (doubleLayer (itemsOf target))) :
    Found double (doubleLayer (itemsOf target)) := by
  refine found_quotes singleHidden_letter (fun b hb => ?_) _ h
  cases b with
  | letter seg =>
    have hround : '"' ∉ roundHidden seg :=
      not_mem_roundHidden (by decide) (by decide) (by decide) fun heq => hb (congrArg Seg.letter heq)
    simpa [singleHidden, Style.show1] using hround
  | part i s =>
    have hname : '"' ∉ single.name i := not_mem_name isTag_single i rfl
    have hshow : singleHidden (.part i s) = '\'' :: (single.name i ++ ['\'']) := by
      simp [singleHidden, Style.show1, Style.map, List.flatMap_map, roundHidden, styleOf]
    rw [hshow, List.mem_cons, List.mem_append, List.mem_singleton, not_or, not_or]
    exact ⟨by decide, hname, by decide⟩

/-- The names are put back at their places in a slice. -/
theorem restores_slice {left right : Char} {tag : Str} (htag : IsTag tag) (hleft : isDelimiter left = true)
    (hright : isDelimiter right = true) {n : Nat} {segs whole : Segs Char}
    (hnumbers : (parts whole).map Prod.fst = List.range (parts whole).length)
    (hsub : (parts segs).Sublist (parts whole)) (h : Placed (styleOf left right tag) n segs) :
    Restores (styleOf left right tag) n segs := by
  refine restores_of_placed ((ordered_of_numbers hnumbers).sublist hsub) (fun i => ⟨?_, ?_, ?_⟩) (fun i j => ?_) h
  · exact List.append_ne_nil_of_left_ne_nil htag.1 _
  · exact not_mem_name htag i hleft
  · exact not_mem_name htag i hright
  · exact isPrefix_of_isInfix_name htag

end Passes

/-- The marks of a text are on its characters, in their order. -/
private theorem map_fst_marks {n n' : Nesting} {s : Str} {marks : List (Char × Bool)}
    (h : n.marks s = some (marks, n')) :
    marks.map Prod.fst = s := by
  induction s generalizing n marks with
  | nil =>
    cases h
    rfl
  | cons c s ih =>
    obtain ⟨m, -, h⟩ := Option.bind_eq_some_iff.mp h
    obtain ⟨⟨rest, m'⟩, hrest, heq⟩ := Option.map_eq_some_iff.mp h
    obtain ⟨rfl, rfl⟩ := Prod.mk.inj heq
    exact congrArg (c :: ·) (ih hrest)

/-- A text that is marked has all of its characters. -/
private theorem map_fst_marked {marks : List (Char × Bool)} (h : marked target = some marks) :
    marks.map Prod.fst = target := by
  unfold marked at h
  split at h
  · next hmarks =>
    split at h
    · cases h
      exact map_fst_marks hmarks
    · cases h
  · cases h

/-- A text is cut where its items are, if its separators stand outside of brackets and literals where
they stand outside of the items. -/
theorem Unconfused.topLevelParts_eq (h : Unconfused target sep) :
    topLevelParts target sep = some (if target = [] then [] else (slices sep (itemsOf target)).map text) := by
  obtain ⟨marks, hmarks, hseparated⟩ := Option.map_eq_some_iff.mp h.separated
  have hne : sep.map (fun c => (c, true)) ≠ [] := fun hnil => h.fits.1 (List.map_eq_nil_iff.mp hnil)
  have hitems : (sep.map fun c => (.letter (letter c) : Item)) ≠ [] :=
    fun hnil => h.fits.1 (List.map_eq_nil_iff.mp hnil)
  have himage : (sep.map fun c => (.letter (letter c) : Item)).flatMap markedItem = sep.map fun c => (c, true) := by
    rw [List.flatMap_map]
    exact List.map_eq_flatMap.symm
  have hscanned : ((itemsOf target).flatMap markedItem).map Prod.fst = target :=
    (flatMap_markedItem _).trans (text_itemsOf target)
  have hlook := (map_fst_marked hmarks).trans hscanned.symm
  have hplaces : ∀ k, sep.map (fun c => (c, true)) <+: marks.drop k ↔
      sep.map (fun c => (c, true)) <+: ((itemsOf target).flatMap markedItem).drop k := by
    intro k
    have hlength := congrArg List.length hlook
    rw [List.length_map, List.length_map] at hlength
    by_cases hk : k < marks.length
    · have hmem := congrArg (k ∈ ·) hseparated
      simp only [separators, List.mem_filter, List.mem_range, List.isPrefixOf_iff_prefix, ← hlength, hk, true_and,
        eq_iff_iff] at hmem
      exact hmem
    · rw [List.drop_eq_nil_of_le (Nat.le_of_not_lt hk), List.drop_eq_nil_of_le (hlength ▸ Nat.le_of_not_lt hk)]
  have hpieces := (distinct_markedItem h.fits.1 (itemsOf target)).pieces_flatMap hitems target.length
  have hlength : (itemsOf target).length ≤ target.length := by
    calc (itemsOf target).length ≤ ((itemsOf target).flatMap markedItem).length := length_le_flatMap markedItem_ne_nil _
      _ = target.length := by rw [length_markedItem, text_itemsOf]
  rw [himage, pieces_of_le hitems hlength (Nat.le_refl (itemsOf target).length)] at hpieces
  have hcut := map_pieces_congr Prod.fst hne target.length hlook hplaces
  rw [hpieces, List.map_map] at hcut
  rw [topLevelParts, hmarks, Option.map_some]
  refine congrArg some (if_congr Iff.rfl rfl (hcut.trans ?_))
  simp only [slices, Function.comp_def, flatMap_markedItem]

/-- A slice of what the passes leave is brought back to the text of its items. -/
theorem Unconfused.restored (h : Unconfused target sep) {slice : List Item}
    (hslice : slice ∈ slices sep (itemsOf target)) :
    unhide "replaceK".toList ((parts (roundLayer (itemsOf target))).map Prod.snd)
      (unhide "replaceS".toList ((parts (singleLayer (itemsOf target))).map Prod.snd)
        (unhide "replaceD".toList ((parts (doubleLayer (itemsOf target))).map Prod.snd) (slice.flatMap doubleHidden))) =
      text slice := by
  have hpiece := isInfix_of_mem_pieces hslice
  obtain ⟨hdouble, hsingle, hround⟩ := h.placed slice hslice
  have hdoubles := (found_double h.fresh.2.2).numbers
  have hsingles := (found_single h.fresh.2.1).numbers
  have hrounds := (found_round h.fresh.1).numbers
  have hinDouble := parts_sublist doubleLayer_append hpiece
  have hinSingle := parts_sublist singleLayer_append hpiece
  have hinRound := parts_sublist roundLayer_append hpiece
  rw [← hiddenText_eq, hiddenText,
    unhide_restores hdoubles hinDouble (restores_slice isTag_double rfl rfl hdoubles hinDouble hdouble),
    render_doubleLayer,
    unhide_restores hsingles hinSingle (restores_slice isTag_single rfl rfl hsingles hinSingle hsingle),
    render_singleLayer,
    unhide_restores hrounds hinRound (restores_slice isTag_round rfl rfl hrounds hinRound hround)]
  rfl

/-- Hiding leaves nothing only of an empty text. -/
private theorem hiddenText_eq_nil_iff (target : Str) : hiddenText (itemsOf target) = [] ↔ target = [] := by
  have hhidden := length_le_flatMap doubleHidden_ne_nil (itemsOf target)
  have hmarked := length_le_flatMap markedItem_ne_nil (itemsOf target)
  rw [← hiddenText_eq] at hhidden
  rw [length_markedItem, text_itemsOf] at hmarked
  constructor
  · intro hnil
    have hitems : itemsOf target = [] := List.length_eq_zero_iff.mp (by rw [hnil, List.length_nil] at hhidden; omega)
    rw [← text_itemsOf target, hitems]
    rfl
  · rintro rfl
    rfl

/-- The text is split between its items, of which each is put back at its place. -/
theorem Unconfused.splitExcludeBrackets_eq (h : Unconfused target sep) :
    splitExcludeBrackets target sep = if target = [] then [] else (slices sep (itemsOf target)).map text := by
  have hfoundRound := found_round h.fresh.1
  have hfoundSingle := found_single h.fresh.2.1
  have hfoundDouble := found_double h.fresh.2.2
  have htarget : round.render (fun _ => true) (roundLayer (itemsOf target)) = target := text_itemsOf target
  have hround := hide_found hfoundRound
  have hsingle := hide_found hfoundSingle
  have hdouble := hide_found hfoundDouble
  have hrounds : getStringInBracketFirst target '(' ')' = (parts (roundLayer (itemsOf target))).map Prod.snd :=
    (congrArg (getStringInBracketFirst · '(' ')') htarget).symm.trans hfoundRound.texts
  have hsingles : getStringInBracketFirst (single.render (fun _ => true) (singleLayer (itemsOf target))) '\'' '\'' =
      (parts (singleLayer (itemsOf target))).map Prod.snd := hfoundSingle.texts
  have hdoubles : getStringInBracketFirst (double.render (fun _ => true) (doubleLayer (itemsOf target))) '"' '"' =
      (parts (doubleLayer (itemsOf target))).map Prod.snd := hfoundDouble.texts
  rw [htarget] at hround
  rw [← render_singleLayer] at hround
  rw [← render_doubleLayer] at hsingle
  rw [← hiddenText] at hdouble
  simp only [splitExcludeBrackets]
  rw [hround, hsingle, hdouble, hrounds, hsingles, hdoubles, split]
  by_cases hnil : target = []
  · rw [if_pos (List.length_eq_zero_iff.mpr ((hiddenText_eq_nil_iff target).mpr hnil)), if_pos hnil]
    rfl
  · rw [if_neg (mt List.length_eq_zero_iff.mp (mt (hiddenText_eq_nil_iff target).mp hnil)), if_neg hnil,
      pieces_hiddenText h.fits, List.map_map]
    exact List.map_congr_left fun slice hslice => h.restored hslice

/-- A text is split between its groups, and no group is lost, where no group can be taken for
another one and no text for the name of one. -/
theorem splitsAtTopLevel_of_unconfused (h : Unconfused target sep) :
    SplitsAtTopLevel target sep (splitExcludeBrackets target sep) := by
  rw [h.splitExcludeBrackets_eq]
  refine ⟨?_, h.topLevelParts_eq⟩
  split
  · next hnil => rw [hnil]; exact List.intercalate_nil
  · have hsep : text (sep.map fun c => .letter (letter c)) = sep := by
      rw [text_eq_flatMap]
      exact flatMap_letters (fun _ => rfl) sep
    rw [← hsep, text_intercalate, hsep, slices, intercalate_pieces, text_itemsOf]

/-- A call, brackets that match across two literals, literals of both kinds in one another, and a
name that stands behind its group. -/
theorem splitsAtTopLevel_of_unconfused_literals :
    SplitsAtTopLevel "f(a,b)replaceK0,'(' ')',\"x,'y'\",c".toList ",".toList
      (splitExcludeBrackets "f(a,b)replaceK0,'(' ')',\"x,'y'\",c".toList ",".toList) :=
  splitsAtTopLevel_of_unconfused (by decide +kernel)

/-- Eleven groups: the name of the second begins that of the last. -/
theorem elevenGroups_not_splitsAtTopLevel :
    Balanced "(a),(b),(c),(d),(e),(f),(g),(h),(i),(j),(k)".toList ∧
      ¬ SplitsAtTopLevel "(a),(b),(c),(d),(e),(f),(g),(h),(i),(j),(k)".toList ",".toList
        (splitExcludeBrackets "(a),(b),(c),(d),(e),(f),(g),(h),(i),(j),(k)".toList ",".toList) := by
  decide +kernel

end IS.StringUtil

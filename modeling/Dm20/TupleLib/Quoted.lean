import Dm20.Lib.Joined
import Dm20.TupleLib.BracketScan

namespace IS.StringUtil

open Text

/-- A character that `deleteSpace` neither deletes nor looks for. -/
def isBare (c : Char) : Bool :=
  !(spaceBytes.contains c || decide (c = '\'') || decide (c = '"'))

def IsBare (s : Str) : Prop :=
  ∀ c ∈ s, isBare c = true

/-- Texts without blanks and quotes make up one without. -/
theorem IsBare.append {s t : Str} (hs : IsBare s) (ht : IsBare t) : IsBare (s ++ t) := fun c hc =>
  (List.mem_append.mp hc).elim (hs c) (ht c)

/-- A bare text has no character that is not bare. -/
theorem IsBare.not_mem {s : Str} (h : IsBare s) {c : Char} (hc : isBare c = false) : c ∉ s := fun hmem => by
  rw [h c hmem] at hc
  cases hc

private theorem getStringInBracketFirst_of_not_mem {q : Char} {s : Str} (h : q ∉ s) :
    getStringInBracketFirst s q q = [] := by
  rw [getStringInBracketFirst, foldl_next_of_not_mem h h]
  rfl

/-- The text between two quotes is found. -/
theorem getStringInBracketFirst_quoted {q : Char} {a body b : Str} (ha : q ∉ a) (hbody : q ∉ body) (hb : q ∉ b) :
    getStringInBracketFirst (a ++ q :: (body ++ q :: b)) q q = [body] := by
  rw [getStringInBracketFirst, List.foldl_append, foldl_next_of_not_mem ha ha, List.foldl_cons, List.foldl_append]
  have hopened :
      BracketScan.next q q { num := 0, inner := [], ret := [] } q = { num := 1, inner := [], ret := [] } := by
    simp [BracketScan.next]
  have hclosed : BracketScan.next q q { num := 1, inner := body, ret := [] } q =
      { num := 0, inner := [], ret := [body] } := by
    simp [BracketScan.next]
  rw [if_neg (by decide), hopened, foldl_next_of_not_mem hbody hbody, if_pos (by decide), List.nil_append,
    List.foldl_cons, hclosed, foldl_next_of_not_mem hb hb]
  rfl

/-- The name that stands for the literal in quotes. -/
def literalName (q : Char) : Str :=
  if q = '"' then "replaceD0".toList else "replaceS0".toList

/-- The name that is put for a literal has no blanks or quotes. -/
theorem isBare_literalName (q : Char) : IsBare (literalName q) := by
  have hboth : "replaceD0".toList.all isBare = true ∧ "replaceS0".toList.all isBare = true := by decide
  rw [literalName]
  split
  · exact List.all_eq_true.mp hboth.1
  · exact List.all_eq_true.mp hboth.2

private theorem filter_bare {s : Str} (h : IsBare s) : s.filter (fun c => !spaceBytes.contains c) = s := by
  rw [List.filter_eq_self]
  intro c hc
  have hbare := h c hc
  simp only [isBare, Bool.not_eq_true', Bool.or_eq_false_iff] at hbare
  simpa using hbare.1.1

/-- Without blanks and quotes nothing is deleted. -/
theorem deleteSpace_bare {s : Str} (h : IsBare s) : deleteSpace s = s := by
  have hsingle := getStringInBracketFirst_of_not_mem (h.not_mem (c := '\'') rfl)
  have hdouble := getStringInBracketFirst_of_not_mem (h.not_mem (c := '"') rfl)
  simp only [deleteSpace, hsingle, hide, List.zipIdx_nil, List.foldl_nil, hdouble, filter_bare h, unhide]

/-- A literal in a text without other quotes and without blanks is replaced by its name and put back
at the first place where the name stands. -/
theorem deleteSpace_quoted {q : Char} (hq : q = '\'' ∨ q = '"') {a body b : Str} (ha : IsBare a) (hb : IsBare b)
    (hbody : '\'' ∉ body ∧ '"' ∉ body) : deleteSpace (a ++ q :: (body ++ q :: b)) =
      replaceOnce (a ++ q :: (literalName q ++ q :: b)) (literalName q) body := by
  have hquote : isBare q = false := by rcases hq with rfl | rfl <;> rfl
  have hname := isBare_literalName q
  have hmemBody : q ∉ body := by
    rcases hq with rfl | rfl
    · exact hbody.1
    · exact hbody.2
  have hfound := getStringInBracketFirst_quoted (ha.not_mem hquote) hmemBody (hb.not_mem hquote)
  have hhidden : ∀ after : Str,
      replaceOnce (a ++ q :: (body ++ q :: b)) ([q] ++ body ++ [q]) after = a ++ after ++ b := by
    intro after
    have hcut : cut (q :: (body ++ [q])) (a ++ q :: (body ++ [q]) ++ b) = some (a, b) :=
      cut_of_head_not_mem (ha.not_mem hquote) b
    simp only [List.cons_append, List.append_assoc, List.nil_append] at hcut
    simp only [replaceOnce, List.cons_append, List.append_assoc, List.nil_append, hcut]
  have hfilter : (a ++ q :: (literalName q ++ q :: b)).filter (fun c => !spaceBytes.contains c) =
      a ++ q :: (literalName q ++ q :: b) := by
    have hkept : spaceBytes.contains q = false := by rcases hq with rfl | rfl <;> rfl
    rw [List.filter_append, filter_bare ha, List.filter_cons_of_pos (by simpa using hkept), List.filter_append,
      filter_bare hname, List.filter_cons_of_pos (by simpa using hkept), filter_bare hb]
  have hother : ∀ c, isBare c = false → c ≠ q → c ∉ a ++ q :: (literalName q ++ q :: b) := by
    intro c hc hne hmem
    simp only [List.mem_append, List.mem_cons] at hmem
    rcases hmem with h | h | h | h | h
    · exact ha.not_mem hc h
    · exact hne h
    · exact hname.not_mem hc h
    · exact hne h
    · exact hb.not_mem hc h
  have hzero : to_string_nat 0 = "0".toList := by decide
  rw [deleteSpace]
  rcases hq with rfl | rfl
  · have hdouble := getStringInBracketFirst_of_not_mem (hother '"' rfl (by decide))
    have hmark : ['\''] ++ "replaceS".toList ++ "0".toList ++ ['\''] = '\'' :: (literalName '\'' ++ ['\'']) := rfl
    have hname : "replaceS".toList ++ "0".toList = literalName '\'' := rfl
    simp only [hfound, hide, List.zipIdx_singleton, List.foldl_cons, List.foldl_nil, hhidden, hzero, hmark, unhide,
      hname]
    simp only [List.append_assoc, List.cons_append, List.nil_append, hdouble, List.zipIdx_nil, List.foldl_nil, hfilter]
  · have hsingle : '\'' ∉ a ++ '"' :: (body ++ '"' :: b) := by
      intro hmem
      simp only [List.mem_append, List.mem_cons] at hmem
      rcases hmem with h | h | h | h | h
      · exact ha.not_mem rfl h
      · cases h
      · exact hbody.1 h
      · cases h
      · exact hb.not_mem rfl h
    have hmark : ['"'] ++ "replaceD".toList ++ "0".toList ++ ['"'] = '"' :: (literalName '"' ++ ['"']) := rfl
    have hname : "replaceD".toList ++ "0".toList = literalName '"' := rfl
    simp only [getStringInBracketFirst_of_not_mem hsingle, hide, List.zipIdx_nil, List.foldl_nil, hfound,
      List.zipIdx_singleton, List.foldl_cons, hhidden, hzero, hmark, unhide, hname]
    simp only [List.append_assoc, List.cons_append, List.nil_append, hfilter]

/-- A literal comes back to its place where its name stands nowhere before it. -/
theorem replaceOnce_name {q : Char} {a name : Str} (b body : Str) (hq : q ∉ name) (hne : name ≠ [])
    (h : ¬ name <:+: a) :
    replaceOnce (a ++ q :: (name ++ q :: b)) name body = a ++ q :: (body ++ q :: b) := by
  have hcut : cut name ((a ++ [q]) ++ name ++ (q :: b)) = some (a ++ [q], q :: b) := by
    have hlast : ∀ p, p ≠ [] → p <:+ a ++ [q] → q ∈ p := by
      rintro p hp ⟨front, hfront⟩
      have hend := congrArg List.getLast? hfront
      rw [List.getLast?_append_of_ne_nil _ hp, List.getLast?_concat] at hend
      exact List.mem_of_getLast? hend
    refine cut_closed hne ?_ ?_ _
    · exact fun p hp hsuffix hfront => hq (hfront.subset (hlast p hp hsuffix))
    · rw [cut_eq_none_iff, List.infix_concat_iff, not_or]
      exact ⟨fun hsuffix => hq (hlast name hne hsuffix), h⟩
  simp only [List.append_assoc, List.cons_append, List.nil_append] at hcut
  simp only [replaceOnce, hcut, List.append_assoc, List.cons_append, List.nil_append]

/-- Where its name stands before it, the literal is put there, and the name is left in its place. -/
theorem replaceOnce_name_before {a name : Str} (hne : name ≠ []) (h : name <:+: a) (body rest : Str) :
    ∃ x y, a = x ++ name ++ y ∧ replaceOnce (a ++ rest) name body = x ++ body ++ (y ++ rest) := by
  obtain ⟨⟨x, y⟩, hcut⟩ := Option.isSome_iff_exists.mp (occurs_iff.mpr h)
  refine ⟨x, y, cut_eq_some hcut, ?_⟩
  simp only [replaceOnce, cut_append_right hne hcut]

end IS.StringUtil

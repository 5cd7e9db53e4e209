import Dm20.Query.LiteralReading

namespace IS

open StringUtil Text
open Tokenizer (isComparatorSymbol)

/-- A text without characters of comparators. -/
def Uncompared (s : Str) : Prop :=
  ∀ c ∈ s, isComparatorSymbol c = false

namespace Comparator

/-- The texts that are looked for before that of a comparator. -/
def earlierTexts (c : Comparator) : List Str :=
  (Condition.comparatorTexts.map Prod.snd).takeWhile fun text => decide (text ≠ c.text)

theorem text_ne_nil (c : Comparator) : c.text ≠ [] := by
  cases c <;> decide

theorem mem_text (c : Comparator) : ∀ d ∈ c.text, isComparatorSymbol d = true := by
  have hall : c.text.all isComparatorSymbol = true := by cases c <;> decide
  exact List.all_eq_true.mp hall

theorem mem_comparatorTexts {text : Str} (h : text ∈ Condition.comparatorTexts.map Prod.snd) :
    text ≠ [] ∧ ∀ d ∈ text, isComparatorSymbol d = true := by
  have hall : ∀ text ∈ Condition.comparatorTexts.map Prod.snd,
      text ≠ [] ∧ text.all isComparatorSymbol = true := by decide
  exact ⟨(hall text h).1, List.all_eq_true.mp (hall text h).2⟩

/-- No comparator overlaps with itself. -/
theorem borderless_text (c : Comparator) : Borderless c.text := by
  have hall : ∀ p ∈ c.text.inits, p ≠ [] → p <:+ c.text → p = c.text := by cases c <;> decide
  exact fun p hne hfront hsuffix => hall p (List.mem_inits _ _ |>.mpr hfront) hne hsuffix

/-- A comparator has none of those in it that are looked for before it: the longer ones come
first. -/
theorem not_isInfix_earlierTexts (c : Comparator) : ∀ text ∈ c.earlierTexts, ¬ text <:+: c.text := by
  cases c <;> decide

end Comparator

namespace Condition

/-- The source's `contain` looks for a text anywhere. -/
theorem contain_iff {s v : Str} : contain s v = true ↔ v <:+: s :=
  occurs_iff

/-- The first pair that is looked for has a key of its own in front of it. -/
theorem find?_eq_some_iff {α β : Type} {p : α × β → Bool} {before after : List (α × β)} {a : α} {b : β}
    (hp : p (a, b) = true) (hbefore : ∀ pair ∈ before, pair.1 ≠ a) (x : β) :
    (before ++ (a, b) :: after).find? p = some (a, x) ↔ x = b ∧ ∀ pair ∈ before, ¬ p pair = true := by
  rw [List.find?_append, List.find?_cons_of_pos hp]
  cases hfind : before.find? p with
  | none =>
    rw [List.find?_eq_none] at hfind
    rw [Option.none_or, Option.some.injEq, Prod.mk.injEq]
    exact ⟨fun h => ⟨h.2.symm, hfind⟩, fun h => ⟨rfl, h.1.symm⟩⟩
  | some pair =>
    have hmem := List.mem_of_find?_eq_some hfind
    rw [Option.some_or, Option.some.injEq]
    refine iff_of_false ?_ fun h => h.2 pair hmem (List.find?_some hfind)
    rintro rfl
    exact hbefore _ hmem rfl

/-- The comparator of a statement is the one whose text occurs first in the list. -/
theorem findComparator_iff {state : Str} {c : Comparator} (h : c.text <:+: state) (text : Str) :
    findComparator state = some (c, text) ↔ text = c.text ∧ ∀ text ∈ c.earlierTexts, ¬ text <:+: state := by
  have hsplit : ∃ before after, comparatorTexts = before ++ (c, c.text) :: after ∧ (∀ pair ∈ before, pair.1 ≠ c) ∧
      c.earlierTexts = before.map Prod.snd := by
    cases c
    · exact ⟨[], _, rfl, by decide, by decide⟩
    · exact ⟨comparatorTexts.take 1, _, rfl, by decide, by decide⟩
    · exact ⟨comparatorTexts.take 2, _, rfl, by decide, by decide⟩
    · exact ⟨comparatorTexts.take 4, _, rfl, by decide, by decide⟩
    · exact ⟨comparatorTexts.take 5, _, rfl, by decide, by decide⟩
    · exact ⟨comparatorTexts.take 6, _, rfl, by decide, by decide⟩
  obtain ⟨before, after, hlist, hbefore, hearlier⟩ := hsplit
  rw [findComparator, hlist, find?_eq_some_iff (contain_iff.mpr h) hbefore, hearlier, List.forall_mem_map]
  simp only [contain_iff]

section Inversion

variable {schema : Schema} {state : Str} {cond cond' : Condition} {now : Int64}

/-- What a condition on a column and a literal is made of. -/
theorem columnLiteral_eq_some {name text : Str} {pos : ValPos} (h : columnLiteral schema cond name text pos now =
      some (true, cond')) : ∃ text', resolveNow now text = some (.ok text') ∧
        schema.getAttributeIdx name = some cond'.fieldIdx ∧
        literalValue text' (schema.getAttribute cond'.fieldIdx.toNat).type = some cond'.val ∧
        cond'.cond = cond.cond ∧ cond'.valuePosition = pos := by
  obtain ⟨result, hresult, h⟩ := Option.bind_eq_some_iff.mp h
  cases result with
  | error e => cases h
  | ok text' =>
    obtain ⟨idx, hidx, h⟩ := Option.bind_eq_some_iff.mp h
    split at h
    · cases h
    · split at h
      · cases h
      · next val hval =>
        cases h
        exact ⟨text', hresult, hidx, hval, rfl, rfl⟩

/-- A statement of a column and a literal is understood exactly if its text can be read as a
value of the type of the column. -/
private theorem columnLiteral_iff {name text : Str} {pos : ValPos} {idx : Int}
    (hidx : schema.getAttributeIdx name = some idx)
    (hne : idx ≠ -1) : columnLiteral schema cond name text pos now = some (true, cond') ↔
      ∃ text' val, resolveNow now text = some (.ok text') ∧
        literalValue text' (schema.getAttribute idx.toNat).type = some val ∧
        cond' = { cond with fieldName := name, valuePosition := pos, fieldIdx := idx, val := val } := by
  constructor
  · intro h
    obtain ⟨result, hresult, h⟩ := Option.bind_eq_some_iff.mp h
    cases result with
    | error e => cases h
    | ok text' =>
      rw [hidx] at h
      simp only [bind, Option.bind, if_neg hne] at h
      split at h
      · cases h
      · next val hval =>
        cases h
        exact ⟨text', val, hresult, hval, rfl⟩
  · rintro ⟨text', val, hresult, hval, rfl⟩
    unfold columnLiteral
    rw [hresult]
    simp only [bind, Option.bind, hidx, if_neg hne, hval]

/-- A condition between two columns has no side of a literal. -/
theorem twoColumns_position {name1 name2 : Str} {exist1 exist2 : Bool}
    (h : twoColumns schema cond name1 name2 exist1 exist2 = some (true, cond')) : cond'.valuePosition = .nothing := by
  have hlast : ∀ idx1 idx2, (if idx1 = -1 ∨ idx2 = -1 then
        some (false, { cond with fieldName := name1, fieldName2 := name2, fieldIdx := idx1, fieldIdx2 := idx2 })
      else some (true, { cond with
        fieldName := name1
        fieldName2 := name2
        fieldIdx := idx1
        fieldIdx2 := idx2
        valuePosition := .nothing })) = some (true, cond') → cond'.valuePosition = .nothing := by
    intro idx1 idx2 hsome
    split at hsome
    · cases hsome
    · cases hsome
      rfl
  unfold twoColumns at h
  cases exist1 with
  | true =>
    obtain ⟨idx1, -, h1⟩ := Option.bind_eq_some_iff.mp h
    cases exist2 with
    | true =>
      obtain ⟨idx2, -, h2⟩ := Option.bind_eq_some_iff.mp h1
      exact hlast idx1 idx2 h2
    | false => exact hlast idx1 _ h1
  | false =>
    cases exist2 with
    | true =>
      obtain ⟨idx2, -, h2⟩ := Option.bind_eq_some_iff.mp h
      exact hlast _ idx2 h2
    | false => exact hlast _ _ h

/-- A condition on a column and a literal stands for the two texts in front of and behind
the first comparator. -/
theorem getCondition_eq_some (h : getCondition schema state {} now = some (true, cond))
    (hposition : cond.valuePosition ≠ .nothing) : ∃ c text s0 s1 rest, findComparator state = some (c, text) ∧
      cond.cond = some c ∧ split state text = s0 :: s1 :: rest ∧ ∃ name value text',
        (cond.valuePosition = .right ∧ name = s0 ∧ value = s1 ∨ cond.valuePosition = .left ∧ name = s1 ∧ value = s0) ∧
        schema.isExistAttribute value = some false ∧ schema.getAttributeIdx name = some cond.fieldIdx ∧
        resolveNow now value = some (.ok text') ∧
        literalValue text' (schema.getAttribute cond.fieldIdx.toNat).type = some cond.val := by
  obtain ⟨⟨c, text⟩, hfind, hread⟩ := Option.bind_eq_some_iff.mp h
  dsimp only at hread
  split at hread
  · next s0 s1 rest hsplit =>
    obtain ⟨exist0, hexist0, hread⟩ := Option.bind_eq_some_iff.mp hread
    obtain ⟨exist1, hexist1, hsides⟩ := Option.bind_eq_some_iff.mp hread
    refine ⟨c, text, s0, s1, rest, hfind, ?_⟩
    by_cases hright : (exist0 && !exist1) = true
    · rw [if_pos hright] at hsides
      obtain ⟨text', hnow, hidx, hval, hcond, hpos⟩ := columnLiteral_eq_some hsides
      have hvalue : exist1 = false := by simp_all
      exact ⟨hcond, hsplit, s0, s1, text', .inl ⟨hpos, rfl, rfl⟩, hvalue ▸ hexist1, hidx, hnow, hval⟩
    · rw [if_neg hright] at hsides
      by_cases hleft : (!exist0 && exist1) = true
      · rw [if_pos hleft] at hsides
        obtain ⟨text', hnow, hidx, hval, hcond, hpos⟩ := columnLiteral_eq_some hsides
        have hvalue : exist0 = false := by simp_all
        exact ⟨hcond, hsplit, s1, s0, text', .inr ⟨hpos, rfl, rfl⟩, hvalue ▸ hexist0, hidx, hnow, hval⟩
      · rw [if_neg hleft] at hsides
        exact absurd (twoColumns_position hsides) hposition
  · cases hread

/-- The condition of a statement with one comparator between a column and a literal. -/
theorem exists_getCondition_iff {c : Comparator} {s0 s1 name value : Str} {pos : ValPos} {P : Condition → Prop}
    (hfind : findComparator state = some (c, c.text)) (hsplit : split state c.text = [s0, s1])
    (hsides : pos = .right ∧ name = s0 ∧ value = s1 ∨ pos = .left ∧ name = s1 ∧ value = s0)
    (hname : schema.isExistAttribute name = some true) {idx : Int} (hidx : schema.getAttributeIdx name = some idx)
    (hne : idx ≠ -1) (hP : ∀ cond, P cond → cond.valuePosition ≠ .nothing) :
    (∃ cond, getCondition schema state {} now = some (true, cond) ∧ P cond) ↔
      schema.isExistAttribute value = some false ∧ ∃ text' val, resolveNow now value = some (.ok text') ∧
        literalValue text' (schema.getAttribute idx.toNat).type = some val ∧
        P { fieldName := name, valuePosition := pos, fieldIdx := idx, cond := some c, val } := by
  have hread : getCondition schema state {} now = schema.isExistAttribute s0 >>= fun exist0 =>
      schema.isExistAttribute s1 >>= fun exist1 =>
        if exist0 && !exist1 then columnLiteral schema { cond := some c } s0 s1 .right now
        else if !exist0 && exist1 then columnLiteral schema { cond := some c } s1 s0 .left now
        else twoColumns schema { cond := some c } s0 s1 exist0 exist1 := by
    unfold getCondition
    rw [hfind]
    simp only [bind, Option.bind, hsplit]
  have hsome : ∀ cond, P cond → (getCondition schema state {} now = some (true, cond) ↔
      schema.isExistAttribute value = some false ∧
        columnLiteral schema { cond := some c } name value pos now = some (true, cond)) := by
    intro cond hcond
    rw [hread]
    rcases hsides with ⟨rfl, rfl, rfl⟩ | ⟨rfl, rfl, rfl⟩
    · cases hvalue : schema.isExistAttribute value with
      | none => simp [hname, bind]
      | some exist =>
        cases exist with
        | false => simp [hname, bind]
        | true =>
          refine iff_of_false ?_ (by simp)
          simp only [hname, bind, Option.bind_some, Bool.not_true, Bool.and_false, Bool.false_and,
            Bool.false_eq_true, if_false]
          exact fun h => hP cond hcond (twoColumns_position h)
    · cases hvalue : schema.isExistAttribute value with
      | none => simp [bind]
      | some exist =>
        cases exist with
        | false => simp [hname, bind]
        | true =>
          refine iff_of_false ?_ (by simp)
          simp only [hname, bind, Option.bind_some, Bool.not_true, Bool.and_false, Bool.false_and,
            Bool.false_eq_true, if_false]
          exact fun h => hP cond hcond (twoColumns_position h)
  constructor
  · rintro ⟨cond, hget, hcond⟩
    obtain ⟨hvalue, hliteral⟩ := (hsome cond hcond).mp hget
    obtain ⟨text', val, hnow, hval, rfl⟩ := (columnLiteral_iff hidx hne).mp hliteral
    exact ⟨hvalue, text', val, hnow, hval, hcond⟩
  · rintro ⟨hvalue, text', val, hnow, hval, hcond⟩
    exact ⟨_, (hsome _ hcond).mpr ⟨hvalue, (columnLiteral_iff hidx hne).mpr ⟨text', val, hnow, hval, rfl⟩⟩, hcond⟩

end Inversion

end Condition

end IS

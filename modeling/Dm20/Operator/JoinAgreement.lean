import Dm20.Operator.JoinKeys
import Dm20.Query.PredicateReading

open Collect Run Text

namespace IS

open StringUtil Condition

namespace JoinOperator

/-- A statement that equates two columns. -/
def equation (pair : Str × Str) : Str :=
  pair.1 ++ "=".toList ++ pair.2

/-- A name is that of a column of the one schema, and not of the other. -/
structure OnlyIn (schema other : Schema) (name : Str) (idx : Nat) : Prop where
  found : schema.getAttributeIdx name = some (idx : Int)
  inside : idx < schema.getAttributeSize
  missing : other.isExistAttribute name = some false

/-- A statement equates a column that only the first schema has with one that only the second
has, in either order. -/
structure Equated (schema1 schema2 : Schema) (pair : Str × Str) (keys : Nat × Nat) : Prop where
  names : IsAtom pair.1 ∧ IsAtom pair.2
  columns : (OnlyIn schema1 schema2 pair.1 keys.1 ∧ OnlyIn schema2 schema1 pair.2 keys.2) ∨
    (OnlyIn schema1 schema2 pair.2 keys.1 ∧ OnlyIn schema2 schema1 pair.1 keys.2)
  joined : ∃ i j : Nat, (joinSchema schema1 schema2).getAttributeIdx pair.1 = some (i : Int) ∧
    (joinSchema schema1 schema2).getAttributeIdx pair.2 = some (j : Int)

section Statements

variable {schema1 schema2 : Schema} {pair : Str × Str} {keys : Nat × Nat}

/-- A column of only the one set is found in its schema. -/
theorem OnlyIn.exists_ {schema other : Schema} {name : Str} {idx : Nat} (h : OnlyIn schema other name idx) :
    schema.isExistAttribute name = some true := by
  rw [Schema.isExistAttribute, h.found]
  simp

private theorem isExistAttribute_of_found {schema : Schema} {name : Str} {idx : Nat}
    (h : schema.getAttributeIdx name = some (idx : Int)) : schema.isExistAttribute name = some true := by
  rw [Schema.isExistAttribute, h]
  simp

private theorem deleteSpace_equation (h : IsAtom pair.1 ∧ IsAtom pair.2) :
    deleteSpace (equation pair) = equation pair :=
  deleteSpace_bare ((h.1.isBare.append (Predicate.isBare_comparatorText .EQ)).append h.2.isBare)

private theorem split_equation (h : IsAtom pair.1 ∧ IsAtom pair.2) :
    split (deleteSpace (equation pair)) "=".toList = [pair.1, pair.2] := by
  have hsymbols := Comparator.isSymbols .EQ
  rw [deleteSpace_equation h]
  exact split_borderless hsymbols.1 (Comparator.borderless_text .EQ) (h.1.uncompared.not_isInfix hsymbols)
    (h.2.uncompared.not_isInfix hsymbols)

private theorem findComparator_equation (h : IsAtom pair.1 ∧ IsAtom pair.2) :
    findComparator (deleteSpace (equation pair)) = some (.EQ, "=".toList) := by
  have hin : ∀ {symbols : Str}, IsSymbols symbols → (symbols <:+: equation pair ↔ symbols <:+: "=".toList) := by
    intro symbols hsymbols
    rw [equation, isInfix_append_right_iff h.2.uncompared hsymbols, isInfix_append_left_iff h.1.uncompared hsymbols]
  rw [deleteSpace_equation h]
  refine (findComparator_iff ((hin (Comparator.isSymbols .EQ)).mpr List.infix_rfl) _).mpr ⟨rfl, fun text htext => ?_⟩
  rw [hin (Comparator.isSymbols_of_earlier htext)]
  exact Comparator.not_isInfix_earlierTexts .EQ text htext

/-- The condition of a statement that equates two columns, with the columns it reads. -/
structure Reads (keys : Nat × Nat) (c : Condition × List Bool) : Prop where
  cond : c.1.cond = some .EQ
  position : c.1.valuePosition = .nothing
  columns : (c.2 = [false] ∧ c.1.fieldIdx = keys.1 ∧ c.1.fieldIdx2 = keys.2) ∨
    (c.2 = [true] ∧ c.1.fieldIdx = keys.2 ∧ c.1.fieldIdx2 = keys.1)

/-- The statement of an equation reads the two columns, whichever side names which. -/
theorem Equated.statement (h : Equated schema1 schema2 pair keys) (now : Int64) :
    ∃ c, JoinOperator.statement schema1 schema2 now (equation pair) = some (some c) ∧ Reads keys c := by
  obtain ⟨i, j, hi, hj⟩ := h.joined
  have hcond : getCondition (joinSchema schema1 schema2) (deleteSpace (equation pair)) {} now = some (true,
      { fieldName := pair.1, fieldName2 := pair.2, fieldIdx := i, fieldIdx2 := j, cond := some .EQ }) := by
    have hne : ¬ ((i : Int) = -1 ∨ (j : Int) = -1) := by omega
    unfold getCondition
    simp only [findComparator_equation h.names, split_equation h.names, isExistAttribute_of_found hi,
      isExistAttribute_of_found hj, twoColumns, hi, hj, bind, Option.bind, Bool.not_true, Bool.and_false,
      Bool.false_and, Bool.false_eq_true, if_false, if_true, if_neg hne]
  have hfound : ((i : Int) ≠ -1 ∧ (j : Int) ≠ -1) := by omega
  rw [JoinOperator.statement, hcond]
  simp only [bind, Option.bind, if_true, place, if_pos hfound]
  rcases h.columns with ⟨h1, h2⟩ | ⟨h1, h2⟩
  · simp only [h1.exists_, h2.exists_, h1.found, h2.found, if_true]
    exact ⟨_, rfl, rfl, rfl, .inl ⟨rfl, rfl, rfl⟩⟩
  · simp only [h2.missing, h1.exists_, h2.exists_, h1.found, h2.found, if_true, Bool.false_eq_true, if_false]
    exact ⟨_, rfl, rfl, rfl, .inr ⟨rfl, rfl, rfl⟩⟩

/-- Both orders of the sets find the pair of columns of an equation, turned round in the one. -/
theorem Equated.keyPair (h : Equated schema1 schema2 pair keys) :
    JoinOperator.keyPair schema1 schema2 (equation pair) = some (some ((keys.1 : Int), (keys.2 : Int))) ∧
      JoinOperator.keyPair schema2 schema1 (equation pair) = some (some ((keys.2 : Int), (keys.1 : Int))) := by
  unfold JoinOperator.keyPair
  rw [split_equation h.names]
  rcases h.columns with ⟨h1, h2⟩ | ⟨h1, h2⟩
  · simp [bind, Option.bind, h1.exists_, h2.exists_, h1.missing, h2.missing, h1.found, h2.found]
  · simp [bind, Option.bind, h1.exists_, h2.exists_, h1.missing, h2.missing, h1.found, h2.found]

end Statements

section Pairs

/-- Two tuples have the columns, with values of keys in them. -/
structure Keyed (keys : List (Nat × Nat)) (t1 t2 : Tuple) : Prop where
  first : ∀ key ∈ keys, HasIdx t1 key.1
  second : ∀ key ∈ keys, HasIdx t2 key.2
  values : ∀ key ∈ keys, KeyValues (valueAt t1 key.1) (valueAt t2 key.2)

variable {keys : List (Nat × Nat)} {t1 t2 : Tuple}

/-- Two tuples with the same keys have the same keys without the first of them. -/
theorem Keyed.tail {key : Nat × Nat} (h : Keyed (key :: keys) t1 t2) : Keyed keys t1 t2 where
  first := fun key hkey => h.first key (List.mem_cons_of_mem _ hkey)
  second := fun key hkey => h.second key (List.mem_cons_of_mem _ hkey)
  values := fun key hkey => h.values key (List.mem_cons_of_mem _ hkey)

/-- A condition that reads a key compares the two values at it, in one order or the other. -/
private theorem matchCondition_eq {ope : JoinOperator} {key : Nat × Nat} {c : Condition × List Bool}
    (hreads : Reads key c)
    {idx : Nat} (hidx : ope.isReverseArgList[idx]? = c.2.head?) (h : Keyed (key :: keys) t1 t2) (vals : Any × Any) :
    ∃ vals', ope.matchCondition t1 t2 c.1 idx vals = some
      ((Comparator.EQ.matchAny (valueAt t1 key.1) (valueAt t2 key.2)).toOption.getD false, vals') := by
  have hfirst := readByIdx_eq (h.first key List.mem_cons_self)
  have hsecond := readByIdx_eq (h.second key List.mem_cons_self)
  obtain ⟨-, -, hforward, hbackward⟩ := (h.values key List.mem_cons_self).text_eq_iff
  unfold matchCondition
  rcases hreads.columns with ⟨hside, hleft, hright⟩ | ⟨hside, hleft, hright⟩
  · rw [hside] at hidx
    simp only [hidx, List.head?_cons, Option.map_some, hreads.position, ne_eq, not_true, if_false, Bool.false_eq_true,
      hleft, hright, hfirst, hsecond, Condition.isMatchCondition2, hreads.cond]
    exact ⟨_, rfl⟩
  · have hsame : (Comparator.EQ.matchAny (valueAt t2 key.2) (valueAt t1 key.1)).toOption.getD false =
        (Comparator.EQ.matchAny (valueAt t1 key.1) (valueAt t2 key.2)).toOption.getD false := by
      rw [Bool.eq_iff_iff, ← hforward, ← hbackward]
    rw [hside] at hidx
    simp only [hidx, List.head?_cons, Option.map_some, hreads.position, ne_eq, not_true, if_false, if_true,
      hleft, hright, hfirst, hsecond, Condition.isMatchCondition2, hreads.cond, hsame]
    exact ⟨_, rfl⟩

end Pairs

/-- Two sets of two schemas, with values of keys in the columns that are equated. -/
structure Joinable (schema1 schema2 : Schema) (keys : List (Nat × Nat)) (tupleset1 tupleset2 : TupleSet) : Prop where
  schema1_eq : tupleset1.schema = schema1
  schema2_eq : tupleset2.schema = schema2
  aligned1 : ∀ t ∈ tupleset1.tuples, t.size = schema1.getAttributeSize
  aligned2 : ∀ t ∈ tupleset2.tuples, t.size = schema2.getAttributeSize
  values : ∀ t1 ∈ tupleset1.tuples, ∀ t2 ∈ tupleset2.tuples, ∀ key ∈ keys,
    KeyValues (valueAt t1 key.1) (valueAt t2 key.2)

/-- A join that was made for two schemas and a conjunction of equations, with the keys it has
looked for, if any. -/
structure Built (argument : Str) (schema1 schema2 : Schema) (keys : List (Nat × Nat)) (ope : JoinOperator) : Prop where
  argument_eq : ope.argument = argument
  conditions : ∃ conds, List.Forall₂ Reads keys conds ∧ ope.conditions = conds.map Prod.fst ∧
    ope.isReverseArgList = conds.flatMap Prod.snd
  hash : ope.isUseHashJoin = true
  output : ope.outputSchema = joinSchema schema1 schema2
  keys : (ope.smallKeyIdxList = [] ∧ ope.largeKeyIdxList = []) ∨
    (ope.smallKeyIdxList, ope.largeKeyIdxList) = smallLarge ope.isReverse
      (keys.map fun key => (key.1 : Int)) (keys.map fun key => (key.2 : Int))

section Process

variable {schema1 schema2 : Schema} {pairs : List (Str × Str)} {keys : List (Nat × Nat)} {ope : JoinOperator}
  {tupleset1 tupleset2 : TupleSet}

/-- The columns of an equation lie within their schemas. -/
theorem Equated.inside {pair : Str × Str} {key : Nat × Nat} (h : Equated schema1 schema2 pair key) :
    key.1 < schema1.getAttributeSize ∧ key.2 < schema2.getAttributeSize := by
  rcases h.columns with ⟨h1, h2⟩ | ⟨h1, h2⟩
  · exact ⟨h1.inside, h2.inside⟩
  · exact ⟨h1.inside, h2.inside⟩

/-- A join that has not been called yet, or one whose calls were all of two schemas. -/
def Ready (argument : Str) (schema1 schema2 : Schema) (keys : List (Nat × Nat)) (ope : JoinOperator) : Prop :=
  ope = { argument } ∨ Built argument schema1 schema2 keys ope

/-- The sets of a call have two schemas, and can be joined by columns. -/
def Call.Joinable (schema1 schema2 : Schema) (keys : List (Nat × Nat)) (c : Call) : Prop :=
  ∃ tupleset1 tupleset2 rest, c.ts = tupleset1 :: tupleset2 :: rest ∧
    JoinOperator.Joinable schema1 schema2 keys tupleset1 tupleset2

end Process

end JoinOperator

end IS

import Dm20.Lib.Run
import Dm20.Operator.Join
import Dm20.Query.ParseTree

open Collect Run

namespace IS

open StringUtil

namespace JoinOperator

/-- One call of `process` with the clock reading at it. -/
structure Call where
  now : Int64
  ts : List TupleSet

/-- What a join compares tuples by. -/
inductive Used where
  | nestedLoop (conditions : List Condition) (isReverseArgList : List Bool)
  | hash (smallKeyIdxList largeKeyIdxList : List Int)

def used (ope : JoinOperator) : Used :=
  if ope.isUseHashJoin then .hash ope.smallKeyIdxList ope.largeKeyIdxList
  else .nestedLoop ope.conditions ope.isReverseArgList

/-- A call that has returned: what it compared by and the set it handed on, if any. -/
structure Record where
  ts : List TupleSet
  used : Used
  result : Option TupleSet

/-- A join and its calls so far, the latest first, with the two schemas its
output schema was last made for. -/
structure Session where
  ope : JoinOperator
  builtFor : Option (Schema × Schema) := none
  records : List Record := []

/-- A session after a call, or the sets of a call that ended in an exception. -/
def step (s : Session) (c : Call) : Except (List TupleSet) Session :=
  match s.ope.process c.now c.ts with
  | none => .error c.ts
  | some (ope, result) =>
    .ok
      { ope
        builtFor :=
          match c.ts with
          | tupleset1 :: tupleset2 :: _ =>
            if s.ope.Rebuilds tupleset1.schema tupleset2.schema then some (tupleset1.schema, tupleset2.schema)
            else s.builtFor
          | _ => s.builtFor
        records := { ts := c.ts, used := ope.used, result } :: s.records }

/-- At no time is one of the statements of a parameter understood, with each
column on a side. -/
def Refused (argument : Str) (schema1 schema2 : Schema) : Prop :=
  ∃ state ∈ paramList argument, ∀ now c, statement schema1 schema2 now state ≠ some (some c)

/-- The texts on the two sides of the comparator of a statement. -/
def operands (state : Str) : Option (Str × Str) :=
  match Condition.findComparator (deleteSpace state) with
  | some (_, text) =>
    match split (deleteSpace state) text with
    | left :: right :: _ => some (left, right)
    | _ => none
  | none => none

/-- The words for the current time. -/
def timeWords : List Str :=
  ["unix_now".toList, "UNIX_NOW".toList, "its_now".toList, "ITS_NOW".toList]

/-- A text is the name of a column: an identifier that is no word for a value. -/
def IsName (text : Str) : Prop :=
  LeafNode.isIdentifier text = true ∧ LeafNode.isBoolen text = false ∧ LeafNode.isNull text = false ∧
    text ∉ timeWords

instance (text : Str) : Decidable (IsName text) :=
  inferInstanceAs (Decidable (_ ∧ _ ∧ _ ∧ _))

/-- A text is the name of a column that neither side has. -/
def Missing (schema1 schema2 : Schema) (text : Str) : Prop :=
  IsName text ∧ schema1.isExistAttribute text ≠ some true ∧ schema2.isExistAttribute text ≠ some true

instance (schema1 schema2 : Schema) (text : Str) : Decidable (Missing schema1 schema2 text) :=
  inferInstanceAs (Decidable (_ ∧ _ ∧ _))

/-- A statement names a column that neither side has. -/
def NamesMissing (schema1 schema2 : Schema) (state : Str) : Prop :=
  ∃ sides ∈ operands state, Missing schema1 schema2 sides.1 ∨ Missing schema1 schema2 sides.2

/-- A parameter is invalid for two schemas: a statement of it names a column
that neither side has, or is not understood at any time. -/
def Invalid (argument : Str) (schema1 schema2 : Schema) : Prop :=
  Refused argument schema1 schema2 ∨ ∃ state ∈ paramList argument, NamesMissing schema1 schema2 state

/-- What a join that has kept nothing compares the tuples of two sets by. -/
def computed (argument : Str) (tupleset1 tupleset2 : TupleSet) (now : Int64) : Option Used :=
  match setSchema { argument } tupleset1.schema tupleset2.schema now with
  | some (true, ope) =>
    if ope.isUseHashJoin then
      let schemas := smallLarge (reversed tupleset1 tupleset2) tupleset1.schema tupleset2.schema
      match ope.searchKeys schemas.1 schemas.2 with
      | some (true, ope) => some ope.used
      | _ => none
    else some ope.used
  | _ => none

/-- A call returned false where the parameter is invalid for its schemas. What
it joined, it joined by what is computed for its schemas. -/
def Record.Sound (argument : Str) (r : Record) : Prop :=
  match r.ts with
  | tupleset1 :: tupleset2 :: _ =>
    (Invalid argument tupleset1.schema tupleset2.schema → r.result = none) ∧
      (r.result ≠ none → ∃ now, computed argument tupleset1 tupleset2 now = some r.used)
  | _ => r.result = none

def Sound (argument : Str) (s : Session) : Prop :=
  ∀ r ∈ s.records, r.Sound argument

/-- An exception is one of a call with an invalid parameter. -/
def InvalidSets (argument : Str) (ts : List TupleSet) : Prop :=
  match ts with
  | tupleset1 :: tupleset2 :: _ => Invalid argument tupleset1.schema tupleset2.schema
  | _ => False

/-- Nothing is kept of earlier calls. -/
structure Clean (ope : JoinOperator) : Prop where
  conditions : ope.conditions = []
  isReverseArgList : ope.isReverseArgList = []
  smallKeyIdxList : ope.smallKeyIdxList = []
  largeKeyIdxList : ope.largeKeyIdxList = []

/-- A statement compares a column that only the one schema has with one that
only the other schema has. -/
def Separates (schema1 schema2 : Schema) (state : Str) : Prop :=
  ∃ left right, split (deleteSpace state) "=".toList = [left, right] ∧
    ((schema1.isExistAttribute left = some true ∧ schema1.isExistAttribute right = some false ∧
        schema2.isExistAttribute left = some false ∧ schema2.isExistAttribute right = some true) ∨
      (schema1.isExistAttribute left = some false ∧ schema1.isExistAttribute right = some true ∧
        schema2.isExistAttribute left = some true ∧ schema2.isExistAttribute right = some false))

/-- The keys kept are none, or one for each statement for the same smaller set;
for the other one where each statement compares columns of both sets. -/
def KeysFit (ope : JoinOperator) (tupleset1 tupleset2 : TupleSet) : Prop :=
  ope.smallKeyIdxList = [] ∨
    ope.smallKeyIdxList.length = (paramList ope.argument).length ∧
      (ope.isReverse = reversed tupleset1 tupleset2 ∨
        ∀ state ∈ paramList ope.argument, Separates tupleset1.schema tupleset2.schema state)

/-- The first statement without keys is refused. -/
def KeysRefused (argument : Str) (tupleset1 tupleset2 : TupleSet) : Prop :=
  let schemas := smallLarge (reversed tupleset1 tupleset2) tupleset1.schema tupleset2.schema
  ∃ state, (paramList argument).find? (fun state => (keyPair schemas.1 schemas.2 state).join.isNone) = some state ∧
    keyPair schemas.1 schemas.2 state = some none

/-- What is kept fits the sets of a call: either all conditions and the keys are
there, or the conditions are not complete and a hash join finds no keys again. -/
def Fits (ope : JoinOperator) (tupleset1 tupleset2 : TupleSet) : Prop :=
  (ope.conditions.length = (paramList ope.argument).length ∧
      (ope.isUseHashJoin = true → KeysFit ope tupleset1 tupleset2)) ∨
    (ope.isUseHashJoin = true ∧ ope.smallKeyIdxList = [] ∧ KeysRefused ope.argument tupleset1 tupleset2 ∧
      ope.conditions.length ≠ (paramList ope.argument).length)

/-- In the schema of a join a text has a value as a literal that a column is
compared with. -/
def AsLiteral (schema : Schema) (column text : Str) : Prop :=
  schema.isExistAttribute column = some true ∧ schema.isExistAttribute text ≠ some true ∧
    ∃ idx now literal, schema.getAttributeIdx column = some idx ∧
      Condition.resolveNow now text = some (.ok literal) ∧
      Condition.literalValue literal (schema.getAttribute idx.toNat).type ≠ none

/-- A statement that names a column that neither side has compares a column of
the joined schema with a literal. -/
def Misread (schema1 schema2 : Schema) (state : Str) : Prop :=
  NamesMissing schema1 schema2 state ∧
    ∃ sides ∈ operands state, AsLiteral (joinSchema schema1 schema2) sides.1 sides.2 ∨
      AsLiteral (joinSchema schema1 schema2) sides.2 sides.1

/-- The condition on a call. No name of a column that neither side has is read as
a literal. Where the call makes the output schema anew, nothing is kept of
earlier calls, and of a parameter that is invalid the first statement that is not
understood raises no exception. Otherwise the parameter is empty, or the sets
have the schemas that the output schema was made for, and what is kept fits them. -/
def Orderly (s : Session) (c : Call) : Prop :=
  match c.ts with
  | tupleset1 :: tupleset2 :: _ =>
    (∀ state ∈ paramList s.ope.argument, ¬ Misread tupleset1.schema tupleset2.schema state) ∧
      if s.ope.Rebuilds tupleset1.schema tupleset2.schema then
        Clean s.ope ∧
          (Invalid s.ope.argument tupleset1.schema tupleset2.schema →
            ∀ state, (paramList s.ope.argument).find? (fun state =>
                (statement tupleset1.schema tupleset2.schema c.now state).join.isNone) = some state →
              statement tupleset1.schema tupleset2.schema c.now state ≠ none)
      else
        paramList s.ope.argument = [] ∨
          s.builtFor = some (tupleset1.schema, tupleset2.schema) ∧ Fits s.ope tupleset1 tupleset2
  | _ => True

/-- A condition on a column and a literal that is understood has a value for the literal. -/
theorem columnLiteral_eq_some {schema : Schema} {cond cond' : Condition} {name text : Str} {pos : ValPos} {now : Int64}
    (h : Condition.columnLiteral schema cond name text pos now = some (true, cond')) :
    ∃ idx literal, schema.getAttributeIdx name = some idx ∧ Condition.resolveNow now text = some (.ok literal) ∧
      Condition.literalValue literal (schema.getAttribute idx.toNat).type ≠ none := by
  unfold Condition.columnLiteral at h
  obtain ⟨resolved, hresolve, h⟩ := Option.bind_eq_some_iff.mp h
  cases resolved with
  | error e => cases h
  | ok literal =>
    obtain ⟨idx, hidx, h⟩ := Option.bind_eq_some_iff.mp h
    refine ⟨idx, literal, hidx, hresolve, fun hnone => ?_⟩
    simp only [hnone] at h
    split at h <;> cases h

/-- What a statement that is understood compares: a column and a literal that has
a value, or two columns of the schema. -/
theorem operands_of_getCondition {schema : Schema} {state : Str} {now : Int64} {cond : Condition}
    (h : Condition.getCondition schema (deleteSpace state) {} now = some (true, cond)) :
    ∃ left right, operands state = some (left, right) ∧
      (AsLiteral schema left right ∨ AsLiteral schema right left ∨
        cond.fieldName = left ∧ cond.fieldName2 = right ∧ cond.fieldIdx ≠ -1 ∧ cond.fieldIdx2 ≠ -1) := by
  unfold Condition.getCondition at h
  obtain ⟨⟨comparator, text⟩, hfind, h⟩ := Option.bind_eq_some_iff.mp h
  dsimp only at h
  split at h
  · next left right rest hsplit =>
    refine ⟨left, right, by simp only [operands, hfind, hsplit], ?_⟩
    obtain ⟨exist1, hexist1, h⟩ := Option.bind_eq_some_iff.mp h
    obtain ⟨exist2, hexist2, h⟩ := Option.bind_eq_some_iff.mp h
    cases exist1 <;> cases exist2
    · cases h
    · obtain ⟨idx, literal, hidx, hresolve, hvalue⟩ := columnLiteral_eq_some h
      exact .inr (.inl ⟨hexist2, by simp [hexist1], idx, now, literal, hidx, hresolve, hvalue⟩)
    · obtain ⟨idx, literal, hidx, hresolve, hvalue⟩ := columnLiteral_eq_some h
      exact .inl ⟨hexist1, by simp [hexist2], idx, now, literal, hidx, hresolve, hvalue⟩
    · refine .inr (.inr ?_)
      obtain ⟨idx1, -, h⟩ := Option.bind_eq_some_iff.mp h
      obtain ⟨idx2, -, h⟩ := Option.bind_eq_some_iff.mp h
      dsimp only at h
      split at h
      · cases h
      · next hidx =>
        cases h
        exact ⟨rfl, rfl, fun h1 => hidx (.inl h1), fun h2 => hidx (.inr h2)⟩
  · cases h

/-- A test of two columns one after the other holds of both, or the rest runs without it. -/
theorem both_or_of_bind {α : Type} {exist1 exist2 : Option Bool} {f : Bool → Option α} {r : α}
    (h : (exist1.bind fun found => if found = true then exist2.bind f else (some false).bind f) = some r) :
    (exist1 = some true ∧ exist2 = some true) ∨ f false = some r := by
  obtain ⟨found1, hfound1, h⟩ := Option.bind_eq_some_iff.mp h
  cases found1 with
  | false => exact .inr h
  | true =>
    obtain ⟨found2, hfound2, h⟩ := Option.bind_eq_some_iff.mp h
    cases found2 with
    | false => exact .inr h
    | true => exact .inl ⟨hfound1, hfound2⟩

/-- A condition on two columns is placed where each side has one of them. -/
theorem exists_of_place {schema1 schema2 : Schema} {cond : Condition} {c : Condition × List Bool}
    (h1 : cond.fieldIdx ≠ -1) (h2 : cond.fieldIdx2 ≠ -1) (h : place schema1 schema2 cond = some (some c)) :
    (schema1.isExistAttribute cond.fieldName = some true ∧ schema2.isExistAttribute cond.fieldName2 = some true) ∨
      (schema1.isExistAttribute cond.fieldName2 = some true ∧ schema2.isExistAttribute cond.fieldName = some true) := by
  unfold place at h
  rw [if_pos ⟨h1, h2⟩] at h
  rcases both_or_of_bind h with hinOrder | h
  · exact .inl hinOrder
  · rcases both_or_of_bind h with hinReverse | h
    · exact .inr hinReverse
    · cases h

/-- A statement with the name of a column that neither side has is never
understood, where it is not read as a comparison with a literal. -/
theorem statement_ne_of_namesMissing {schema1 schema2 : Schema} {state : Str}
    (hmissing : NamesMissing schema1 schema2 state) (hread : ¬ Misread schema1 schema2 state) (now : Int64)
    (c : Condition × List Bool) : statement schema1 schema2 now state ≠ some (some c) := by
  intro h
  obtain ⟨⟨understood, cond⟩, hcondition, h⟩ := Option.bind_eq_some_iff.mp h
  cases understood with
  | false => cases h
  | true =>
    obtain ⟨left, right, hoperands, hleft | hright | ⟨hname1, hname2, hidx1, hidx2⟩⟩ :=
      operands_of_getCondition hcondition
    · exact hread ⟨hmissing, (left, right), hoperands, .inl hleft⟩
    · exact hread ⟨hmissing, (left, right), hoperands, .inr hright⟩
    · obtain ⟨sides, hsides, hside⟩ := hmissing
      cases Option.some.inj (hsides.symm.trans hoperands)
      have hplaced := exists_of_place hidx1 hidx2 h
      rw [hname1, hname2] at hplaced
      rcases hplaced with ⟨h1, h2⟩ | ⟨h2, h1⟩
      · exact hside.elim (fun hmiss => hmiss.2.1 h1) (fun hmiss => hmiss.2.2 h2)
      · exact hside.elim (fun hmiss => hmiss.2.2 h1) (fun hmiss => hmiss.2.1 h2)

/-- A parameter that is invalid is refused at all times, where no missing column
of it is read as a literal. -/
theorem Invalid.refused {argument : Str} {schema1 schema2 : Schema} (h : Invalid argument schema1 schema2)
    (hread : ∀ state ∈ paramList argument, ¬ Misread schema1 schema2 state) : Refused argument schema1 schema2 := by
  rcases h with hrefused | ⟨state, hstate, hmissing⟩
  · exact hrefused
  · exact ⟨state, hstate, statement_ne_of_namesMissing hmissing (hread state hstate)⟩

/-- What a join keeps is that of two schemas: the conditions of the statements up
to the first that is not understood, and as many keys as statements only where
they are those of the set noted as the smaller one. -/
structure Kept (argument : Str) (ope : JoinOperator) (schema1 schema2 : Schema) (ok : Bool) : Prop where
  argument_eq : ope.argument = argument
  conditions : ∃ now conds, collect (statement schema1 schema2 now) (paramList argument) = some (ok, conds) ∧
    ope.conditions = conds.map Prod.fst ∧ ope.isReverseArgList = conds.flatMap Prod.snd ∧
    ope.isUseHashJoin =
      (!(paramList argument).isEmpty && conds.all fun c => decide (c.1.cond = some .EQ))
  keys : ope.smallKeyIdxList.length = (paramList argument).length → paramList argument ≠ [] →
    ∃ keys, collect (keyPair (smallLarge ope.isReverse schema1 schema2).1
        (smallLarge ope.isReverse schema1 schema2).2) (paramList argument) = some (true, keys) ∧
      ope.smallKeyIdxList = keys.map Prod.fst ∧ ope.largeKeyIdxList = keys.map Prod.snd
  noKeys : ope.smallKeyIdxList = [] → ope.largeKeyIdxList = []

/-- All statements of the condition are kept exactly if the last call made them all. -/
theorem Kept.complete_iff {argument : Str} {ope : JoinOperator} {schema1 schema2 : Schema} {ok : Bool}
    (h : Kept argument ope schema1 schema2 ok) :
    ope.conditions.length = (paramList argument).length ↔ ok = true := by
  obtain ⟨now, conds, hcollect, hconditions, -⟩ := h.conditions
  rw [hconditions, List.length_map]
  exact length_eq_iff hcollect

/-- A parameter whose statements were all understood once is not invalid, where no
missing column of it is read as a literal. -/
theorem Kept.not_invalid {argument : Str} {ope : JoinOperator} {schema1 schema2 : Schema}
    (h : Kept argument ope schema1 schema2 true)
    (hread : ∀ state ∈ paramList argument, ¬ Misread schema1 schema2 state) : ¬ Invalid argument schema1 schema2 := by
  intro hinvalid
  obtain ⟨state, hstate, hnot⟩ := hinvalid.refused hread
  obtain ⟨now, conds, hcollect, -⟩ := h.conditions
  obtain ⟨c, hc⟩ := mem_of_collect hcollect hstate
  exact hnot now c hc

/-- A join by hashing has a statement to take its keys from. -/
theorem Kept.paramList_ne_nil {argument : Str} {ope : JoinOperator} {schema1 schema2 : Schema} {ok : Bool}
    (h : Kept argument ope schema1 schema2 ok) (hhash : ope.isUseHashJoin = true) : paramList argument ≠ [] := by
  obtain ⟨now, conds, -, -, -, huse⟩ := h.conditions
  intro hnil
  rw [hhash, hnil] at huse
  cases huse

/-- With no keys kept, the keys are searched of all the statements. -/
private theorem searchKeys_of_nil {ope ope' : JoinOperator} {smallSchema largeSchema : Schema} {ok : Bool}
    (h : ope.searchKeys smallSchema largeSchema = some (ok, ope'))
    (hsmall : ope.smallKeyIdxList = []) (hlarge : ope.largeKeyIdxList = []) :
    ∃ keys, collect (keyPair smallSchema largeSchema) (paramList ope.argument) = some (ok, keys) ∧
      ope' = { ope with smallKeyIdxList := keys.map Prod.fst, largeKeyIdxList := keys.map Prod.snd } := by
  unfold searchKeys at h
  rw [if_pos (by rw [hsmall]; rfl), Option.map_eq_some_iff] at h
  obtain ⟨⟨ok', keys⟩, hcollect, heq⟩ := h
  cases heq
  exact ⟨keys, hcollect, by simp only [hsmall, hlarge, List.nil_append]⟩

/-- A statement that separates the columns of two schemas gives the same pair for the schemas in
the other order, turned round. -/
private theorem keyPair_swap {schema1 schema2 : Schema} {state : Str} (h : Separates schema1 schema2 state)
    {keys : Int × Int}
    (hkeys : keyPair schema1 schema2 state = some (some keys)) :
    keyPair schema2 schema1 state = some (some keys.swap) := by
  obtain ⟨left, right, hsplit, hsides⟩ := h
  unfold keyPair at hkeys ⊢
  rcases hsides with ⟨h1, h2, h3, h4⟩ | ⟨h1, h2, h3, h4⟩
  · simp only [hsplit, h1, h2, h3, h4, Option.bind_eq_bind, Option.bind_some] at hkeys ⊢
    obtain ⟨idx1, hidx1, hrest⟩ := Option.bind_eq_some_iff.mp hkeys
    obtain ⟨idx2, hidx2, heq⟩ := Option.bind_eq_some_iff.mp hrest
    cases heq
    simp [hidx1, hidx2]
  · simp only [hsplit, h1, h2, h3, h4, Option.bind_eq_bind, Option.bind_some] at hkeys ⊢
    obtain ⟨idx1, hidx1, hrest⟩ := Option.bind_eq_some_iff.mp hkeys
    obtain ⟨idx2, hidx2, heq⟩ := Option.bind_eq_some_iff.mp hrest
    cases heq
    simp [hidx1, hidx2]

/-- The keys found for the one set as the smaller one are, exchanged, those for the other one. -/
theorem collect_keyPair_turned {schema1 schema2 : Schema} {states : List Str}
    (h : ∀ state ∈ states, Separates schema1 schema2 state) {reverse reverse' : Bool} (hne : reverse ≠ reverse')
    {keys : List (Int × Int)}
    (hkeys : collect (keyPair (smallLarge reverse schema1 schema2).1 (smallLarge reverse schema1 schema2).2) states =
      some (true, keys)) :
    collect (keyPair (smallLarge reverse' schema1 schema2).1 (smallLarge reverse' schema1 schema2).2) states =
      some (true, keys.map Prod.swap) := by
  have hback : ∀ state ∈ states, Separates schema2 schema1 state := by
    intro state hstate
    obtain ⟨left, right, hsplit, ⟨h1, h2, h3, h4⟩ | ⟨h1, h2, h3, h4⟩⟩ := h state hstate
    · exact ⟨left, right, hsplit, .inr ⟨h3, h4, h1, h2⟩⟩
    · exact ⟨left, right, hsplit, .inl ⟨h3, h4, h1, h2⟩⟩
  cases reverse with
  | false =>
    obtain rfl : reverse' = true := by simpa using hne.symm
    exact collect_map (fun state hstate _ => keyPair_swap (h state hstate)) hkeys
  | true =>
    obtain rfl : reverse' = false := by simpa using hne.symm
    exact collect_map (fun state hstate _ => keyPair_swap (hback state hstate)) hkeys

/-- What a join that has kept nothing computes, where the statements are understood. -/
theorem computed_eq {argument : Str} {tupleset1 tupleset2 : TupleSet} {now : Int64}
    {conds : List (Condition × List Bool)}
    (h : collect (statement tupleset1.schema tupleset2.schema now) (paramList argument) = some (true, conds)) :
    computed argument tupleset1 tupleset2 now =
      if !(paramList argument).isEmpty && conds.all fun c => decide (c.1.cond = some .EQ) then
        match collect (keyPair (smallLarge (reversed tupleset1 tupleset2) tupleset1.schema tupleset2.schema).1
            (smallLarge (reversed tupleset1 tupleset2) tupleset1.schema tupleset2.schema).2) (paramList argument) with
        | some (true, keys) => some (.hash (keys.map Prod.fst) (keys.map Prod.snd))
        | _ => none
      else some (.nestedLoop (conds.map Prod.fst) (conds.flatMap Prod.snd)) := by
  unfold computed setSchema
  simp only [h, Option.map_some, Bool.false_or, List.nil_append, used]
  by_cases hhash : (!(paramList argument).isEmpty && conds.all fun c => decide (c.1.cond = some .EQ)) = true
  · simp only [if_pos hhash, searchKeys, List.length_nil, if_true, List.nil_append]
    cases hsearch : collect (keyPair (smallLarge (reversed tupleset1 tupleset2) tupleset1.schema tupleset2.schema).1
        (smallLarge (reversed tupleset1 tupleset2) tupleset1.schema tupleset2.schema).2) (paramList argument) with
    | none => rfl
    | some found =>
      obtain ⟨ok, keys⟩ := found
      cases ok with
      | false => rfl
      | true => simp only [Option.map_some, if_pos hhash]
  · simp only [if_neg hhash]

/-- A join by hashing has a result exactly if its keys were found. -/
private theorem joinSets_of_hash {ope ope' : JoinOperator} {tupleset1 tupleset2 : TupleSet} {result : Option TupleSet}
    (hhash : ope.isUseHashJoin = true) (h : ope.joinSets tupleset1 tupleset2 = some (ope', result)) :
    ∃ ok, (ope.turnKeys (reversed tupleset1 tupleset2)).searchKeys
        (smallLarge (reversed tupleset1 tupleset2) tupleset1.schema tupleset2.schema).1
        (smallLarge (reversed tupleset1 tupleset2) tupleset1.schema tupleset2.schema).2 = some (ok, ope') ∧
      (result = none ↔ ok = false) := by
  unfold joinSets hashJoin at h
  rw [if_pos hhash, Option.map_map, Option.map_eq_some_iff] at h
  obtain ⟨⟨ok, found⟩, hsearch, heq⟩ := h
  cases heq
  refine ⟨ok, hsearch, ?_⟩
  cases ok <;> simp

private theorem joinSets_of_nestedLoop {ope ope' : JoinOperator} {tupleset1 tupleset2 : TupleSet}
    {result : Option TupleSet}
    (hhash : ope.isUseHashJoin = false) (h : ope.joinSets tupleset1 tupleset2 = some (ope', result)) : ope' = ope := by
  unfold joinSets at h
  rw [if_neg (by rw [hhash]; exact Bool.false_ne_true), Option.map_eq_some_iff] at h
  obtain ⟨tuples, -, heq⟩ := h
  cases heq
  rfl

/-- The search ends with the keys of the statements for the smaller set of a
call, looked for in this call or kept from an earlier one. -/
theorem Kept.searchKeys {argument : Str} {ope ope' : JoinOperator} {tupleset1 tupleset2 : TupleSet} {ok found : Bool}
    (h : Kept argument ope tupleset1.schema tupleset2.schema ok) (hhash : ope.isUseHashJoin = true)
    (hfit : KeysFit ope tupleset1 tupleset2)
    (hsearch : (ope.turnKeys (reversed tupleset1 tupleset2)).searchKeys
      (smallLarge (reversed tupleset1 tupleset2) tupleset1.schema tupleset2.schema).1
      (smallLarge (reversed tupleset1 tupleset2) tupleset1.schema tupleset2.schema).2 = some (found, ope')) :
    ∃ keys, collect (keyPair (smallLarge (reversed tupleset1 tupleset2) tupleset1.schema tupleset2.schema).1
        (smallLarge (reversed tupleset1 tupleset2) tupleset1.schema tupleset2.schema).2) (paramList argument) =
          some (found, keys) ∧
      ope' = { ope with
        smallKeyIdxList := keys.map Prod.fst, largeKeyIdxList := keys.map Prod.snd
        isReverse := reversed tupleset1 tupleset2 } := by
  rcases hfit with hnil | ⟨hlength, hside⟩
  · have hturn : ope.turnKeys (reversed tupleset1 tupleset2) =
        { ope with isReverse := reversed tupleset1 tupleset2 } := by
      rw [turnKeys, if_neg]
      simp [hnil]
    rw [hturn] at hsearch
    obtain ⟨keys, hcollect, rfl⟩ := searchKeys_of_nil hsearch hnil (h.noKeys hnil)
    rw [← h.argument_eq]
    exact ⟨keys, hcollect, rfl⟩
  · have hparam := h.paramList_ne_nil hhash
    rw [h.argument_eq] at hlength hside
    have hpos : (paramList argument).length ≠ 0 := fun hzero => hparam (List.length_eq_zero_iff.mp hzero)
    obtain ⟨keys, hcollect, hsmall, hlarge⟩ := h.keys hlength hparam
    have hkeys : keys.length ≠ 0 := by
      rw [length_eq_iff hcollect |>.mpr rfl]
      exact hpos
    by_cases hsame : ope.isReverse = reversed tupleset1 tupleset2
    · have hturn : ope.turnKeys (reversed tupleset1 tupleset2) = ope := by
        rw [turnKeys, if_neg (by simp [hsame]), ← hsame]
      rw [hturn, JoinOperator.searchKeys, if_neg (by rw [hlength]; exact hpos)] at hsearch
      cases hsearch
      rw [hsame] at hcollect
      exact ⟨keys, hcollect, by rw [← hsmall, ← hlarge, ← hsame]⟩
    · have hseparates := hside.resolve_left hsame
      have hturn : ope.turnKeys (reversed tupleset1 tupleset2) =
          { ope with
            smallKeyIdxList := keys.map Prod.snd, largeKeyIdxList := keys.map Prod.fst
            isReverse := reversed tupleset1 tupleset2 } := by
        rw [turnKeys, if_pos ⟨by rw [hlength]; exact hpos, hsame⟩, hsmall, hlarge]
      rw [hturn, JoinOperator.searchKeys, if_neg (by simpa using hkeys)] at hsearch
      cases hsearch
      refine ⟨keys.map Prod.swap, collect_keyPair_turned hseparates hsame hcollect, ?_⟩
      simp [List.map_map, Function.comp_def]

/-- Keys that are found for all statements may be kept with what is kept. -/
theorem Kept.withKeys {argument : Str} {ope : JoinOperator} {schema1 schema2 : Schema} {ok found reverse : Bool}
    (h : Kept argument ope schema1 schema2 ok) {keys : List (Int × Int)}
    (hcollect : collect (keyPair (smallLarge reverse schema1 schema2).1 (smallLarge reverse schema1 schema2).2)
      (paramList argument) = some (found, keys)) :
    Kept argument { ope with
      smallKeyIdxList := keys.map Prod.fst, largeKeyIdxList := keys.map Prod.snd, isReverse := reverse }
      schema1 schema2 ok where
  argument_eq := h.argument_eq
  conditions := h.conditions
  keys := by
    intro hlength _
    rw [List.length_map] at hlength
    obtain rfl : found = true := (length_eq_iff hcollect).mp hlength
    exact ⟨keys, hcollect, rfl, rfl⟩
  noKeys := by
    intro hnil
    rw [List.map_eq_nil_iff.mp hnil]
    rfl

/-- A join whose conditions are complete joins by what is computed for the sets. -/
theorem Kept.joinSets {argument : Str} {ope ope' : JoinOperator} {tupleset1 tupleset2 : TupleSet}
    {result : Option TupleSet} (h : Kept argument ope tupleset1.schema tupleset2.schema true)
    (hfit : ope.isUseHashJoin = true → KeysFit ope tupleset1 tupleset2)
    (hjoin : ope.joinSets tupleset1 tupleset2 = some (ope', result)) :
    Kept argument ope' tupleset1.schema tupleset2.schema true ∧
      (result ≠ none → ∃ now, computed argument tupleset1 tupleset2 now = some ope'.used) := by
  obtain ⟨now, conds, hconds, hconditions, hreverse, huse⟩ := h.conditions
  cases hhash : ope.isUseHashJoin with
  | false =>
    obtain rfl := joinSets_of_nestedLoop hhash hjoin
    refine ⟨h, fun _ => ⟨now, ?_⟩⟩
    rw [computed_eq hconds, ← huse, hhash, used, hhash, hconditions, hreverse]
    rfl
  | true =>
    obtain ⟨found, hsearch, hresult⟩ := joinSets_of_hash hhash hjoin
    obtain ⟨keys, hcollect, rfl⟩ := h.searchKeys hhash (hfit hhash) hsearch
    refine ⟨h.withKeys hcollect, fun hsome => ⟨now, ?_⟩⟩
    obtain rfl : found = true := by
      cases found with
      | false => exact absurd (hresult.mpr rfl) hsome
      | true => rfl
    rw [computed_eq hconds, ← huse, hhash, hcollect, if_pos rfl]
    rfl

/-- A hash join without keys whose search is refused hands nothing on. -/
theorem Kept.joinSets_refused {argument : Str} {ope ope' : JoinOperator} {tupleset1 tupleset2 : TupleSet}
    {result : Option TupleSet} {ok : Bool} (h : Kept argument ope tupleset1.schema tupleset2.schema ok)
    (hhash : ope.isUseHashJoin = true) (hnil : ope.smallKeyIdxList = [])
    (hrefused : KeysRefused argument tupleset1 tupleset2)
    (hjoin : ope.joinSets tupleset1 tupleset2 = some (ope', result)) :
    Kept argument ope' tupleset1.schema tupleset2.schema ok ∧ result = none := by
  obtain ⟨found, hsearch, hresult⟩ := joinSets_of_hash hhash hjoin
  obtain ⟨keys, hcollect, rfl⟩ := h.searchKeys hhash (.inl hnil) hsearch
  obtain ⟨state, hfind, hstate⟩ := hrefused
  obtain ⟨keys', hcollect'⟩ := collect_of_refused hfind hstate
  rw [hcollect'] at hcollect
  cases hcollect
  exact ⟨h.withKeys hcollect', hresult.mpr rfl⟩

/-- The schema stage of a join that has kept nothing. -/
theorem Kept.of_setSchema {ope ope' : JoinOperator} {schema1 schema2 : Schema} {now : Int64} {ok : Bool}
    (hclean : Clean ope) (huse : ope.isUseHashJoin = true → paramList ope.argument ≠ [])
    (h : ope.setSchema schema1 schema2 now = some (ok, ope')) :
    Kept ope.argument ope' schema1 schema2 ok ∧ ope'.smallKeyIdxList = [] := by
  unfold setSchema at h
  rw [Option.map_eq_some_iff] at h
  obtain ⟨⟨ok', conds⟩, hcollect, heq⟩ := h
  cases heq
  refine ⟨⟨rfl, ⟨now, conds, hcollect, ?_, ?_, ?_⟩, ?_, fun _ => hclean.largeKeyIdxList⟩, hclean.smallKeyIdxList⟩
  · simp only [hclean.conditions, List.nil_append]
  · simp only [hclean.isReverseArgList, List.nil_append]
  · cases hhash : ope.isUseHashJoin with
    | false => simp only [Bool.false_or]
    | true =>
      have hparam : (paramList ope.argument).isEmpty = false := by
        simpa using huse hhash
      simp only [hparam, Bool.true_or, Bool.not_false]
  · intro hlength hparam
    rw [hclean.smallKeyIdxList] at hlength
    exact absurd (List.length_eq_zero_iff.mp hlength.symm) hparam

/-- With an empty parameter nothing depends on the schemas. -/
theorem Kept.of_empty {argument : Str} {ope : JoinOperator} {schema1 schema2 : Schema} {ok : Bool}
    (h : Kept argument ope schema1 schema2 ok) (hempty : paramList argument = []) (schema1' schema2' : Schema) :
    Kept argument ope schema1' schema2' true := by
  obtain ⟨now, conds, hcollect, hconditions, hreverse, huse⟩ := h.conditions
  rw [hempty] at hcollect
  cases hcollect
  refine ⟨h.argument_eq, ⟨now, [], by rw [hempty]; rfl, hconditions, hreverse, huse⟩, ?_, h.noKeys⟩
  exact fun _ hparam => absurd hempty hparam

/-- The invariant of a session: every call was sound, and what the join keeps is
that of the schemas its output schema was made for. -/
structure Inv (argument : Str) (s : Session) : Prop where
  argument_eq : s.ope.argument = argument
  sound : Sound argument s
  kept : ∀ schema1 schema2, s.builtFor = some (schema1, schema2) → ∃ ok, Kept argument s.ope schema1 schema2 ok
  hash : s.ope.isUseHashJoin = true → paramList argument ≠ []
  empty : paramList argument = [] → ∀ schema1 schema2, Kept argument s.ope schema1 schema2 true

/-- Before the first call nothing is kept of any set. -/
theorem Inv.init (argument : Str) : Inv argument { ope := { argument } } where
  argument_eq := rfl
  sound := fun r hr => absurd hr List.not_mem_nil
  kept := fun _ _ hbuilt => by cases hbuilt
  hash := fun huse => by cases huse
  empty := by
    intro hempty schema1 schema2
    refine ⟨rfl, ⟨0, [], by rw [hempty]; rfl, rfl, rfl, by rw [hempty]; rfl⟩, ?_, fun _ => rfl⟩
    exact fun _ hparam => absurd hempty hparam

/-- What a call joins of complete conditions is sound. -/
theorem Kept.sound {argument : Str} {ope ope' : JoinOperator} {tupleset1 tupleset2 : TupleSet}
    {result : Option TupleSet} (h : Kept argument ope tupleset1.schema tupleset2.schema true)
    (hread : ∀ state ∈ paramList argument, ¬ Misread tupleset1.schema tupleset2.schema state)
    (hfit : ope.isUseHashJoin = true → KeysFit ope tupleset1 tupleset2)
    (hjoin : ope.joinSets tupleset1 tupleset2 = some (ope', result)) (rest : List TupleSet) :
    Record.Sound argument ⟨tupleset1 :: tupleset2 :: rest, ope'.used, result⟩ ∧
      ∃ ok, Kept argument ope' tupleset1.schema tupleset2.schema ok := by
  obtain ⟨hkept, hcomputed⟩ := h.joinSets hfit hjoin
  exact ⟨⟨fun hinvalid => absurd hinvalid (h.not_invalid hread), hcomputed⟩, true, hkept⟩

/-- One call of two sets: it is sound, and the join keeps what is of their schemas. -/
theorem Inv.process {argument : Str} {s : Session} {now : Int64} {tupleset1 tupleset2 : TupleSet}
    {rest : List TupleSet} (h : Inv argument s) (horderly : Orderly s ⟨now, tupleset1 :: tupleset2 :: rest⟩)
    {ope' : JoinOperator} {result : Option TupleSet}
    (hprocess : s.ope.process now (tupleset1 :: tupleset2 :: rest) = some (ope', result)) :
    Record.Sound argument ⟨tupleset1 :: tupleset2 :: rest, ope'.used, result⟩ ∧
      ∃ ok, Kept argument ope' tupleset1.schema tupleset2.schema ok := by
  unfold JoinOperator.process at hprocess
  unfold Orderly at horderly
  obtain rfl := h.argument_eq
  obtain ⟨hread, horderly⟩ := horderly
  by_cases hrebuilds : s.ope.Rebuilds tupleset1.schema tupleset2.schema
  · simp only [if_pos hrebuilds] at hprocess horderly
    obtain ⟨hclean, -⟩ := horderly
    split at hprocess
    · cases hprocess
    · next ope hset =>
      cases hprocess
      obtain ⟨hkept, -⟩ := Kept.of_setSchema hclean h.hash hset
      exact ⟨⟨fun _ => rfl, fun hsome => absurd rfl hsome⟩, false, hkept⟩
    · next ope hset =>
      obtain ⟨hkept, hnil⟩ := Kept.of_setSchema hclean h.hash hset
      exact hkept.sound hread (fun _ => .inl hnil) hprocess rest
  · simp only [if_neg hrebuilds] at hprocess horderly
    rcases horderly with hempty | ⟨hbuilt, hfits⟩
    · exact (h.empty hempty _ _).sound hread (fun hhash => absurd hempty (h.hash hhash)) hprocess rest
    · obtain ⟨ok, hkept⟩ := h.kept _ _ hbuilt
      rcases hfits with ⟨hcomplete, hfit⟩ | ⟨hhash, hnil, hrefused, -⟩
      · obtain rfl := hkept.complete_iff.mp hcomplete
        exact hkept.sound hread hfit hprocess rest
      · obtain ⟨hkept', rfl⟩ := hkept.joinSets_refused hhash hnil hrefused hprocess
        exact ⟨⟨fun _ => rfl, fun hsome => absurd rfl hsome⟩, ok, hkept'⟩

/-- A call that meets the condition keeps what the statements and the keys say of the last two
sets. -/
theorem Inv.step {argument : Str} {s s' : Session} {c : Call} (h : Inv argument s) (horderly : Orderly s c)
    (hstep : step s c = .ok s') : Inv argument s' := by
  obtain ⟨now, ts⟩ := c
  unfold JoinOperator.step at hstep
  split at hstep
  · cases hstep
  · next ope result hprocess =>
    cases hstep
    match ts, horderly, hprocess with
    | [], _, hprocess =>
      cases hprocess
      exact ⟨h.argument_eq, List.forall_mem_cons.mpr ⟨rfl, h.sound⟩, h.kept, h.hash, h.empty⟩
    | [_], _, hprocess =>
      cases hprocess
      exact ⟨h.argument_eq, List.forall_mem_cons.mpr ⟨rfl, h.sound⟩, h.kept, h.hash, h.empty⟩
    | tupleset1 :: tupleset2 :: rest, horderly, hprocess =>
      obtain ⟨hsound, ok, hkept⟩ := h.process horderly hprocess
      refine ⟨hkept.argument_eq, List.forall_mem_cons.mpr ⟨hsound, h.sound⟩, ?_, hkept.paramList_ne_nil,
        hkept.of_empty⟩
      intro schema1 schema2 hbuilt
      by_cases hempty : paramList argument = []
      · exact ⟨true, hkept.of_empty hempty schema1 schema2⟩
      · have hsame : some (tupleset1.schema, tupleset2.schema) = some (schema1, schema2) := by
          rw [← hbuilt]
          unfold Orderly at horderly
          obtain ⟨-, horderly⟩ := horderly
          by_cases hrebuilds : s.ope.Rebuilds tupleset1.schema tupleset2.schema
          · simp only [if_pos hrebuilds]
          · simp only [if_neg hrebuilds, h.argument_eq, hempty, false_or] at horderly ⊢
            exact horderly.1.symm
        cases hsame
        exact ⟨ok, hkept⟩

/-- A call whose keys are refused raises no exception. -/
private theorem joinSets_ne_none_of_refused {ope : JoinOperator} {tupleset1 tupleset2 : TupleSet}
    (hhash : ope.isUseHashJoin = true) (hnil : ope.smallKeyIdxList = [])
    (hrefused : KeysRefused ope.argument tupleset1 tupleset2) : ope.joinSets tupleset1 tupleset2 ≠ none := by
  obtain ⟨state, hfind, hstate⟩ := hrefused
  obtain ⟨keys, hcollect⟩ := collect_of_refused hfind hstate
  have hturn : ope.turnKeys (reversed tupleset1 tupleset2) =
      { ope with isReverse := reversed tupleset1 tupleset2 } := by
    rw [turnKeys, if_neg]
    simp [hnil]
  simp [joinSets, hashJoin, searchKeys, hhash, hturn, hnil, hcollect]

/-- No call with an invalid parameter ends in an exception. -/
theorem Inv.not_invalidSets {argument : Str} {s : Session} {c : Call} {ts : List TupleSet} (h : Inv argument s)
    (horderly : Orderly s c) (hstep : JoinOperator.step s c = .error ts) : ¬ InvalidSets argument ts := by
  obtain ⟨now, ts'⟩ := c
  unfold JoinOperator.step at hstep
  split at hstep
  · next hprocess =>
    cases hstep
    match ts', horderly, hprocess with
    | [], _, _ => exact id
    | [_], _, _ => exact id
    | tupleset1 :: tupleset2 :: rest, horderly, hprocess =>
      intro hinvalid
      unfold JoinOperator.process at hprocess
      unfold Orderly at horderly
      obtain rfl := h.argument_eq
      obtain ⟨hread, horderly⟩ := horderly
      by_cases hrebuilds : s.ope.Rebuilds tupleset1.schema tupleset2.schema
      · simp only [if_pos hrebuilds] at hprocess horderly
        obtain ⟨hclean, hraises⟩ := horderly
        split at hprocess
        · next hset =>
          obtain ⟨state, hfind, hnone⟩ := collect_eq_none (Option.map_eq_none_iff.mp hset)
          exact hraises hinvalid state hfind hnone
        · cases hprocess
        · next ope hset => exact (Kept.of_setSchema hclean h.hash hset).1.not_invalid hread hinvalid
      · simp only [if_neg hrebuilds] at hprocess horderly
        rcases horderly with hempty | ⟨hbuilt, hfits⟩
        · exact (h.empty hempty _ _).not_invalid hread hinvalid
        · obtain ⟨ok, hkept⟩ := h.kept _ _ hbuilt
          rcases hfits with ⟨hcomplete, -⟩ | ⟨hhash, hnil, hrefused, -⟩
          · obtain rfl := hkept.complete_iff.mp hcomplete
            exact hkept.not_invalid hread hinvalid
          · exact joinSets_ne_none_of_refused hhash hnil hrefused hprocess
  · cases hstep

/-- In every sequence of calls that all meet the condition, a call whose
parameter is invalid returns false, and what a call joins is joined by the
conditions or the keys computed for its schemas. -/
theorem sound_of_orderly (argument : Str) (calls : List Call)
    (horderly : Along step Orderly { ope := { argument } } calls) :
    Throughout step (InvalidSets argument) (Sound argument) { ope := { argument } } calls := by
  have hinv : Throughout step (InvalidSets argument) (Inv argument) { ope := { argument } } calls :=
    Throughout.of_along (fun _ _ _ h hc hstep => h.step hc hstep)
      (fun _ _ _ h hc hstep => h.not_invalidSets hc hstep) (Inv.init argument) horderly
  exact hinv.imp fun _ h => h.sound

/-- A call that builds its statements anew on a clean operator meets the condition, if no
statement is misread. -/
private theorem orderly_of_rebuilds {s : Session} {now : Int64} {tupleset1 tupleset2 : TupleSet} {rest : List TupleSet}
    (hread : ∀ state ∈ paramList s.ope.argument, ¬ Misread tupleset1.schema tupleset2.schema state)
    (hrebuilds : s.ope.Rebuilds tupleset1.schema tupleset2.schema) (hclean : Clean s.ope)
    (hraises : Invalid s.ope.argument tupleset1.schema tupleset2.schema →
      ∀ state, (paramList s.ope.argument).find? (fun state =>
          (statement tupleset1.schema tupleset2.schema now state).join.isNone) = some state →
        statement tupleset1.schema tupleset2.schema now state ≠ none) :
    Orderly s ⟨now, tupleset1 :: tupleset2 :: rest⟩ := by
  simp only [Orderly, if_pos hrebuilds]
  exact ⟨hread, hclean, hraises⟩

private theorem orderly_of_fits {s : Session} {now : Int64} {tupleset1 tupleset2 : TupleSet} {rest : List TupleSet}
    (hread : ∀ state ∈ paramList s.ope.argument, ¬ Misread tupleset1.schema tupleset2.schema state)
    (hrebuilds : ¬ s.ope.Rebuilds tupleset1.schema tupleset2.schema)
    (hbuilt : s.builtFor = some (tupleset1.schema, tupleset2.schema)) (hfits : Fits s.ope tupleset1 tupleset2) :
    Orderly s ⟨now, tupleset1 :: tupleset2 :: rest⟩ := by
  simp only [Orderly, if_neg hrebuilds]
  exact ⟨hread, .inr ⟨hbuilt, hfits⟩⟩

/-- A stream with one column, and a set of one tuple of it. -/
def oneColumn (tablename column : Str) (v : Int32) : TupleSet :=
  { schema :=
      { tablename
        attributes := [{ name := column, type := "int".toList }]
        colNameIdxMap := [(column, 0)] }
    tuples := [{ columns := [{ value := .scalar .int v }] }] }

/-- A call with a set of each of two streams. -/
def twoStreams (x y : Int32) : Call :=
  { now := 0, ts := [oneColumn "a".toList "x".toList x, oneColumn "b".toList "y".toList y] }

/-- The statements of a parameter name no column that neither side has, or none
that is read as a literal. -/
theorem not_misread {schema1 schema2 : Schema} {states : List Str}
    (h : ∀ state ∈ states, ∀ sides ∈ operands state,
      (¬ Missing schema1 schema2 sides.1 ∧ ¬ Missing schema1 schema2 sides.2) ∨
        ¬ AsLiteral (joinSchema schema1 schema2) sides.1 sides.2 ∧
          ¬ AsLiteral (joinSchema schema1 schema2) sides.2 sides.1) :
    ∀ state ∈ states, ¬ Misread schema1 schema2 state := by
  rintro state hstate ⟨⟨sides, hsides, hmissing⟩, sides', hsides', hliteral⟩
  cases Option.some.inj (hsides.symm.trans hsides')
  rcases h state hstate sides hsides with ⟨h1, h2⟩ | ⟨h1, h2⟩
  · exact hmissing.elim h1 h2
  · exact hliteral.elim h1 h2

/-- The statement `a.x=b.z` does not compare the number `a.x` with a literal. -/
theorem not_misread_missingColumn :
    ∀ state ∈ paramList "a.x=b.z".toList,
      ¬ Misread (oneColumn "a".toList "x".toList 7).schema (oneColumn "b".toList "y".toList 7).schema state := by
  refine not_misread fun state hstate sides hsides => .inr ⟨?_, ?_⟩
  all_goals
    cases List.mem_singleton.mp hstate
    cases (rfl : operands "a.x=b.z".toList = some ("a.x".toList, "b.z".toList)).symm.trans hsides
  · rintro ⟨-, -, idx, now, literal, hidx, hresolve, hvalue⟩
    cases (rfl : _ = some (0 : Int)).symm.trans hidx
    rw [Condition.resolveNow, if_neg (by decide), if_neg (by decide)] at hresolve
    cases hresolve
    exact hvalue rfl
  · rintro ⟨hexist, -⟩
    revert hexist
    decide

/-- Two calls with a condition on columns that are there, where the second set has another
schema the second time, and two calls with a condition on a column that neither set has. -/
theorem sound_of_orderly_twice :
    Throughout step (InvalidSets "a.x=b.y".toList) (Sound "a.x=b.y".toList) { ope := { argument := "a.x=b.y".toList } }
        [twoStreams 7 7, twoStreams 7 8] ∧
      Throughout step (InvalidSets "a.x=b.z".toList) (Sound "a.x=b.z".toList)
        { ope := { argument := "a.x=b.z".toList } } [twoStreams 7 7, twoStreams 7 7] := by
  constructor
  · have hread : ∀ state ∈ paramList "a.x=b.y".toList,
        ¬ Misread (oneColumn "a".toList "x".toList 7).schema (oneColumn "b".toList "y".toList 7).schema state := by
      refine not_misread fun state hstate sides hsides => .inl ?_
      cases List.mem_singleton.mp hstate
      cases (rfl : operands "a.x=b.y".toList = some ("a.x".toList, "b.y".toList)).symm.trans hsides
      decide
    refine sound_of_orderly "a.x=b.y".toList [twoStreams 7 7, twoStreams 7 8] ⟨?_, ?_, trivial⟩
    · refine orderly_of_rebuilds hread (by decide +kernel) ⟨rfl, rfl, rfl, rfl⟩ fun _ state hfind => ?_
      cases (rfl : _ = none).symm.trans hfind
    · refine orderly_of_fits hread (by decide +kernel) rfl (.inl ⟨rfl, fun _ => .inr ⟨rfl, .inl rfl⟩⟩)
  · refine sound_of_orderly "a.x=b.z".toList [twoStreams 7 7, twoStreams 7 7] ⟨?_, ?_, trivial⟩
    · refine orderly_of_rebuilds not_misread_missingColumn (by decide +kernel) ⟨rfl, rfl, rfl, rfl⟩ ?_
      intro _ state hfind
      cases (rfl : _ = some "a.x=b.z".toList).symm.trans hfind
      exact fun h => by cases (rfl : _ = some none).symm.trans h
    · refine orderly_of_fits not_misread_missingColumn (by decide +kernel) rfl (.inr ⟨rfl, rfl, ?_, by decide⟩)
      exact ⟨"a.x=b.z".toList, rfl, rfl⟩

/-- The second call does not look at the statement that the first one failed at. -/
theorem missingColumn_not_sound :
    Invalid "a.x>0 AND a.x=b.z".toList (oneColumn "a".toList "x".toList 7).schema
        (oneColumn "b".toList "y".toList 7).schema ∧
      ¬ Throughout step (InvalidSets "a.x>0 AND a.x=b.z".toList) (Sound "a.x>0 AND a.x=b.z".toList)
        { ope := { argument := "a.x>0 AND a.x=b.z".toList } } [twoStreams 7 7, twoStreams 7 7] := by
  have hinvalid : Invalid "a.x>0 AND a.x=b.z".toList (oneColumn "a".toList "x".toList 7).schema
      (oneColumn "b".toList "y".toList 7).schema :=
    .inr ⟨"a.x=b.z".toList, by decide, ("a.x".toList, "b.z".toList), rfl, .inr (by decide)⟩
  refine ⟨hinvalid, fun h => ?_⟩
  have hfinal := h.final (rfl : run step { ope := { argument := "a.x>0 AND a.x=b.z".toList } }
    [twoStreams 7 7, twoStreams 7 7] = .ok _)
  have hrefused := (hfinal _ List.mem_cons_self).1 hinvalid
  cases hrefused

end JoinOperator

end IS

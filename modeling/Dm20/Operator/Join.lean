import Dm20.Lib.Collect
import Dm20.Operator.TwoInput
import Dm20.Query.Condition

open Collect

namespace IS

open StringUtil

/-- The value of a column. One that does not exist leaves what was read before. -/
def Tuple.readByIdx (t : Tuple) (idx : Int) (val : Any) : Any :=
  if 0 ≤ idx then (t.getValueByIdx idx.toNat).getD val else val

/-- A join with what it keeps from one call to the next: the conditions, with
the side that the column of each is on, and the keys of the two sets. -/
structure JoinOperator where
  argument : Str
  conditions : List Condition := []
  isReverseArgList : List Bool := []
  outputSchema : Schema := {}
  isUseHashJoin : Bool := false
  smallKeyIdxList : List Int := []
  largeKeyIdxList : List Int := []
  isReverse : Bool := false

namespace JoinOperator

/-- The statements of a join parameter. -/
def paramList (argument : Str) : List Str :=
  split argument " AND ".toList

def joinSchema (schema1 schema2 : Schema) : Schema :=
  (Schema.addAttributes (Schema.copyAttributes
    { tablename := schema1.tablename, tabletype := schema1.tabletype } schema1) schema2)

/-- The condition with the indexes of its columns in the two sets, and the sides
noted for it. `some none` is a column that is missing on its side, `none` an
exception. A column that neither set has leaves no side. -/
def place (schema1 schema2 : Schema) (cond : Condition) : Option (Option (Condition × List Bool)) := do
  if cond.fieldIdx ≠ -1 ∧ cond.fieldIdx2 ≠ -1 then
    let inOrder ← if ← schema1.isExistAttribute cond.fieldName then schema2.isExistAttribute cond.fieldName2
      else some false
    if inOrder then
      let fieldIdx ← schema1.getAttributeIdx cond.fieldName
      let fieldIdx2 ← schema2.getAttributeIdx cond.fieldName2
      return some ({ cond with fieldIdx, fieldIdx2 }, [false])
    let inReverse ← if ← schema1.isExistAttribute cond.fieldName2 then schema2.isExistAttribute cond.fieldName
      else some false
    if inReverse then
      let fieldIdx ← schema2.getAttributeIdx cond.fieldName
      let fieldIdx2 ← schema1.getAttributeIdx cond.fieldName2
      return some ({ cond with fieldIdx, fieldIdx2 }, [true])
    return none
  else
    if ← schema1.isExistAttribute cond.fieldName then
      let fieldIdx ← schema1.getAttributeIdx cond.fieldName
      return some ({ cond with fieldIdx }, [false])
    if ← schema2.isExistAttribute cond.fieldName then
      let fieldIdx ← schema2.getAttributeIdx cond.fieldName
      return some ({ cond with fieldIdx }, [true])
    return some (cond, [])

/-- The condition of a statement. `some none` is a statement that is not
understood, `none` an exception. -/
def statement (schema1 schema2 : Schema) (now : Int64) (state : Str) : Option (Option (Condition × List Bool)) := do
  let (understood, cond) ← Condition.getCondition (joinSchema schema1 schema2) (deleteSpace state) {} now
  if understood then place schema1 schema2 cond else return none

/-- Whether the output schema is made anew for the two sets. -/
def Rebuilds (ope : JoinOperator) (schema1 schema2 : Schema) : Prop :=
  ope.outputSchema.getAttributeSize = 0 ∨
    ope.outputSchema.getAttributeSize ≠ schema1.getAttributeSize + schema2.getAttributeSize

instance (ope : JoinOperator) (schema1 schema2 : Schema) : Decidable (ope.Rebuilds schema1 schema2) :=
  inferInstanceAs (Decidable (_ ∨ _))

/-- Makes the output schema and adds the conditions of the statements, up to one
that is not understood. A comparator other than `=` rules the hash join out. -/
def setSchema (ope : JoinOperator) (schema1 schema2 : Schema) (now : Int64) : Option (Bool × JoinOperator) :=
  (collect (statement schema1 schema2 now) (paramList ope.argument)).map fun (ok, conds) =>
    (ok,
      { ope with
        outputSchema := joinSchema schema1 schema2
        conditions := ope.conditions ++ conds.map Prod.fst
        isReverseArgList := ope.isReverseArgList ++ conds.flatMap Prod.snd
        isUseHashJoin := (ope.isUseHashJoin || !(paramList ope.argument).isEmpty) &&
          conds.all fun c => decide (c.1.cond = some .EQ) })

/-- The key columns of a statement in the smaller and the larger set. The
smaller one has to have the column of one side only. -/
def keyPair (smallSchema largeSchema : Schema) (state : Str) : Option (Option (Int × Int)) := do
  match split (deleteSpace state) "=".toList with
  | [left, right] =>
    let existLeft ← smallSchema.isExistAttribute left
    let existRight ← smallSchema.isExistAttribute right
    if !existLeft && existRight then
      return some (← smallSchema.getAttributeIdx right, ← largeSchema.getAttributeIdx left)
    if existLeft && !existRight then
      return some (← smallSchema.getAttributeIdx left, ← largeSchema.getAttributeIdx right)
    return none
  | _ => return none

/-- Notes which set is the smaller one, and exchanges the keys of an earlier call
where it was the other one. -/
def turnKeys (ope : JoinOperator) (reverse : Bool) : JoinOperator :=
  if ope.smallKeyIdxList.length ≠ 0 ∧ ope.isReverse ≠ reverse then
    { ope with
      smallKeyIdxList := ope.largeKeyIdxList, largeKeyIdxList := ope.smallKeyIdxList, isReverse := reverse }
  else { ope with isReverse := reverse }

/-- Looks for the keys where there are none, up to a statement without keys. -/
def searchKeys (ope : JoinOperator) (smallSchema largeSchema : Schema) : Option (Bool × JoinOperator) :=
  if ope.smallKeyIdxList.length = 0 then
    (collect (keyPair smallSchema largeSchema) (paramList ope.argument)).map fun (ok, keys) =>
      (ok,
        { ope with
          smallKeyIdxList := ope.smallKeyIdxList ++ keys.map Prod.fst
          largeKeyIdxList := ope.largeKeyIdxList ++ keys.map Prod.snd })
  else some (true, ope)

/-- The text of the key columns of a tuple, and the value read last. -/
def joinKey (keyIdxList : List Int) (t : Tuple) (val : Any) : Str × Any :=
  keyIdxList.foldl (fun (key, val) idx =>
    let val := t.readByIdx idx val
    ((if key.length ≠ 0 then key ++ "_".toList else key) ++ getAnyString val, val)) ([], val)

/-- The tuples with their keys, read one after the other. -/
def joinKeys (keyIdxList : List Int) : List Tuple → Any → List (Str × Tuple) × Any
  | [], val => ([], val)
  | t :: tuples, val =>
    let (key, val) := joinKey keyIdxList t val
    let (keys, val) := joinKeys keyIdxList tuples val
    ((key, t) :: keys, val)

/-- Writes the columns of two tuples one after the other into a tuple. -/
def join (tuple1 tuple2 joinTuple : Tuple) : Tuple :=
  (tuple1.columns ++ tuple2.columns).zipIdx.foldl (fun joinTuple (c, dst_index) =>
    joinTuple.setValue dst_index c.value c.timestamp false) joinTuple

/-- The joined tuples of the pairs, all written into one tuple after the other. -/
def joinTuples (size : Nat) (pairs : List (Tuple × Tuple)) : List Tuple :=
  (pairs.foldl (fun (joinTuple, joined) (tuple1, tuple2) =>
    let joinTuple := join tuple1 tuple2 joinTuple
    (joinTuple, joined ++ [joinTuple])) ({ columns := List.replicate size {} }, [])).2

/-- The pairs of tuples with the same key, in the order of the larger set. -/
def hashPairs (ope : JoinOperator) (smallSet largeSet : TupleSet) : List (Tuple × Tuple) :=
  let (hashTable, val) := joinKeys ope.smallKeyIdxList smallSet.tuples .void
  let (keys, _) := joinKeys ope.largeKeyIdxList largeSet.tuples val
  keys.flatMap fun (key, large) =>
    (hashTable.filter fun (smallKey, _) => decide (smallKey = key)).map fun (_, small) =>
      if ope.isReverse then (large, small) else (small, large)

/-- Whether a condition holds of two tuples, and the values read last. `none`
where no side was noted for the condition. -/
def matchCondition (ope : JoinOperator) (tuple1 tuple2 : Tuple) (cond : Condition) (idx : Nat) (vals : Any × Any) :
    Option (Bool × Any × Any) :=
  ope.isReverseArgList[idx]?.map fun reverse =>
    let val := (if reverse then tuple2 else tuple1).readByIdx cond.fieldIdx vals.1
    if cond.valuePosition ≠ .nothing then (cond.isMatchCondition val, val, vals.2)
    else
      let val2 := (if reverse then tuple1 else tuple2).readByIdx cond.fieldIdx2 vals.2
      (cond.isMatchCondition2 val val2, val, val2)

/-- Whether all conditions hold of two tuples; those behind one that does not
are not looked at. -/
def matchConditions (ope : JoinOperator) (tuple1 tuple2 : Tuple) :
    List (Condition × Nat) → Any × Any → Option (Bool × Any × Any)
  | [], vals => some (true, vals)
  | (cond, idx) :: conds, vals =>
    match ope.matchCondition tuple1 tuple2 cond idx vals with
    | none => none
    | some (true, vals) => matchConditions ope tuple1 tuple2 conds vals
    | some (false, vals) => some (false, vals)

/-- The pairs of tuples all conditions hold of, looked for one after the other. -/
def matchPairs (ope : JoinOperator) : List (Tuple × Tuple) → Any × Any → Option (List (Tuple × Tuple))
  | [], _ => some []
  | (tuple1, tuple2) :: pairs, vals =>
    match ope.matchConditions tuple1 tuple2 ope.conditions.zipIdx vals with
    | none => none
    | some (matched, vals) =>
      (ope.matchPairs pairs vals).map fun rest => if matched then (tuple1, tuple2) :: rest else rest

/-- Whether the second set is the smaller one, or as large as the first one. -/
def reversed (tupleset1 tupleset2 : TupleSet) : Bool :=
  decide (tupleset2.size ≤ tupleset1.size)

/-- The smaller and the larger of two sets. -/
def smallLarge {α : Type} (reverse : Bool) (first second : α) : α × α :=
  if reverse then (second, first) else (first, second)

/-- Joins by the keys. The sets change places where the first one is not the
smaller one, so the second result is the set that is in the first place then. -/
def hashJoin (ope : JoinOperator) (tupleset1 tupleset2 : TupleSet) :
    Option (JoinOperator × Option (List Tuple × TupleSet)) :=
  let reverse := reversed tupleset1 tupleset2
  let sets := smallLarge reverse tupleset1 tupleset2
  let schemas := smallLarge reverse tupleset1.schema tupleset2.schema
  ((ope.turnKeys reverse).searchKeys schemas.1 schemas.2).map fun (ok, ope) =>
    (ope,
      if ok then
        some (joinTuples ope.outputSchema.getAttributeSize (ope.hashPairs sets.1 sets.2), sets.1)
      else none)

def nestedLoopJoin (ope : JoinOperator) (tupleset1 tupleset2 : TupleSet) : Option (List Tuple) :=
  (ope.matchPairs (tupleset1.tuples.product tupleset2.tuples) (.void, .void)).map
    (joinTuples ope.outputSchema.getAttributeSize)

/-- The set handed on: the joined tuples with the information of a set. -/
def output (ope : JoinOperator) (tuples : List Tuple) (info tupleset1 tupleset2 : TupleSet) : TupleSet :=
  { schema := ope.outputSchema
    tuples
    type := info.type
    recvTime := info.recvTime
    isRecursive := tupleset1.isRecursive || tupleset2.isRecursive }

def joinSets (ope : JoinOperator) (tupleset1 tupleset2 : TupleSet) : Option (JoinOperator × Option TupleSet) :=
  if ope.isUseHashJoin then
    (ope.hashJoin tupleset1 tupleset2).map fun (ope, joined) =>
      (ope, joined.map fun (tuples, info) => ope.output tuples info tupleset1 tupleset2)
  else
    (ope.nestedLoopJoin tupleset1 tupleset2).map fun tuples =>
      (ope, some (ope.output tuples tupleset1 tupleset1 tupleset2))

/-- Joins two sets. Without a result the call returned false; `none` is an
exception, which ends the process. -/
def process (ope : JoinOperator) (now : Int64) (ts : List TupleSet) : Option (JoinOperator × Option TupleSet) :=
  match ts with
  | tupleset1 :: tupleset2 :: _ =>
    match (if ope.Rebuilds tupleset1.schema tupleset2.schema then ope.setSchema tupleset1.schema tupleset2.schema now
      else some (true, ope)) with
    | none => none
    | some (false, ope) => some (ope, none)
    | some (true, ope) => ope.joinSets tupleset1 tupleset2
  | _ => some (ope, none)

end JoinOperator

end IS

import Dm20.Lib.Run
import Dm20.Operator.TwoInput
import Dm20.TupleLib.DataType

open Run

namespace IS

open StringUtil

/-- A union with the numbers of attributes of the two sets it last checked. -/
structure UnionOperator where
  previousAttrSize1 : Nat := 0
  previousAttrSize2 : Nat := 0

namespace UnionOperator

/-- The number of columns of a set, without the hidden ones of a stream. -/
def colSize (schema : Schema) : Nat :=
  if schema.tabletype = Schema.STREAM then schema.attributes.countP fun attr => !attr.hidden
  else schema.getAttributeSize

/-- Compares the types of the columns that are not hidden with those of the columns
of the other set, from the first one on. `none` is an exception. -/
def checkTypes (schema2 : Schema) : List Attribute → Nat → Option Bool
  | [], _ => some true
  | attr :: attrs, j =>
    if attr.hidden then checkTypes schema2 attrs j
    else do
      if ← checkDataTypeMatches attr.type (schema2.getAttribute j).type then checkTypes schema2 attrs (j + 1)
      else return false

def checkSchema (schema1 schema2 : Schema) : Option Bool :=
  if colSize schema1 ≠ colSize schema2 then some false else checkTypes schema2 schema1.attributes 0

/-- Whether the numbers of attributes are those of the sets checked last. -/
def Remembered (ope : UnionOperator) (schema1 schema2 : Schema) : Prop :=
  ope.previousAttrSize1 = schema1.getAttributeSize ∧ ope.previousAttrSize2 = schema2.getAttributeSize

instance (ope : UnionOperator) (schema1 schema2 : Schema) : Decidable (ope.Remembered schema1 schema2) :=
  inferInstanceAs (Decidable (_ ∧ _))

/-- The tuples of the second set behind those of the first one. -/
def unionTuple (tupleset1 tupleset2 : TupleSet) : TupleSet :=
  { tupleset1 with
    tuples := tupleset1.tuples ++ tupleset2.tuples
    isRecursive := tupleset1.isRecursive || tupleset2.isRecursive }

/-- Unites two sets in place; the last set of the vector is removed. Without a
result the call returned false; `none` is an exception. -/
def process (ope : UnionOperator) (ts : List TupleSet) : Option (UnionOperator × Option (List TupleSet)) :=
  match ts with
  | [] => some (ope, none)
  | [tupleset] => some (ope, some [tupleset])
  | tupleset1 :: tupleset2 :: rest =>
    let isRecursive := tupleset1.isRecursive || tupleset2.isRecursive
    if tupleset1.size = 0 ∧ tupleset2.size ≠ 0 then
      some (ope, some (tupleset1 :: { tupleset2 with isRecursive } :: rest).reverse.dropLast)
    else if tupleset1.size ≠ 0 ∧ tupleset2.size = 0 then
      some (ope, some ({ tupleset1 with isRecursive } :: tupleset2 :: rest).dropLast)
    else
      let united := (unionTuple tupleset1 tupleset2 :: tupleset2 :: rest).dropLast
      if ope.Remembered tupleset1.schema tupleset2.schema then some (ope, some united)
      else
        -- what was checked is remembered before the answer is known
        let ope : UnionOperator :=
          { previousAttrSize1 := tupleset1.schema.getAttributeSize
            previousAttrSize2 := tupleset2.schema.getAttributeSize }
        (checkSchema tupleset1.schema tupleset2.schema).map fun matched =>
          (ope, if matched then some united else none)

/-- The set that the worker hands on after a call: the first one of the vector. -/
def emitted (result : Option (List TupleSet)) : Option TupleSet :=
  result.bind List.head?

end UnionOperator

end IS

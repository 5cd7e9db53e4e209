import Dm20.Query.Comparator
import Dm20.TupleLib.Schema
import Dm20.TupleLib.Value

namespace IS

open StringUtil

/-- The side of a comparator the literal stands on; `nothing` between two columns. -/
inductive ValPos where
  | left
  | right
  | nothing
deriving DecidableEq, Repr

/-- A parsed predicate: the columns by name and index, and the literal. -/
structure Condition where
  fieldName : Str := []
  fieldName2 : Str := []
  fieldIdx : Int := -1
  fieldIdx2 : Int := -1
  cond : Option Comparator := none
  val : Any := .void
  valuePosition : ValPos := .nothing
deriving Inhabited

namespace Condition

/-- The texts of the comparators, in the order they are looked for. -/
def comparatorTexts : List (Comparator × Str) :=
  [(.LE, "<=".toList), (.GE, ">=".toList), (.NE, "<>".toList), (.NE, "!=".toList),
   (.EQ, "=".toList), (.LT, "<".toList), (.GT, ">".toList)]

/-- The first comparator whose text occurs in a predicate. -/
def findComparator (state : Str) : Option (Comparator × Str) :=
  comparatorTexts.find? fun (_, text) => contain state text

/-- The start of 2004 in the time of intelligent transport systems, in
milliseconds of Unix time. -/
def itsOffset : Int64 := 1072915195000

/-- The arithmetic behind a word for the current time: the first of the
operators that occurs, with the number behind it. `none` is a division by zero,
which ends the process. -/
def nowArithmetic (now : Int64) (text : Str) : Option (Except ConversionError Int64) :=
  let operand (op : Str) (f : Int64 → Option Int64) : Option (Except ConversionError Int64) :=
    match split text op with
    | _ :: n :: _ =>
      match stol n with
      | .error e => some (.error e)
      | .ok n => (f n).map .ok
    | _ => some (.ok now)
  if contain text "+".toList then operand "+".toList fun n => some (now + n)
  else if contain text "-".toList then operand "-".toList fun n => some (now - n)
  else if contain text "*".toList then operand "*".toList fun n => some (now * n)
  else if contain text "/".toList then
    operand "/".toList fun n => if n = 0 then none else some (now / n)
  else if contain text "%".toList then
    operand "%".toList fun n => if n = 0 then none else some (now % n)
  else some (.ok now)

/-- The text of a literal, with a word for the current time replaced by it. -/
def resolveNow (now : Int64) (text : Str) : Option (Except ConversionError Str) :=
  let timeText (r : Except ConversionError Int64) : Except ConversionError Str := r.map fun n => to_string_int n.toInt
  if contain text "unix_now".toList || contain text "UNIX_NOW".toList then
    (nowArithmetic now text).map timeText
  else if contain text "its_now".toList || contain text "ITS_NOW".toList then
    (nowArithmetic (now - itsOffset) text).map timeText
  else some (.ok text)

/-- The value of a number literal: a double with a point, a `long` with a minus
sign, an `unsigned long long` otherwise. A literal out of range has no value. -/
def numberLiteral (text : Str) : Any :=
  if contain text ".".toList then getAnyValFromString text "double".toList
  else if contain text "-".toList then getAnyValFromString text "long".toList
  else getAnyValFromString text "ulong".toList

/-- The value of a literal compared with a column of the given type; `none`
where it has none and the predicate is refused. -/
def literalValue (text type : Str) : Option Any :=
  if isNumber text then some (numberLiteral text)
  else if isString text then
    some (getAnyValFromString (deleteStrings text "'".toList) "string".toList)
  else
    match getAnyValFromString text type with
    | .void => none
    | val => some val

/-- The condition on a column and a literal, and whether it was understood. -/
def columnLiteral (schema : Schema) (cond : Condition) (name text : Str) (pos : ValPos) (now : Int64) :
    Option (Bool × Condition) := do
  let cond := { cond with fieldName := name, valuePosition := pos }
  match ← resolveNow now text with
  | .error _ => some (false, cond)
  | .ok text =>
    let idx ← schema.getAttributeIdx name
    let cond := { cond with fieldIdx := idx }
    if idx = -1 then some (false, cond)
    else
      match literalValue text (schema.getAttribute idx.toNat).type with
      | none => some (false, cond)
      | some val => some (true, { cond with val := val })

/-- The condition on two columns, and whether both were found. -/
def twoColumns (schema : Schema) (cond : Condition) (name1 name2 : Str) (exist1 exist2 : Bool) :
    Option (Bool × Condition) := do
  let cond := { cond with fieldName := name1, fieldName2 := name2 }
  let idx1 ← if exist1 then schema.getAttributeIdx name1 else some cond.fieldIdx
  let idx2 ← if exist2 then schema.getAttributeIdx name2 else some cond.fieldIdx2
  let cond := { cond with fieldIdx := idx1, fieldIdx2 := idx2 }
  if idx1 = -1 ∨ idx2 = -1 then some (false, cond)
  else some (true, { cond with valuePosition := .nothing })

/-- Parses one predicate into a condition. The flag says whether it was
understood. `none` is an exception or the end of the process: no comparator in
the predicate, no attribute in the schema, a division by zero. -/
def getCondition (schema : Schema) (state : Str) (cond : Condition) (now : Int64) :
    Option (Bool × Condition) := do
  let (c, text) ← findComparator state
  let cond := { cond with cond := some c }
  match split state text with
  | s0 :: s1 :: _ =>
    let exist0 ← schema.isExistAttribute s0
    let exist1 ← schema.isExistAttribute s1
    if exist0 && !exist1 then columnLiteral schema cond s0 s1 .right now
    else if !exist0 && exist1 then columnLiteral schema cond s1 s0 .left now
    else twoColumns schema cond s0 s1 exist0 exist1
  | _ => none

/-- Whether two values stand in the relation of a condition; an exception is no match. -/
def isMatchCondition2 (cond : Condition) (val val2 : Any) : Bool :=
  match cond.cond with
  | none => false
  | some c => ((c.matchAny val val2).toOption).getD false

/-- Whether a column value meets a condition on a column and a literal. -/
def isMatchCondition (cond : Condition) (val : Any) : Bool :=
  if cond.valuePosition = .right then cond.isMatchCondition2 val cond.val
  else cond.isMatchCondition2 cond.val val

end Condition

end IS

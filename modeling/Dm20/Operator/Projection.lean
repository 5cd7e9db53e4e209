import Dm20.Lib.Except
import Dm20.TupleLib.SchemaChanges
import Dm20.TupleLib.TupleSet
import Dm20.TupleLib.Value

namespace IS

open StringUtil

/-- The attribute at an index that may be negative. -/
def Schema.attributeAt (self : Schema) (index : Int) : Attribute :=
  if index < 0 then {} else self.getAttribute index.toNat

/-- The columns of a query's result: the parameters, and the columns found for them when
the first tuples came. -/
structure ProjectionOperator where
  argument : Str
  paramList : List Str := []
  indexList : List Int := []
  outputSchema : Schema := {}
  previousAttributeNum : Nat := 0

namespace ProjectionOperator

def NUMBER : Int := -1

def STRING : Int := -2

/-- The columns of a parameter: an attribute, the results of a function, or a literal. There
are none for any other text. -/
def columnsOf (schema : Schema) (param : Str) : Except Failure (List (Int × Attribute)) :=
  match schema.getAttributeIdx param with
  | none => .error .undefined
  | some index =>
    if 0 ≤ index then .ok [(index, schema.attributeAt index)]
    else
      match schema.evalMinIdxMap.lookup param with
      | some minIdx =>
        let maxIdx := (schema.evalMaxIdxMap.lookup param).getD 0
        if minIdx = -1 then .ok [(index, schema.attributeAt index)]
        else .ok ((List.range (maxIdx + 1 - minIdx).toNat).map fun (i : Nat) =>
          (minIdx + i, schema.attributeAt (minIdx + i)))
      | none =>
        if isNumber param then
          .ok [(NUMBER, { name := param, type := if '.' ∈ param then "double".toList else "int".toList })]
        else if isString param then
          .ok [(STRING, { name := deleteStrings param ['\''], type := "string".toList })]
        else .ok []

/-- A parameter as it is kept: the quotes of a literal are deleted. -/
def keptParam (schema : Schema) (param : Str) : Str :=
  if (schema.isExistAttribute param).getD true || isNumber param || !isString param then param
  else deleteStrings param ['\'']

/-- An administrative column, which is looked up by the name at its place. -/
def adminColumn (schema : Schema) (i : Nat) : Except Failure (Int × Attribute) :=
  match schema.attributes[schema.adminColumnStartIdx + i]? with
  | none => .error .undefined
  | some attr =>
    match schema.getAttributeIdx attr.name with
    | none => .error .undefined
    | some index => .ok (index, schema.attributeAt index)

/-- The columns of the result and their schema. -/
def prepare (self : ProjectionOperator) (schema : Schema) : Except Failure ProjectionOperator := do
  let paramList :=
    if self.paramList = [] then splitExcludeBrackets (deleteSpace self.argument) ",".toList else self.paramList
  let columns ← paramList.mapM (columnsOf schema)
  let admin ← (List.range Schema.getAdminAttributeSize).mapM (adminColumn schema)
  let outputSchema ← (columns.flatten ++ admin).foldlM (fun outputSchema column => outputSchema.append column.2)
    { tablename := schema.tablename, tabletype := schema.tabletype }
  return { self with
    paramList := paramList.map (keptParam schema)
    indexList := (columns.flatten ++ admin).map Prod.fst
    outputSchema
    previousAttributeNum := schema.getAttributeSize }

/-- A literal number. -/
def number (text : Str) : Except Failure Any :=
  if '.' ∈ text then ((stod text).map (.scalar .double)).mapError ConversionError.toFailure
  else ((stoi text).map (.scalar .int)).mapError ConversionError.toFailure

/-- The value at a place of the result. A literal is read from the parameter at this place. A
tuple that does not have the column leaves the variables as they were, at first not initialized. -/
def columnAt (self : ProjectionOperator) (t : Tuple) (index : Int) (i : Nat) : Except Failure Column :=
  if 0 ≤ index then
    match t.columns[index.toNat]? with
    | some c => .ok { value := c.value, timestamp := c.timestamp }
    | none => .error .undefined
  else
    match self.paramList[i]? with
    | none => .error .undefined
    | some param =>
      if index = NUMBER then (number param).map fun value => { value }
      else .ok { value := .scalar .string param }

def projectTuple (self : ProjectionOperator) (t : Tuple) : Except Failure Tuple :=
  (self.indexList.zipIdx.mapM fun (index, i) => self.columnAt t index i).map fun columns => { columns }

/-- Tuples are replaced by their columns that are in the query's result. Nothing is done without
tuples. A failure is caught, the tuples then stay as they were. -/
def process (self : ProjectionOperator) (ts : TupleSet) : Except Failure (ProjectionOperator × TupleSet) := do
  if ts.tuples = [] then return (self, ts)
  let self ←
    if self.indexList = [] ∨ self.previousAttributeNum ≠ ts.schema.getAttributeSize then self.prepare ts.schema
    else pure self
  let tuples ← ts.tuples.mapM self.projectTuple
  return (self, {
    schema := self.outputSchema
    tuples
    type := ts.type
    recvTime := ts.recvTime
    isRecursive := ts.isRecursive })

end ProjectionOperator

/-- What stands behind SELECT. -/
inductive SelectList where
  | asterisk
  | list (argument : Str)

/-- A projection is made for a list of columns only. -/
def OperatorTreeGenerator.select (selectList : SelectList) (ts : TupleSet) : Except Failure TupleSet :=
  match selectList with
  | .asterisk => .ok ts
  | .list argument => (ProjectionOperator.process { argument } ts).map Prod.snd

end IS

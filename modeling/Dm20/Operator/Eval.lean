import Dm20.Lib.Carry
import Dm20.Lib.Except
import Dm20.TupleLib.SchemaChanges
import Dm20.TupleLib.TupleSet

open Carry

namespace IS

open StringUtil

def StringUtil.toUpper (target : Str) : Str :=
  target.map Char.toUpper

/-- `std::vector::at`. -/
def at? {α : Type} (v : List α) (i : Nat) : Except Failure α :=
  match v[i]? with
  | some x => .ok x
  | none => .error .out_of_range

def Tuple.resize (t : Tuple) (size : Nat) : Tuple :=
  { t with columns := t.columns.take size ++ List.replicate (size - t.columns.length) {} }

/-- An operator that calls a user's function. What is known of the function was checked when the
query was parsed; the places of its arguments are found when the first tuples come. -/
structure EvalOperator where
  functionName : Str
  parameter : Str
  args : List Str
  retTypeStr : Str
  retNameStr : Str
  names : retNameStr = [] ∨ (split retTypeStr ",".toList).length = (split retNameStr ",".toList).length
  retsName : List Str := []
  outputSchema : Schema := {}
  argProcList : List Int := []
  previousAttributeNum : Nat := 0

namespace EvalOperator

def NUMBER : Int := -1

def STRING : Int := -2

def OTHER : Int := -3

def retsType (self : EvalOperator) : List Str :=
  split self.retTypeStr ",".toList

/-- Takes the call apart and looks its function up in the configuration. There is no operator for
a function without a library, or with another number of names than of types. -/
def checkParameter (readConfigFile : Str → Str) (argument : Str) : Except Failure (Option EvalOperator) := do
  let parameter := deleteSpace argument
  let functionName := toUpper (← at? (split parameter "(".toList) 0)
  let args := splitExcludeBrackets (← at? (getStringInBracketFirst parameter '(' ')') 0) ",".toList
  let retTypeStr := readConfigFile (functionName ++ "_RET_TYPE".toList)
  let retNameStr := readConfigFile (functionName ++ "_RET_NAME".toList)
  if readConfigFile (functionName ++ "_LIB".toList) = [] then return none
  if names : retNameStr = [] ∨ (split retTypeStr ",".toList).length = (split retNameStr ",".toList).length then
    return some { functionName, parameter, args, retTypeStr, retNameStr, names }
  else return none

/-- Where an argument comes from: a column, or a literal of some kind. -/
def place (schema : Schema) (arg : Str) : Except Failure Int :=
  match schema.getAttributeIdx arg with
  | none => .error .undefined
  | some index =>
    if 0 ≤ index ∨ (schema.evalMinIdxMap.lookup arg).isSome then .ok index
    else if isNumber arg then .ok NUMBER
    else if isString arg then .ok STRING
    else .ok OTHER

/-- The attributes of the results. -/
def results (self : EvalOperator) : List Attribute :=
  if 1 < self.retsType.length then
    let names :=
      if self.retNameStr = [] then
        (List.range self.retsType.length).map fun i => self.functionName ++ "_".toList ++ to_string_nat i
      else split self.retNameStr ",".toList
    (names.zip self.retsType).map fun (name, type) => { name, type }
  else [{ name := self.parameter, type := self.retTypeStr }]

/-- Finds the places of the arguments, unless the last tuples had as many attributes. -/
def initializeEval (self : EvalOperator) (schema : Schema) : Except Failure EvalOperator :=
  if self.argProcList = [] ∨ self.previousAttributeNum ≠ schema.getAttributeSize then do
    let argProcList ← self.args.mapM (place schema)
    let outputSchema ← self.results.foldlM Schema.append
      (({ tablename := schema.tablename, tabletype := schema.tabletype } : Schema).copyAttributes schema)
    return { self with
      argProcList
      retsName := self.results.map Attribute.name
      outputSchema
      previousAttributeNum := schema.getAttributeSize }
  else .ok self

/-- An argument as it is handed to the function. The columns are those of the tuple. -/
def argument (t : Tuple) (arg : Str) (place : Int) : Str :=
  if place = NUMBER ∨ place = OTHER then arg
  else if place = STRING then deleteStrings arg ['\'', '"']
  else getAnyString ((t.getValueByIdx place.toNat).getD .void)

/-- The timestamp of an argument that is a column. -/
def timestampAt (t : Tuple) (place : Int) : Option Int :=
  if 0 ≤ place then t.columns[place.toNat]?.map Column.timestamp else none

def newer (t : Tuple) (time place : Int) : Int :=
  match timestampAt t place with
  | some getTime => if time < getTime then getTime else time
  | none => time

/-- The newest timestamp of the arguments, or the time of the clock where there is none. -/
def newestTime (now : Int) (t : Tuple) (places : List Int) : Int :=
  let time := places.foldl (newer t) 0
  if time = 0 then now else time

/-- The arguments of each tuple, and the time of the last one. -/
def createArgList (self : EvalOperator) (now : Int) (tuples : List Tuple) : Int × List (List Str) :=
  tuples.foldl (fun (_, argList) t =>
    (newestTime now t self.argProcList, argList ++ [List.zipWith (argument t) self.args self.argProcList])) (0, [])

/-- Whether a text was not read: the variable for the value is then left as it was. -/
def isVoid : Any → Bool
  | .void => true
  | _ => false

/-- The results of a tuple in the columns behind its own. -/
def appendRow (self : EvalOperator) (width : Nat) (insertColNum : Nat) (time : Int) (val : Any) (t : Tuple)
    (row : List Str) : Except Failure (Any × Tuple) := do
  let cells ← (List.range width).mapM fun i => do
    let text ← at? row i
    let type ← at? self.retsType i
    return getAnyValFromString text type
  return cells.zipIdx.foldl (fun (val, t) (cell, i) =>
    let val := assign isVoid val cell
    (val, t.setValue ((insertColNum : Int) + i) val time false)) (val, t.resize (insertColNum + width))

/-- A tuple with its results, behind those that have theirs. -/
def appendNext (self : EvalOperator) (width : Nat) (insertColNum : Nat) (time : Int) :
    Any × List Tuple → Tuple × List Str → Except Failure (Any × List Tuple)
  | (val, tuples), (t, row) =>
    (self.appendRow width insertColNum time val t row).map fun (val, t) => (val, tuples ++ [t])

/-- The results in the rows of the tuples. One variable holds the values of all of them. -/
def appendRows (self : EvalOperator) (width : Nat) (insertColNum : Nat) (time : Int) (rows : List (Tuple × List Str)) :
    Except Failure (Any × List Tuple) :=
  rows.foldlM (self.appendNext width insertColNum time) (.void, [])

def appendReturnValue (self : EvalOperator) (ts : TupleSet) (retList : List (List Str)) (time : Int) :
    Except Failure (EvalOperator × TupleSet) :=
  match retList, ts.tuples with
  | [], _ => .ok (self, { ts with tuples := [] })
  | _ :: _, [] => .error .undefined
  | first :: _, t :: _ => do
    let insertColNum := t.size
    if retList.length = ts.size ∧ self.retsName.length = 1 then
      let (_, tuples) ← self.appendRows first.length insertColNum time (ts.tuples.zip retList)
      return (self, { ts with tuples })
    else
      -- as many tuples as there are results
      let resized := ts.tuples.take retList.length ++ List.replicate (retList.length - ts.size) { columns := [] }
      let (_, tuples) ← self.appendRows first.length insertColNum time (resized.zip retList)
      let schema := self.outputSchema.appendEvalColumnRange self.parameter insertColNum
        (insertColNum + first.length - 1)
      return ({ self with outputSchema := schema }, { ts with schema, tuples })

/-- The function is called once, with the arguments of all tuples. Where it fails the tuples are
not handed on. -/
def process (self : EvalOperator) (evalFunc : List (List Str) → Option (List (List Str))) (now : Int) (ts : TupleSet) :
    Except Failure (EvalOperator × TupleSet × Bool) := do
  let self ← self.initializeEval ts.schema
  let ts := ts.SetSchema self.outputSchema
  if ts.tuples = [] then return (self, ts, true)
  let (time, argList) := self.createArgList now ts.tuples
  match evalFunc argList with
  | none => return (self, ts, false)
  | some retList =>
    let (self, ts) ← self.appendReturnValue ts retList time
    return (self, ts, true)

end EvalOperator

end IS

import Dm20.CsLib.UnorderedMap
import Dm20.Lib.Except
import Dm20.TupleLib.DataType
import Dm20.TupleLib.Schema

namespace IS

namespace StringUtil

/-- Whether values of a type are supported, within a bound on the number of vectors and arrays
in each other; `none` is an exception, or a check that does not end. -/
def checkSupportDataTypeWithin : Nat → Str → Option Bool
  | 0, _ => none
  | n + 1, type =>
    if (typeMap.lookup (toLower type)).isSome then some true
    else if contain type "vector".toList then do
      let inner ← (getStringInBracket type).head?
      checkSupportDataTypeWithin n inner
    else if type.head? = some '_' then checkSupportDataTypeWithin n type.tail
    else some false

def checkSupportDataType (type : Str) : Option Bool :=
  checkSupportDataTypeWithin (type.length + 1) type

end StringUtil

namespace Schema

open StringUtil

/-- An attribute at the end. A type that is not supported is only reported. -/
def append (self : Schema) (attr : Attribute) : Except Failure Schema :=
  let type := toLower attr.type
  match checkSupportDataType type with
  | none => .error .out_of_range
  | some _ =>
    let orgTableName := if attr.orgTableName = [] then self.tablename else attr.orgTableName
    .ok { self with
      attributes := self.attributes ++ [{ attr with type, orgTableName }]
      colNameIdxMap := (attr.name, (self.attributes.length : Int)) :: self.colNameIdxMap }

/-- The type of an attribute passes the check of `append`. -/
def TypeChecked (attr : Attribute) : Prop :=
  checkSupportDataType (toLower attr.type) ≠ none

/-- An attribute is appended just if its type passes the check. -/
theorem isOk_append_iff {self : Schema} {attr : Attribute} : (self.append attr).isOk = true ↔ TypeChecked attr := by
  rw [append, TypeChecked]
  cases checkSupportDataType (toLower attr.type) <;> simp

/-- The four columns that tell where a tuple comes from. -/
def appendAdminColumn (self : Schema) : Schema :=
  adminColumnNameList.foldl (fun self name =>
    { self with
      attributes := self.attributes ++
        [{ name, type := "string".toList, orgTableName := self.tablename, hidden := true }]
      colNameIdxMap := (name, (self.attributes.length : Int)) :: self.colNameIdxMap })
    { self with adminColumnStartIdx := self.attributes.length }

/-- The columns of the results of a function. -/
def appendEvalColumnRange (self : Schema) (evalName : Str) (minIdx maxIdx : Int) : Schema :=
  { self with
    evalMinIdxMap := (evalName, minIdx) :: self.evalMinIdxMap
    evalMaxIdxMap := (evalName, maxIdx) :: self.evalMaxIdxMap }

/-- The table gets another name, whatever its name was. -/
def renameTableName (self : Schema) (fromName toName : Str) : Schema × Bool :=
  if fromName = toName then (self, true)
  else if fromName = [] ∨ toName = [] then (self, false)
  else ({ self with tablename := toName }, true)

/-- The attribute taken out, and the index of the others made anew. -/
def deleteAttribute (self : Schema) (index : Int) : Except Failure Schema :=
  if 0 ≤ index ∧ index < self.attributes.length then
    let attributes := self.attributes.eraseIdx index.toNat
    .ok { self with attributes, colNameIdxMap := indexNames attributes }
  else .error .undefined

/-- A column gets another name. It tells whether there is such a column. -/
def renameColumnName (self : Schema) (fromName toName : Str) : Except Failure (Schema × Bool) :=
  if fromName = toName then .ok (self, true)
  else if fromName = [] ∨ toName = [] then .ok (self, false)
  else
    match self.getAttributeIdx fromName with
    | none => .error .out_of_range
    | some index =>
      if index < 0 then .ok (self, false)
      else if self.attributes.length ≤ index then .error .out_of_range
      else
        let attributes := self.attributes.modify index.toNat fun attr => { attr with name := toName }
        let erased := self.colNameIdxMap.filter fun entry => entry.1 ≠ fromName
        let erased :=
          if contain fromName ".".toList && starts_with fromName (self.tablename ++ ".".toList) then
            erased.filter fun entry => entry.1 ≠ (split fromName ".".toList).getD 1 []
          else erased
        .ok ({ self with attributes, colNameIdxMap := (toName, index) :: erased }, true)

end Schema

end IS

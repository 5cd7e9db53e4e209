import Dm20.TupleLib.StringUtil

namespace IS

open StringUtil

structure Attribute where
  name : Str := []
  type : Str := []
  orgTableName : Str := []
  defaultValue : Str := []
  hidden : Bool := false
deriving DecidableEq, Repr, Inhabited

/-- The schema of a table or a stream. The maps hold the latest entry of a key first. -/
structure Schema where
  attributes : List Attribute := []
  tabletype : Str := "UNKNOWN".toList
  tablename : Str := "UNKNOWN".toList
  colNameIdxMap : List (Str × Int) := []
  evalMinIdxMap : List (Str × Int) := []
  evalMaxIdxMap : List (Str × Int) := []
  adminColumnStartIdx : Nat := 0
deriving DecidableEq, Repr, Inhabited

namespace Schema

def UNKNOWN : Str := "UNKNOWN".toList

def STREAM : Str := "STREAM".toList

def COL_USERID : Str := "dm2_creator_id".toList

def COL_IPADDR : Str := "dm2_ip_addr".toList

def COL_HASH : Str := "dm2_hash".toList

def COL_TS_GRP : Str := "dm2_ts_group".toList

def adminColumnNameList : List Str :=
  [COL_USERID, COL_IPADDR, COL_HASH, COL_TS_GRP]

def getAdminAttributeSize : Nat :=
  adminColumnNameList.length

/-- The attribute at an index; outside the schema a default one, which is not hidden. -/
def getAttribute (self : Schema) (index : Nat) : Attribute :=
  self.attributes.getD index {}

def getAttributeSize (self : Schema) : Nat :=
  self.attributes.length

/-- The indices of the attributes whose name, behind its table name, is the given one. -/
def matchIdx (self : Schema) (name : Str) : List Nat :=
  (self.attributes.zipIdx.filter fun (attr, _) =>
    match splitExcludeBrackets attr.name ".".toList with
    | [_, col] => decide (name = col)
    | _ => false).map (·.2)

/-- The index of a column by its name, with or without the table name; -1 where
there is none or more than one. It fails on a schema without attributes, where
the source reads the first attribute. -/
def getAttributeIdx (self : Schema) (name : Str) : Option Int :=
  match self.colNameIdxMap.lookup name with
  | some idx => some idx
  | none =>
    if starts_with name (self.tablename ++ ".".toList) then
      match self.colNameIdxMap.lookup ((split name ".".toList).getD 1 []) with
      | some idx => some idx
      | none => some (-1)
    else
      match self.attributes with
      | [] => none
      | first :: _ =>
        if starts_with first.name (self.tablename ++ ".".toList) then
          match self.matchIdx name with
          | [idx] => some idx
          | _ => some (-1)
        else some (-1)

def isExistAttribute (self : Schema) (name : Str) : Option Bool :=
  (self.getAttributeIdx name).map fun idx =>
    decide (0 ≤ idx) || (self.evalMinIdxMap.lookup name).isSome

/-- The index of each attribute under its name. -/
def indexNames (attributes : List Attribute) : List (Str × Int) :=
  (attributes.zipIdx.map fun (attr, i) => (attr.name, (i : Int))).reverse

def copyAttributes (self schema : Schema) : Schema :=
  { self with
    attributes := schema.attributes
    adminColumnStartIdx := schema.adminColumnStartIdx
    colNameIdxMap := indexNames schema.attributes }

/-- An attribute with the table name before a name that has none. -/
def qualify (tablename : Str) (attr : Attribute) : Attribute :=
  if (splitExcludeBrackets attr.name ".".toList).length = 1 then
    { attr with name := tablename ++ ".".toList ++ attr.name }
  else attr

/-- Adds the attributes of a schema. Those of another table are added with
their table name, and those there are get theirs. -/
def addAttributes (self schema : Schema) : Schema :=
  if self.tablename ≠ schema.tablename then
    let attributes := self.attributes.map (qualify self.tablename) ++
      schema.attributes.map (qualify schema.tablename)
    { self with attributes, colNameIdxMap := indexNames attributes }
  else
    { self with
      attributes := self.attributes ++ schema.attributes
      colNameIdxMap :=
        (schema.attributes.zipIdx self.attributes.length |>.map fun (attr, i) => (attr.name, (i : Int))).reverse ++
          self.colNameIdxMap }

end Schema

end IS

import Dm20.Operator.Projection
import Dm20.TupleLib.SchemaNames

namespace IS

open StringUtil OperatorTreeGenerator
open Schema (TypeChecked isOk_foldlM_append_iff)

/-- The indices of a schema are those of its attributes, four of which are the administrative ones. -/
structure Schema.InRange (schema : Schema) : Prop where
  index : ∀ name i, schema.colNameIdxMap.lookup name = some i → 0 ≤ i ∧ i < schema.attributes.length
  eval : ∀ name minIdx, schema.evalMinIdxMap.lookup name = some minIdx → 0 ≤ minIdx ∧
    ∃ maxIdx, schema.evalMaxIdxMap.lookup name = some maxIdx ∧ maxIdx < schema.attributes.length
  admin : schema.adminColumnStartIdx + getAdminAttributeSize ≤ schema.attributes.length

/-- Tuples with a column for each attribute, of a schema whose indices are in its range. -/
structure IndexedSet extends TupleSet where
  aligned : ∀ t ∈ tuples, t.columns.length = schema.attributes.length
  inRange : schema.InRange

/-- The administrative columns of each tuple. -/
def IndexedSet.admin (ts : IndexedSet) : List (List Column) :=
  ts.tuples.map fun t => (t.columns.drop ts.schema.adminColumnStartIdx).take Schema.getAdminAttributeSize

namespace ProjectionOperator

/-- What a query asks for: an attribute, or a literal number or string. -/
inductive Item where
  | column (i : Nat)
  | number (text : Str)
  | string (text : Str)

/-- A literal string without its quotes. -/
def unquoted (text : Str) : Str :=
  (text.drop 1).dropLast

/-- What a parameter asks for: an attribute, the results of a function, or a literal. -/
def items (schema : Schema) (param : Str) : List Item :=
  match schema.getAttributeIdx param with
  | none => []
  | some index =>
    if 0 ≤ index then [.column index.toNat]
    else
      match schema.evalMinIdxMap.lookup param with
      | some minIdx =>
        let maxIdx := (schema.evalMaxIdxMap.lookup param).getD 0
        (List.range (maxIdx + 1 - minIdx).toNat).map fun (i : Nat) => .column (minIdx + i).toNat
      | none => if isNumber param then [.number param] else if isString param then [.string param] else []

@[irreducible] def params (argument : Str) : List Str :=
  splitExcludeBrackets (deleteSpace argument) ",".toList

def requested (schema : Schema) (argument : Str) : List Item :=
  (params argument).flatMap (items schema)

def kept (schema : Schema) (argument : Str) : List Str :=
  (params argument).map (keptParam schema)

namespace Item

/-- The column of a tuple that is asked for. A literal has no timestamp. -/
def columnOf (t : Tuple) : Item → Option Column
  | .column i => t.columns[i]?
  | .number text => (ProjectionOperator.number text).toOption.map fun value => { value }
  | .string text => some { value := .scalar .string (unquoted text) }

def name (schema : Schema) : Item → Str
  | .column i => (schema.getAttribute i).name
  | .number text => text
  | .string text => unquoted text

end Item

/-- The names of the administrative columns. -/
def adminNames (schema : Schema) : List Str :=
  (schema.names.drop schema.adminColumnStartIdx).take Schema.getAdminAttributeSize

/-- The columns that are asked for, and the administrative ones behind them. -/
def RowOf (requested : List Item) (t : Tuple) (admin : List Column) (t' : Tuple) : Prop :=
  ∃ columns, List.Forall₂ (fun item c => item.columnOf t = some c) requested columns ∧ t'.columns = columns ++ admin

/-- Each tuple has the columns that are asked for and its administrative columns. Without
tuples there is still the schema of these columns. -/
structure Projected (argument : Str) (ts : TupleSet) (admin : List (List Column)) (ts' : TupleSet) : Prop where
  width : ∀ t ∈ ts'.tuples, t.columns.length = ts'.schema.attributes.length
  rows : List.Forall₂ (fun row t' => RowOf (requested ts.schema argument) row.1 row.2 t') (ts.tuples.zip admin) ts'.tuples
  names : ts.tuples = [] →
    ts'.schema.names = (requested ts.schema argument).map (Item.name ts.schema) ++ adminNames ts.schema

/-- What a list of columns delivers; an asterisk stands for all columns. -/
def Delivers (ts : TupleSet) (admin : List (List Column)) (ts' : TupleSet) : SelectList → Prop
  | .asterisk => ts'.schema = ts.schema ∧ ts'.tuples = ts.tuples
  | .list argument => Projected argument ts admin ts'

/-- A column that is asked for is not null, and the parameter at the place of a literal is this literal. -/
def Item.Reads (t : Tuple) (param : Option Str) : Item → Prop
  | .column i => ∀ c, t.columns[i]? = some c → c.isNull = false
  | .number text => ∃ other v, param = some other ∧ ProjectionOperator.number other = .ok v ∧
    ProjectionOperator.number text = .ok v
  | .string text => param = some (unquoted text)

/-- The name leads to a column with the value and the timestamp of an administrative one, which
is not null. Where the name is not found, the parameter at the place would be this value. -/
def AdminReads (schema : Schema) (t : Tuple) (param : Option Str) (attr : Attribute) (c : Column) : Prop :=
  ∃ index, schema.getAttributeIdx attr.name = some index ∧
    (0 ≤ index ∧ (∃ d, t.columns[index.toNat]? = some d ∧ c = { value := d.value, timestamp := d.timestamp }) ∨
      index < 0 ∧ ∃ other v, param = some other ∧ ProjectionOperator.number other = .ok v ∧ c = { value := v })

/-- The columns of a tuple are where they are looked for. -/
structure Reads (schema : Schema) (argument : Str) (t : Tuple) (admin : List Column) : Prop where
  items : ∀ item i, (item, i) ∈ (requested schema argument).zipIdx → item.Reads t ((kept schema argument)[i]?)
  admin : ∀ i attr c, schema.attributes[schema.adminColumnStartIdx + i]? = some attr → admin[i]? = some c →
    AdminReads schema t ((kept schema argument)[(requested schema argument).length + i]?) attr c

/-- What a projection relies on. Without tuples the columns are the projected ones already. -/
def Meets (ts : TupleSet) (admin : List (List Column)) : SelectList → Prop
  | .asterisk => True
  | .list argument =>
    if ts.tuples = [] then
      ts.schema.names = (requested ts.schema argument).map (Item.name ts.schema) ++ adminNames ts.schema
    else
      (∀ i, .column i ∈ requested ts.schema argument → TypeChecked (ts.schema.getAttribute i)) ∧
        (∀ i < Schema.getAdminAttributeSize, ∀ attr index,
          ts.schema.attributes[ts.schema.adminColumnStartIdx + i]? = some attr →
            ts.schema.getAttributeIdx attr.name = some index → TypeChecked (ts.schema.attributeAt index)) ∧
        ∀ row ∈ ts.tuples.zip admin, Reads ts.schema argument row.1 row.2

section Names

variable {schema : Schema}

private theorem attributes_ne_nil (hs : schema.InRange) : schema.attributes ≠ [] := by
  intro hnil
  have hadmin := hs.admin
  rw [hnil, List.length_nil, Schema.getAdminAttributeSize] at hadmin
  exact absurd hadmin (by simp [Schema.adminColumnNameList])

private theorem getAttributeIdx_range (hs : schema.InRange) (name : Str) :
    ∃ index, schema.getAttributeIdx name = some index ∧
      (index = -1 ∨ 0 ≤ index ∧ index < schema.attributes.length) :=
  Schema.getAttributeIdx_cases (attributes_ne_nil hs) hs.index name

end Names

/-- The entry of the list of indices for what is asked for. -/
def Item.index : Item → Int
  | .column i => i
  | .number _ => NUMBER
  | .string _ => STRING

def Item.attribute (schema : Schema) : Item → Attribute
  | .column i => schema.getAttribute i
  | .number text => { name := text, type := if '.' ∈ text then "double".toList else "int".toList }
  | .string text => { name := deleteStrings text ['\''], type := "string".toList }

/-- The index under which an administrative column is found. -/
def adminIdx (schema : Schema) (i : Nat) : Int :=
  ((schema.attributes[schema.adminColumnStartIdx + i]?).bind fun attr => schema.getAttributeIdx attr.name).getD (-1)

/-- The columns of the result with their attributes. -/
def entries (schema : Schema) (argument : Str) : List (Int × Attribute) :=
  (requested schema argument).map (fun item => (item.index, item.attribute schema)) ++
    (List.range Schema.getAdminAttributeSize).map fun i => (adminIdx schema i, schema.attributeAt (adminIdx schema i))

section Prepare

variable {schema : Schema}

private theorem attributeAt_natCast (schema : Schema) (i : Nat) :
    schema.attributeAt (i : Int) = schema.getAttribute i :=
  if_neg (by omega)

/-- A parameter is expanded to the attributes of its items. -/
private theorem columnsOf_eq (hs : schema.InRange) (param : Str) :
    columnsOf schema param = .ok ((items schema param).map fun item => (item.index, item.attribute schema)) := by
  rw [columnsOf, items]
  obtain ⟨index, hindex, -⟩ := getAttributeIdx_range hs param
  simp only [hindex]
  split
  · next hnonneg =>
    obtain ⟨i, rfl⟩ := Int.eq_ofNat_of_zero_le hnonneg
    rw [attributeAt_natCast]
    rfl
  · cases hmin : schema.evalMinIdxMap.lookup param with
    | some minIdx =>
      obtain ⟨hnonneg, -⟩ := hs.eval param minIdx hmin
      obtain ⟨n, rfl⟩ := Int.eq_ofNat_of_zero_le hnonneg
      simp only [if_neg (show ¬ (n : Int) = -1 by omega), List.map_map]
      rfl
    | none =>
      simp only
      split
      · rfl
      · split <;> rfl

private theorem adminColumn_eq (hs : schema.InRange) {i : Nat} (hi : i < Schema.getAdminAttributeSize) :
    adminColumn schema i = .ok (adminIdx schema i, schema.attributeAt (adminIdx schema i)) := by
  have hlt : schema.adminColumnStartIdx + i < schema.attributes.length := by
    have hadmin := hs.admin
    omega
  obtain ⟨index, hindex, -⟩ := getAttributeIdx_range hs schema.attributes[schema.adminColumnStartIdx + i].name
  rw [adminColumn, adminIdx, List.getElem?_eq_getElem hlt]
  simp only [Option.bind_some, hindex, Option.getD_some]

/-- The operator once the first tuples have come. -/
def prepared (schema : Schema) (argument : Str) (outputSchema : Schema) : ProjectionOperator where
  argument := argument
  paramList := kept schema argument
  indexList := (entries schema argument).map Prod.fst
  outputSchema := outputSchema
  previousAttributeNum := schema.getAttributeSize

/-- The schema of the result. -/
def projectedSchema (schema : Schema) (argument : Str) : Except Failure Schema :=
  (entries schema argument).foldlM (fun outputSchema column => outputSchema.append column.2)
    { tablename := schema.tablename, tabletype := schema.tabletype }

/-- A first call prepares the columns of the argument, or fails where the argument has none. -/
private theorem prepare_eq (hs : schema.InRange) (argument : Str) :
    prepare { argument } schema = (projectedSchema schema argument).map (prepared schema argument) := by
  have hcolumns : (params argument).mapM (columnsOf schema) =
      .ok ((params argument).map fun param =>
        (items schema param).map fun item => (item.index, item.attribute schema)) :=
    Except.mapM_eq_map fun param _ => columnsOf_eq hs param
  have hadmin : (List.range Schema.getAdminAttributeSize).mapM (adminColumn schema) =
      .ok ((List.range Schema.getAdminAttributeSize).map fun i =>
        (adminIdx schema i, schema.attributeAt (adminIdx schema i))) :=
    Except.mapM_eq_map fun i hi => adminColumn_eq hs (List.mem_range.mp hi)
  have hentries : ((params argument).map fun param =>
        (items schema param).map fun item => (item.index, item.attribute schema)).flatten ++
      (List.range Schema.getAdminAttributeSize).map (fun i =>
        (adminIdx schema i, schema.attributeAt (adminIdx schema i))) = entries schema argument := by
    rw [entries, requested, List.map_flatMap, List.flatMap_def]
  rw [prepare, if_pos rfl, ← params]
  change ((params argument).mapM (columnsOf schema) >>= _) = _
  rw [hcolumns]
  change ((List.range Schema.getAdminAttributeSize).mapM (adminColumn schema) >>= _) = _
  rw [hadmin]
  simp only [bind, Except.bind]
  rw [hentries, ← projectedSchema]
  cases projectedSchema schema argument with
  | error e => rfl
  | ok outputSchema => rfl

end Prepare

section Row

variable {schema : Schema} {argument : Str} {t : Tuple} {self : ProjectionOperator}

end Row

section Process

variable {schema : Schema} {argument : Str} {ts ts' : TupleSet} {admin : List (List Column)} {selectList : SelectList}

private theorem length_entries (schema : Schema) (argument : Str) :
    (entries schema argument).length = (requested schema argument).length + Schema.getAdminAttributeSize := by
  rw [entries, List.length_append, List.length_map, List.length_map, List.length_range]

private theorem length_projectedSchema {outputSchema : Schema}
    (h : projectedSchema schema argument = .ok outputSchema) :
    outputSchema.attributes.length = (entries schema argument).length := by
  rw [projectedSchema, ← List.foldlM_map] at h
  rw [(Schema.foldlM_append h).1, List.length_map]
  exact Nat.zero_add _

/-- The schema of the result has an index of one of its columns for each name. -/
private theorem inRange_projectedSchema {outputSchema : Schema}
    (h : projectedSchema schema argument = .ok outputSchema) :
    outputSchema.InRange := by
  have happend := h
  rw [projectedSchema, ← List.foldlM_map] at happend
  obtain ⟨-, hadmin, heval, hindex⟩ := Schema.foldlM_append happend
  have hempty : ∀ name i, ([] : List (Str × Int)).lookup name = some i → 0 ≤ i ∧ i < 0 := by
    intro name i hlookup
    cases hlookup
  refine ⟨hindex hempty, ?_, ?_⟩
  · intro name minIdx hmin
    rw [heval] at hmin
    cases hmin
  · rw [hadmin, length_projectedSchema h, length_entries]
    exact Nat.zero_add _ ▸ Nat.le_add_left _ _

private theorem length_projectTuple {outputSchema : Schema} {t t' : Tuple}
    (h : (prepared schema argument outputSchema).projectTuple t = .ok t') :
    t'.columns.length = (entries schema argument).length := by
  obtain ⟨columns, hcolumns, rfl⟩ := Except.map_eq_ok_iff.mp h
  have hlength := (Except.mapM_eq_ok hcolumns).length_eq
  rw [List.length_zipIdx, prepared, List.length_map] at hlength
  exact hlength.symm

/-- A projection of some tuples. -/
theorem select_list_eq (hs : ts.schema.InRange) (hne : ts.tuples ≠ []) (argument : Str) :
    select (.list argument) ts = projectedSchema ts.schema argument >>= fun outputSchema =>
      (ts.tuples.mapM (prepared ts.schema argument outputSchema).projectTuple).map fun tuples =>
        { schema := outputSchema, tuples, type := ts.type, recvTime := ts.recvTime, isRecursive := ts.isRecursive } := by
  rw [select, process, if_neg hne]
  simp only [prepare_eq hs]
  cases projectedSchema ts.schema argument with
  | error e => rfl
  | ok outputSchema =>
    change Except.map Prod.snd (ts.tuples.mapM (prepared ts.schema argument outputSchema).projectTuple >>= _) =
      (ts.tuples.mapM (prepared ts.schema argument outputSchema).projectTuple).map _
    cases ts.tuples.mapM (prepared ts.schema argument outputSchema).projectTuple with
    | error e => rfl
    | ok tuples => rfl

/-- What holds of the tuples at each level: they have their columns, and there are four
administrative ones for each. -/
structure Follows (ts : TupleSet) (admin : List (List Column)) : Prop where
  aligned : ∀ t ∈ ts.tuples, t.columns.length = ts.schema.attributes.length
  inRange : ts.schema.InRange
  rows : admin.length = ts.tuples.length
  columns : ∀ columns ∈ admin, columns.length = Schema.getAdminAttributeSize

/-- What holds of the tuples of a query holds of its result. -/
theorem Follows.select (h : Follows ts admin) (hselect : select selectList ts = .ok ts') : Follows ts' admin := by
  cases selectList with
  | asterisk =>
    obtain rfl := Except.ok.inj hselect
    exact h
  | list argument =>
    by_cases hne : ts.tuples = []
    · rw [OperatorTreeGenerator.select, process, if_pos hne] at hselect
      obtain rfl := Except.ok.inj hselect
      exact h
    · rw [select_list_eq h.inRange hne] at hselect
      obtain ⟨outputSchema, hschema, hselect⟩ := Except.bind_eq_ok_iff.mp hselect
      obtain ⟨tuples, htuples, rfl⟩ := Except.map_eq_ok_iff.mp hselect
      refine ⟨fun t' ht' => ?_, inRange_projectedSchema hschema, ?_, h.columns⟩
      · obtain ⟨t, -, ht⟩ := Except.exists_of_mem_mapM htuples ht'
        rw [length_projectTuple ht, length_projectedSchema hschema]
      · rw [h.rows, (Except.mapM_eq_ok htuples).length_eq]

end Process

/-- A table with one column in front of the administrative ones. -/
def vehicleSchema : Schema where
  attributes := { name := "a".toList, type := "int".toList } ::
    Schema.adminColumnNameList.map fun name => { name, type := "string".toList }
  tablename := "t".toList
  colNameIdxMap := [("a".toList, 0), (Schema.COL_USERID, 1), (Schema.COL_IPADDR, 2), (Schema.COL_HASH, 3),
    (Schema.COL_TS_GRP, 4)]
  adminColumnStartIdx := 1

def vehicles : IndexedSet where
  schema := vehicleSchema
  tuples := [{ columns := [{ timestamp := 1 }, { timestamp := 2 }, { timestamp := 3 }, { timestamp := 4 },
    { timestamp := 5 }] }]
  aligned := by decide
  inRange := {
    index := by
      intro name i h
      have hall : ∀ entry ∈ vehicleSchema.colNameIdxMap,
          0 ≤ entry.2 ∧ entry.2 < (vehicleSchema.attributes.length : Int) := by decide
      exact AssocList.of_lookup (P := fun _ i => 0 ≤ i ∧ i < (vehicleSchema.attributes.length : Int)) h hall
    eval := by
      intro name minIdx h
      cases h
    admin := by decide }

end ProjectionOperator

end IS

import Dm20.Protobuf.DynamicSafety
import Dm20.Protobuf.TupleMessages

namespace IS.ProtobufParser

/-- The value that comes back for a column. There is none for a `float`, and for a
vector of vectors without rows; null is no different from the default value. -/
def returnedValue (setter : Option AttrSetter) (column : Column) : Option Any :=
  match setter with
  | none => none
  | some (.single ty) =>
    some (.scalar ty (if column.isNull then CppType.default (.scalar ty)
      else (any_cast ty column.value).getD (CppType.default (.scalar ty))))
  | some .bytes => some (.scalar .string (if column.isNull then [] else (bytesText column.value).getD []))
  | some (.repeated ty) => some (.vector ty (if column.isNull then [] else vectorElements ty column.value))
  | some (.rows ty) =>
    let rows := if column.isNull then [] else vectorRows ty column.value
    if rows = [] then none else some (.vectorVector ty rows)

/-- The column that comes back; it stays as it was made where no value is set. -/
def returnedColumn (ts : Int) (setter : Option AttrSetter) (column : Column) : Column :=
  (returnedValue setter column).elim {} fun value => { value, timestamp := ts, isNull := false }

/-- The tuple that comes back, all columns with the time of the first one. -/
def returnedTuple (attrs : List (Str × Str)) (tuple : Tuple) : Tuple where
  columns := List.zipWith
    (fun attr column => returnedColumn (Int64.ofInt tuple.getTimestamp).toInt (attrSetter attr.2) column)
    attrs tuple.columns

private theorem singleType_of_elementType {type : FieldType} {ty : ScalarType} (h : elementType type = some ty) :
    singleType type = some ty := by
  cases type <;> first | exact h | cases h

private theorem single_setSingle {Child : Type} {ty : ScalarType} (v : ty.denote) :
    (FieldContent.setSingle (.empty : FieldContent Child) ty v).single (.scalar ty) = v :=
  Function.update_self _ _ _

private theorem single_elim (ty : ScalarType) (v : Option ty.denote) :
    (v.elim (FieldContent.empty : FieldContent ItemMessage) (FieldContent.setSingle .empty ty)).single (.scalar ty) =
      v.getD (CppType.default (.scalar ty)) := by
  cases v with
  | none => rfl
  | some v => exact single_setSingle v

private theorem repeated_addAll {Child : Type} {ty : ScalarType} (xs : List ty.denote) :
    (FieldContent.addAll (.empty : FieldContent Child) ty xs).repeated (.scalar ty) = xs :=
  Function.update_self _ _ _

section Column

variable {fd : FileDescriptor} {package attrName : Str}

private theorem findFieldByName_rowDescriptor (type : FieldType) :
    ((rowDescriptor attrName type).descriptor package).FindFieldByName (attrName ++ "_item".toList) =
      some ⟨attrName ++ "_item".toList, .LABEL_REPEATED, type.qualify package⟩ := by
  apply List.find?_cons_of_pos
  exact decide_eq_true rfl

/-- The rows of a vector of vectors are read as they were set. -/
theorem setRows_items {ty : ScalarType} {type : FieldType} (htype : elementType type = some ty)
    {field : FieldDescriptor} (hchild : fd.message_type field = some ((rowDescriptor attrName type).descriptor package))
    {mes : TupleMessage} {rows : List (List ty.denote)}
    (hmes : (mes field.name).messages = rows.map (itemMessage (attrName ++ "_item".toList) ty))
    (tuple : Tuple) (j : Nat) (ts : Int) :
    setRows fd mes field tuple j ts attrName =
      .ok (if rows = [] then tuple else tuple.setValue j (.vectorVector ty rows) ts false) := by
  unfold setRows
  rw [hmes]
  cases rows with
  | nil => rfl
  | cons row rows =>
    have hitem := elementType_qualify htype package
    have hrow : ∀ row : List (ScalarType.denote ty),
        (itemMessage (attrName ++ "_item".toList) ty row (attrName ++ "_item".toList)).repeated (.scalar ty) = row := by
      intro row
      rw [itemMessage_item, repeated_addAll]
    have hrows : ((row :: rows).map (itemMessage (attrName ++ "_item".toList) ty)).map
        (fun item => (item (attrName ++ "_item".toList)).repeated (.scalar ty)) = row :: rows := by
      rw [List.map_map]
      exact (List.map_congr_left fun row _ => hrow row).trans (List.map_id _)
    rw [List.map_cons] at hrows ⊢
    simp only [hchild, findFieldByName_rowDescriptor, hitem, hrows, if_neg (List.cons_ne_nil row rows)]
    exact if_pos rfl

/-- A column is read as it was set. -/
theorem setTupleAttrValue_sent {number : Nat} {setter : Option AttrSetter} {field : FieldDescriptorProto}
    {items : List DescriptorProto} (h : ColumnShape attrName number setter field items)
    (hknows : KnowsRows fd package field items) {mes : TupleMessage} {column : Column}
    (hmes : mes attrName = sentContent attrName setter column) (tuple : Tuple) (j : Nat) (ts : Int) :
    setTupleAttrValue fd mes (field.descriptor package) tuple j ts attrName false =
      .ok ((returnedValue setter column).elim tuple fun value => tuple.setValue j value ts false) := by
  cases h with
  | float => rfl
  | @single ty type htype =>
    have hsingle : singleType (type.qualify package) = some ty :=
      (congrArg singleType (qualify_of_elementType htype package)).trans (singleType_of_elementType htype)
    have hvalue : (mes attrName).single (.scalar ty) = if column.isNull then CppType.default (.scalar ty)
        else (any_cast ty column.value).getD (CppType.default (.scalar ty)) := by
      rw [hmes, sentContent]
      cases column.isNull with
      | true => rfl
      | false => exact single_elim ty _
    simp only [setTupleAttrValue, FieldDescriptorProto.descriptor, hsingle, hvalue]
    rfl
  | bytes =>
    have hvalue : (mes attrName).single (.scalar .string) =
        if column.isNull then [] else (bytesText column.value).getD [] := by
      rw [hmes]
      unfold sentContent
      cases column.isNull with
      | true => rfl
      | false => exact single_elim .string _
    simp only [setTupleAttrValue, FieldDescriptorProto.descriptor, FieldType.qualify, singleType, hvalue]
    rfl
  | @repeated ty type htype =>
    have helement := elementType_qualify htype package
    have hvalue : (mes attrName).repeated (.scalar ty) =
        if column.isNull then [] else vectorElements ty column.value := by
      rw [hmes]
      unfold sentContent
      cases column.isNull with
      | true => rfl
      | false => exact repeated_addAll _
    simp only [setTupleAttrValue, FieldDescriptorProto.descriptor, helement, hvalue]
    rfl
  | @rows ty type htype =>
    have hmessages : (mes attrName).messages = (if column.isNull then [] else vectorRows ty column.value).map
        (itemMessage (attrName ++ "_item".toList) ty) := by
      rw [hmes]
      unfold sentContent
      cases column.isNull with
      | true => rfl
      | false => rfl
    have hchild := hknows _ (List.mem_singleton_self _) rfl
    have hset := setRows_items htype hchild hmessages tuple j ts
    refine hset.trans (congrArg Except.ok ?_)
    simp only [returnedValue]
    generalize (if column.isNull then [] else vectorRows ty column.value) = rows
    by_cases hrows : rows = []
    · rw [if_pos hrows, if_pos hrows, Option.elim_none]
    · rw [if_neg hrows, if_neg hrows, Option.elim_some]

end Column

/-- What one turn of the loop over the columns makes of a tuple whose columns are read up to
there. -/
theorem returned_columns (setter : Option AttrSetter) (column : Column) {tuple : Tuple} {front rest : List Column}
    (h : tuple.columns = front ++ {} :: rest) (ts : Int) :
    ((returnedValue setter column).elim tuple fun value => tuple.setValue front.length value ts false).columns =
      front ++ returnedColumn ts setter column :: rest := by
  unfold returnedColumn
  cases returnedValue setter column with
  | none => exact h
  | some value =>
    have hin : (0 : Int) ≤ front.length ∧ (front.length : Int) < tuple.size := by
      rw [Tuple.size, h, List.length_append, List.length_cons]
      omega
    rw [Option.elim_some, Tuple.setValue, if_pos hin, h, Int.toNat_natCast, List.set_append_right _ _ le_rfl]
    rw [Nat.sub_self, List.set_cons_zero]
    rfl

private theorem recvTime_returned {value : Option Any} {tuple : Tuple} {j : Nat} {ts : Int} :
    (value.elim tuple fun value => tuple.setValue j value ts false).recvTime = tuple.recvTime := by
  cases value with
  | none => rfl
  | some value => exact Tuple.setValue_recvTime tuple j value ts false

/-- A tuple whose columns are read up to one; the others are as they were made. -/
structure ReadUpTo (returned : List Column) (k : Nat) (tuple : Tuple) : Prop where
  recvTime : tuple.recvTime = 0
  columns : tuple.columns = returned.take k ++ List.replicate (returned.length - k) { value := .void }

private theorem readUpTo_zero (returned : List Column) :
    ReadUpTo returned 0 { columns := List.replicate returned.length {} } where
  recvTime := rfl
  columns := rfl

/-- One column more is read back: the loop over the columns goes on by one. -/
theorem ReadUpTo.succ {returned : List Column} {k : Nat} {tuple : Tuple} (h : ReadUpTo returned k tuple)
    (hk : k < returned.length) {setter : Option AttrSetter} {column : Column} {ts : Int}
    (hreturned : returned[k] = returnedColumn ts setter column) :
    ReadUpTo returned (k + 1)
      ((returnedValue setter column).elim tuple fun value => tuple.setValue k value ts false) where
  recvTime := recvTime_returned.trans h.recvTime
  columns := by
    have hfront : (returned.take k).length = k := List.length_take_of_le hk.le
    have hrest : returned.length - k = (returned.length - (k + 1)) + 1 := by omega
    have hcolumns := h.columns
    rw [hrest, List.replicate_succ] at hcolumns
    have hnext := returned_columns setter column hcolumns ts
    rw [hfront] at hnext
    rw [hnext, ← hreturned, List.take_succ_eq_append_getElem hk, List.append_assoc, List.singleton_append]

section Row

variable {columns : List WireColumn} (hvalid : (fileOf (columns.map WireColumn.entry)).Valid)

/-- The names of the fields of the rows. -/
def rowNames (columns : List WireColumn) : List Str :=
  columns.map WireColumn.attrName ++ [createTs]

/-- How the rows of a stream are read without a schema. -/
def rowsAlone (columns : List WireColumn) : RowFormat :=
  rowFormat {} false (rowNames columns)

private theorem length_rowNames (columns : List WireColumn) : (rowNames columns).length = columns.length + 1 := by
  rw [rowNames, List.length_append, List.length_map, List.length_singleton]

private theorem attr_size_rowsAlone (columns : List WireColumn) : (rowsAlone columns).attr_size = columns.length := by
  have hsize : (rowsAlone columns).attr_size = ((rowNames columns).length : Int) - 1 := rfl
  rw [hsize, length_rowNames]
  omega

/-- One turn of the loop over the columns. -/
theorem readColumn_sent {mes : TupleMessage} {tuple : Tuple} (h : HoldsTuple (columns.map WireColumn.attr) tuple mes)
    {j : Nat} (hj : j < columns.length) (hcolumn : j < tuple.columns.length) (ts : Int) (t : Tuple) :
    readColumn ((fileOf (columns.map WireColumn.entry)).descriptor hvalid)
        ((tupleSet columns).descriptor streamPackage) (rowsAlone columns) mes ts t j =
      .ok ((returnedValue (attrSetter columns[j].attrType) tuple.columns[j]).elim t fun value =>
        t.setValue j value ts false) := by
  have hmem : columns[j] ∈ columns := List.getElem_mem hj
  have hname : (rowsAlone columns).field_names[j]? = some columns[j].attrName := by
    have hlt : j < (columns.map WireColumn.attrName).length := by rwa [List.length_map]
    refine (List.getElem?_append_left hlt).trans ?_
    rw [List.getElem?_map, List.getElem?_eq_getElem hj, Option.map_some]
  have hfield : ((tupleSet columns).descriptor streamPackage).FindFieldByName columns[j].attrName =
      some (columns[j].field.descriptor streamPackage) := by
    rw [← columns[j].shape.name_eq]
    exact hvalid.findFieldByName (tupleSet_mem columns) (List.mem_append_left _ (List.mem_map_of_mem hmem))
  have hcontent : mes columns[j].attrName =
      sentContent columns[j].attrName (attrSetter columns[j].attrType) tuple.columns[j] := by
    have hcolumns := h.columns
    rw [List.forall₂_map_left_iff, List.forall₂_iff_get] at hcolumns
    exact hcolumns.2 j hj hcolumn
  unfold readColumn
  rw [if_neg fun h => Bool.false_ne_true h.1, hname]
  simp only [hfield]
  exact setTupleAttrValue_sent columns[j].shape (knowsRows hvalid hmem) hcontent t j ts

private theorem getInt64_timestamp {mes : TupleMessage} {tuple : Tuple}
    (h : HoldsTuple (columns.map WireColumn.attr) tuple mes) :
    GetInt64 mes ((timestampField columns.length).descriptor streamPackage) =
      .ok (Int64.ofInt tuple.getTimestamp) := by
  have hts : mes ((timestampField columns.length).descriptor streamPackage).name = _ := h.timestamp
  rw [GetInt64, hts]
  exact (if_pos ⟨rfl, rfl⟩).trans (congrArg Except.ok (single_setSingle _))

/-- The message of a tuple is read as the tuple that comes back for it. -/
theorem readTuple_sent {mes : TupleMessage} {tuple : Tuple} (h : HoldsTuple (columns.map WireColumn.attr) tuple mes) :
    readTuple ((fileOf (columns.map WireColumn.entry)).descriptor hvalid)
        ((tupleSet columns).descriptor streamPackage) (rowsAlone columns) mes =
      .ok (returnedTuple (columns.map WireColumn.attr) tuple) := by
  have hts : ((tupleSet columns).descriptor streamPackage).FindFieldByName createTs =
      some ((timestampField columns.length).descriptor streamPackage) :=
    hvalid.findFieldByName (tupleSet_mem columns)
      (List.mem_append_right _ (List.mem_singleton_self (timestampField columns.length)))
  have hlength : tuple.columns.length = columns.length := by
    rw [← h.columns.length_eq, List.length_map]
  have hreturned : (returnedTuple (columns.map WireColumn.attr) tuple).columns.length = columns.length := by
    rw [returnedTuple, List.length_zipWith, List.length_map, hlength, Nat.min_self]
  have hnew : newTuple (rowsAlone columns).attr_size = .ok { columns := List.replicate columns.length {} } := by
    rw [attr_size_rowsAlone]
    exact if_neg (Int.natCast_nonneg _).not_gt
  obtain ⟨t, hfold, hread⟩ := Except.foldlM_range_ok (n := columns.length)
    (hreturned ▸ readUpTo_zero (returnedTuple (columns.map WireColumn.attr) tuple).columns) fun k hk t hread => by
      have hk' : k < tuple.columns.length := hlength ▸ hk
      refine ⟨_, readColumn_sent hvalid h hk hk' (Int64.ofInt tuple.getTimestamp).toInt t, ?_⟩
      apply hread.succ (hreturned ▸ hk)
      simp only [returnedTuple, List.getElem_zipWith, List.getElem_map]
      rfl
  have hcolumns := hread.columns
  rw [hreturned, Nat.sub_self, List.replicate_zero, List.append_nil, List.take_of_length_le hreturned.le] at hcolumns
  have ht : t = returnedTuple (columns.map WireColumn.attr) tuple := by
    obtain ⟨tColumns, tTime⟩ := t
    obtain rfl : tTime = 0 := hread.recvTime
    exact congrArg (Tuple.mk · 0) hcolumns
  have hturns : (rowsAlone columns).field_names.length - 1 = columns.length := by
    have hnames : (rowsAlone columns).field_names = rowNames columns := rfl
    rw [hnames, length_rowNames, Nat.add_sub_cancel]
  have hts' : ((tupleSet columns).descriptor streamPackage).FindFieldByName "dm2_create_ts".toList = _ := hts
  unfold readTuple
  rw [hnew]
  simp only [bind, Except.bind, hts', getInt64_timestamp h, hturns, hfold, ht]

end Row

section File

variable {columns : List WireColumn} (hvalid : (fileOf (columns.map WireColumn.entry)).Valid)

/-- Only the message of the rows is named `Tuple_set`. -/
theorem fieldNames_file :
    fieldNames ((fileOf (columns.map WireColumn.entry)).descriptor hvalid) = rowNames columns := by
  have hitems : ∀ d ∈ columns.flatMap WireColumn.items, d.name ≠ "Tuple_set".toList := by
    intro d hd heq
    obtain ⟨column, hcolumn, hitem⟩ := List.mem_flatMap.mp hd
    obtain hnone | ⟨ty, type, -, hone⟩ := column.shape.items_eq
    · rw [hnone] at hitem
      cases hitem
    · rw [hone, List.mem_singleton] at hitem
      have hlast : (rowDescriptor column.attrName type).name.getLast? = some '_' :=
        List.getLast?_append_of_ne_nil _ (by decide)
      rw [← hitem, heq] at hlast
      exact absurd hlast (by decide)
  have hmessages : ((fileOf (columns.map WireColumn.entry)).descriptor hvalid).message_types =
      (dynamicMessage :: tupleSet columns :: columns.flatMap WireColumn.items).map
        (DescriptorProto.descriptor streamPackage) := by
    rw [← fileOf_message_type]
    rfl
  have hnone : ((columns.flatMap WireColumn.items).map (DescriptorProto.descriptor streamPackage)).flatMap
      (fun desc => if desc.name = "Tuple_set".toList then desc.fields.map FieldDescriptor.name else []) = [] := by
    rw [List.flatMap_eq_nil_iff]
    intro desc hdesc
    obtain ⟨d, hd, rfl⟩ := List.mem_map.mp hdesc
    exact if_neg (hitems d hd)
  have htuple : ((tupleSet columns).descriptor streamPackage).fields.map FieldDescriptor.name = rowNames columns :=
    (DescriptorProto.map_name_fields _ _).trans (map_name_tupleSet columns)
  rw [fieldNames, hmessages, List.map_cons, List.map_cons, List.flatMap_cons, List.flatMap_cons, hnone, List.append_nil]
  exact htuple

private theorem hasItems_file : HasItems ((fileOf (columns.map WireColumn.entry)).descriptor hvalid) := by
  have hfields : ∀ d ∈ (fileOf (columns.map WireColumn.entry)).message_type, d.field ≠ [] := by
    refine forall_message_type (List.cons_ne_nil _ _) ?_ fun _ _ _ _ _ => List.cons_ne_nil _ _
    exact List.append_ne_nil_of_right_ne_nil _ (List.cons_ne_nil _ _)
  intro desc _ field _ child hchild
  obtain ⟨d, hd, rfl⟩ := List.mem_map.mp (FileDescriptor.mem_of_message_type hchild)
  exact fun h => hfields d hd (List.map_eq_nil_iff.mp h)

/-- The messages of tuples are read as the tuples that come back for them. -/
theorem readTuples_sent {tuples : List Tuple} {rows : List TupleMessage}
    (h : List.Forall₂ (HoldsTuple (columns.map WireColumn.attr)) tuples rows) :
    readTuples ((fileOf (columns.map WireColumn.entry)).descriptor hvalid) (tupleSetField.descriptor streamPackage)
        (rowsAlone columns) (topMessage rows) =
      .ok (tuples.map (returnedTuple (columns.map WireColumn.attr))) := by
  have hmessages : (topMessage rows (tupleSetField.descriptor streamPackage).name).messages = rows :=
    congrArg FieldContent.messages (topMessage_tuple_set rows)
  have hsize : FieldSize (topMessage rows) (tupleSetField.descriptor streamPackage) = rows.length :=
    congrArg List.length hmessages
  have hchild := message_type_tupleSetField hvalid
  have hread : rows.mapM (readTuple ((fileOf (columns.map WireColumn.entry)).descriptor hvalid)
      ((tupleSet columns).descriptor streamPackage) (rowsAlone columns)) =
      .ok (tuples.map (returnedTuple (columns.map WireColumn.attr))) := by
    rw [Except.mapM_eq_ok_iff, List.forall₂_map_right_iff]
    exact h.flip.imp fun _ _ holds => readTuple_sent hvalid holds
  unfold readTuples
  rw [if_neg (by decide), hsize]
  simp only [hchild, hmessages, hread]
  cases h with
  | nil => rfl
  | cons _ _ => rfl

/-- A file of a description and the message of tuples in it are read as the tuples that
come back, with the names of the columns. -/
theorem readFile_sent {tuples : List Tuple} {rows : List TupleMessage}
    (h : List.Forall₂ (HoldsTuple (columns.map WireColumn.attr)) tuples rows) (parse : Descriptor → TopMessage)
    (hparse : parse (dynamicMessage.descriptor streamPackage) = topMessage rows) :
    ∃ types, readFile ((fileOf (columns.map WireColumn.entry)).descriptor hvalid) parse {} false =
      .ok (tuples.map (returnedTuple (columns.map WireColumn.attr)), columns.map WireColumn.attrName, types) := by
  obtain ⟨hok, hfields⟩ := readFields_spec ((fileOf (columns.map WireColumn.entry)).descriptor hvalid)
  obtain ⟨fieldList, hfieldList⟩ := Except.isOk_iff.mp (hok.mpr (hasItems_file hvalid))
  have hnames := (hfields fieldList hfieldList).trans (fieldNames_file hvalid)
  have hne : fieldList ≠ [] := by
    rintro rfl
    exact absurd hnames.symm (List.append_ne_nil_of_right_ne_nil _ (List.cons_ne_nil _ _))
  have htop : ((fileOf (columns.map WireColumn.entry)).descriptor hvalid).FindMessageTypeByName
      "DynamicMessage_dm2is".toList = some (dynamicMessage.descriptor streamPackage) :=
    hvalid.findMessageTypeByName (dynamicMessage_mem columns)
  have hfield : (dynamicMessage.descriptor streamPackage).FindFieldByName "tuple_set".toList =
      some (tupleSetField.descriptor streamPackage) :=
    hvalid.findFieldByName (dynamicMessage_mem columns) (List.mem_singleton_self tupleSetField)
  have hread := readTuples_sent hvalid h
  rw [rowsAlone, ← hnames, ← hparse] at hread
  refine ⟨(fieldList.map Prod.snd).dropLast, ?_⟩
  unfold readFile
  rw [hfieldList]
  simp only [bind, Except.bind, htop, hfield, hread, if_neg hne]
  rw [hnames, rowNames, List.dropLast_concat]
  rfl

end File

/-- The text that the encoder puts together is taken apart as it was. -/
theorem splitMessage_eq {metadata : Str} (h : metadata.length < 2 ^ 31) (message : Str) :
    splitMessage (to_string_nat metadata.length ++ ",".toList ++ metadata ++ message) =
      some ((metadata.length : Int), metadata ++ message) := by
  have hcomma : ',' ∉ to_string_nat metadata.length := fun hmem => by
    cases isDigit_of_mem_to_string_nat hmem
  have hcut : Text.cut ",".toList (to_string_nat metadata.length ++ ",".toList ++ metadata ++ message) =
      some (to_string_nat metadata.length, metadata ++ message) := by
    rw [List.append_assoc, List.append_assoc]
    exact Text.cut_singleton hcomma _
  have hnumber : stoi (to_string_nat metadata.length) = .ok (Int32.ofInt metadata.length) := by
    rw [to_string_nat_eq_int]
    exact stoi_to_string_int (by omega)
  rw [splitMessage, hcut]
  simp only [hnumber]
  rw [Int32.toInt_ofInt_of_le (by omega) (by omega)]

/-- A column comes back as it was: it is not null, and it holds a value of the very type of
its field. What comes back for a `float` or for no rows is the empty value. -/
def ComesBack (setter : Option AttrSetter) (column : Column) : Prop :=
  column.isNull = false ∧
    match setter with
    | none => column.value = .void
    | some (.single ty) => ∃ v, column.value = .scalar ty v
    | some .bytes => ∃ v, column.value = .scalar .string v
    | some (.repeated ty) => ∃ xs, column.value = .vector ty xs
    | some (.rows ty) => column.value = .void ∨ ∃ rows, rows ≠ [] ∧ column.value = .vectorVector ty rows

private theorem any_cast_scalar (ty : ScalarType) (v : ty.denote) : any_cast ty (.scalar ty v) = some v :=
  dif_pos rfl

private theorem vectorElements_vector (ty : ScalarType) (xs : List ty.denote) :
    vectorElements ty (.vector ty xs) = xs :=
  dif_pos rfl

private theorem vectorRows_vectorVector (ty : ScalarType) (rows : List (List ty.denote)) :
    vectorRows ty (.vectorVector ty rows) = rows :=
  dif_pos rfl

private theorem isNull_returnedColumn (ts : Int) (setter : Option AttrSetter) (column : Column) :
    (returnedColumn ts setter column).isNull = false := by
  unfold returnedColumn
  cases returnedValue setter column with
  | none => rfl
  | some value => rfl

section NoRows

variable {ty : ScalarType} {value : Any} {timestamp : Int}

private theorem value_of_noRows (h : vectorRows ty value = []) (ts : Int) :
    (returnedColumn ts (some (.rows ty)) ⟨value, timestamp, false⟩).value = .void := by
  have hnone : returnedValue (some (.rows ty)) ⟨value, timestamp, false⟩ = none := if_pos h
  rw [returnedColumn, hnone, Option.elim_none]

private theorem value_of_rows (h : vectorRows ty value ≠ []) (ts : Int) :
    (returnedColumn ts (some (.rows ty)) ⟨value, timestamp, false⟩).value = .vectorVector ty (vectorRows ty value) := by
  have hsome : returnedValue (some (.rows ty)) ⟨value, timestamp, false⟩ =
      some (.vectorVector ty (vectorRows ty value)) := if_neg h
  rw [returnedColumn, hsome, Option.elim_some]

end NoRows

/-- The value of a column that is not null, as it comes back. -/
theorem value_returnedColumn_iff {setter : Option AttrSetter} {column : Column} (hnull : column.isNull = false)
    (h : Writable setter column) (ts : Int) :
    (returnedColumn ts setter column).value = column.value ↔ ComesBack setter column := by
  obtain ⟨value, timestamp, isNull⟩ := column
  obtain rfl : isNull = false := hnull
  have hwritable := h.resolve_left Bool.false_ne_true
  unfold ComesBack
  rw [and_iff_right rfl]
  cases setter with
  | none => exact eq_comm
  | some setter =>
    cases setter with
    | single ty =>
      refine ⟨fun h => ⟨_, h.symm⟩, ?_⟩
      rintro ⟨v, rfl : value = .scalar ty v⟩
      exact congrArg (fun v => Any.scalar ty (Option.getD v _)) (any_cast_scalar ty v)
    | bytes =>
      refine ⟨fun h => ⟨_, h.symm⟩, ?_⟩
      rintro ⟨v, rfl : value = .scalar .string v⟩
      rfl
    | repeated ty =>
      refine ⟨fun h => ⟨_, h.symm⟩, ?_⟩
      rintro ⟨xs, rfl : value = .vector ty xs⟩
      exact congrArg (Any.vector ty) (vectorElements_vector ty xs)
    | rows ty =>
      by_cases hrows : vectorRows ty value = []
      · rw [value_of_noRows hrows]
        refine ⟨fun h => Or.inl h.symm, ?_⟩
        rintro (rfl | ⟨rows, hne, rfl⟩)
        · rfl
        · rw [vectorRows_vectorVector] at hrows
          exact absurd hrows hne
      · rw [value_of_rows hrows]
        refine ⟨fun h => Or.inr ⟨_, hrows, h.symm⟩, ?_⟩
        rintro (rfl | ⟨rows, hne, rfl⟩)
        · exact absurd rfl hrows
        · rw [vectorRows_vectorVector]

/-- The column that is returned is the one sent exactly if its setter lets it come back. -/
private theorem returnedColumn_iff {setter : Option AttrSetter} {column : Column} (h : Writable setter column)
    (ts : Int) :
    ((returnedColumn ts setter column).value = column.value ∧
      (returnedColumn ts setter column).isNull = column.isNull) ↔ ComesBack setter column := by
  rw [isNull_returnedColumn]
  constructor
  · rintro ⟨hvalue, hnull⟩
    exact (value_returnedColumn_iff hnull.symm h ts).mp hvalue
  · intro hback
    exact ⟨(value_returnedColumn_iff hback.1 h ts).mpr hback, hback.1.symm⟩

/-- The values and null flags of a tuple that comes back are those that were sent. -/
def SameColumns (tuple tuple' : Tuple) : Prop :=
  List.Forall₂ (fun column column' => column.value = column'.value ∧ column.isNull = column'.isNull)
    tuple.columns tuple'.columns

/-- A tuple comes back with its columns exactly if each of them comes back. -/
private theorem sameColumns_iff {attrs : List (Str × Str)} {tuple : Tuple} (h : Conforms attrs tuple) :
    SameColumns (returnedTuple attrs tuple) tuple ↔
      List.Forall₂ (fun attr column => ComesBack (attrSetter attr.2) column) attrs tuple.columns := by
  unfold SameColumns returnedTuple
  generalize (Int64.ofInt tuple.getTimestamp).toInt = ts
  unfold Conforms at h
  generalize tuple.columns = columns at h ⊢
  induction h with
  | nil => exact iff_of_true .nil .nil
  | cons hfirst _ ih =>
    rw [List.zipWith_cons_cons, List.forall₂_cons, List.forall₂_cons, ih, returnedColumn_iff hfirst ts]

end IS.ProtobufParser

namespace IS

/-- What is asked of the library for one description and one message: it accepts the
description, if it is valid, and reads its text and that of the message back. -/
structure Protobuf.Keeps (protobuf : Protobuf) (p : FileDescriptorProto) (mes : TopMessage) : Prop where
  accepts : ∀ h : p.Valid, protobuf.BuildFile p = some (p.descriptor h)
  short : (protobuf.SerializeFile p).length < 2 ^ 31
  parse_file : protobuf.ParseAndBuildFile (protobuf.SerializeFile p) = protobuf.BuildFile p
  parse_message : ∀ fd d, protobuf.BuildFile p = some fd → d ∈ fd.descriptors → IsTop fd d mes →
    protobuf.ParseFromString fd d (protobuf.SerializeToString fd d mes) = mes

namespace ProtobufParser

section Main

variable {protobuf : Protobuf} {attrs : List (Str × Str)} {tuples : List Tuple}

/-- Tuples that conform are written as messages that hold them. -/
theorem mapM_writeTuple (hnodup : (attrs.map Prod.fst).Nodup) (hts : createTs ∉ attrs.map Prod.fst)
    (h : ∀ tuple ∈ tuples, Conforms attrs tuple) :
    ∃ rows, tuples.mapM (writeTuple attrs) = .ok rows ∧ List.Forall₂ (HoldsTuple attrs) tuples rows := by
  rw [Except.exists_mapM_and_forall₂]
  exact fun tuple htuple => writeTuple_spec hnodup hts (h tuple htuple)

/-- Types that are all known have a description. -/
private theorem exists_describe (h : ∀ attr ∈ attrs, (AttributeTypeToProtoFieldType attr.2).isSome = true) (i : Nat) :
    ∃ fields, columnFields attrs i = some fields := by
  induction attrs generalizing i with
  | nil => exact ⟨[], rfl⟩
  | cons attr attrs ih =>
    rw [List.forall_mem_cons] at h
    obtain ⟨fields, hfields⟩ := ih h.2 (i + 1)
    obtain ⟨type, htype⟩ := Option.isSome_iff_exists.mp h.1
    have hfield : ∃ field, columnField attr.1 attr.2 i = some field := ⟨_, by rw [columnField, htype]; rfl⟩
    obtain ⟨field, hfield⟩ := hfield
    refine ⟨field :: fields, ?_⟩
    rw [columnFields, hfield, hfields]
    rfl

private theorem valid_of_columnFields (hnodup : (attrs.map Prod.fst).Nodup)
    (hidentifiers : ∀ name ∈ attrs.map Prod.fst, IsIdentifier name) (hts : createTs ∉ attrs.map Prod.fst)
    {fields : List (FieldDescriptorProto × List DescriptorProto)} (hfields : columnFields attrs 0 = some fields) :
    (fileOf fields).Valid := by
  obtain ⟨columns, rfl, rfl, hnumbers⟩ := exists_wireColumns hfields
  rw [List.map_map] at hnodup hts hidentifiers
  have hfit : NamesFit columns :=
    ⟨hnodup, fun column hcolumn => hidentifiers _ (List.mem_map_of_mem hcolumn), hts⟩
  exact valid_fileOf hfit hnumbers

private theorem mem_schemaColumns {columns : List Attribute} {i : Nat} {used : List Str} {attr : Str × Str}
    (h : attr ∈ schemaColumns columns i used) : ∃ column ∈ columns, attr.2 = attrTypeOf column := by
  induction columns generalizing i used with
  | nil => cases h
  | cons column columns ih =>
    obtain rfl | h := List.mem_cons.mp h
    · exact ⟨column, List.mem_cons_self, rfl⟩
    · obtain ⟨column', hmem, htype⟩ := ih h
      exact ⟨column', List.mem_cons_of_mem _ hmem, htype⟩

/-- The text that the encoder gives where each of its steps succeeds. -/
theorem serialize_eq {schema : Schema} (hattrs : schemaColumns schema.attributes 0 [] = attrs) (hne : attrs ≠ [])
    (htuples : tuples ≠ []) {p : FileDescriptorProto} (hdescribe : describe attrs = some p) {fd : FileDescriptor}
    (hbuild : protobuf.BuildFile p = some fd) {top : Descriptor}
    (htop : fd.FindMessageTypeByName "DynamicMessage_dm2is".toList = some top) {rows : List TupleMessage}
    (hrows : tuples.mapM (writeTuple attrs) = .ok rows) :
    SerializeToStringDynamically protobuf tuples (some schema) =
      .ok (to_string_nat (protobuf.SerializeFile p).length ++ ",".toList ++ protobuf.SerializeFile p ++
        protobuf.SerializeToString fd top (topMessage rows)) := by
  obtain ⟨first, rest, rfl⟩ := List.exists_cons_of_ne_nil htuples
  unfold SerializeToStringDynamically
  simp only [hattrs, if_neg hne, hdescribe, Option.bind_some, hbuild, Option.map_some, htop, hrows]

/-- The text of a description that is accepted, and of a message, is read as that file. -/
theorem deserialize_eq {p : FileDescriptorProto} (hshort : (protobuf.SerializeFile p).length < 2 ^ 31)
    {fd : FileDescriptor} (hparse : protobuf.ParseAndBuildFile (protobuf.SerializeFile p) = some fd) (message : Str) :
    DeserializeToTupleDynamically protobuf
        (to_string_nat (protobuf.SerializeFile p).length ++ ",".toList ++ protobuf.SerializeFile p ++ message)
        {} false =
      readFile fd (fun top => protobuf.ParseFromString fd top message) {} false := by
  have hwithin : ¬ (((protobuf.SerializeFile p).length : Int) < 0 ∨
      ((protobuf.SerializeFile p ++ message).length : Int) < (protobuf.SerializeFile p).length) := by
    rw [List.length_append]
    omega
  rw [DeserializeToTupleDynamically, splitMessage_eq hshort]
  simp only [if_neg hwithin, Int.toNat_natCast, List.take_left, List.drop_left, hparse]

end Main

/-- Tuples of a schema whose column names are not that of the time, and whose types and values
are accepted: the text of the encoder is read, without a schema, as the tuples in their order, each
with the names of its fields and the time of its first column, and a tuple has the values and
null flags that were sent exactly where each of its columns comes back. -/
theorem deserialize_serialize (protobuf : Protobuf) (schema : Schema) (tuples : List Tuple)
    (hattributes : schema.attributes ≠ []) (htuples : tuples ≠ [])
    (htypes : ∀ attr ∈ schema.attributes, (AttributeTypeToProtoFieldType (attrTypeOf attr)).isSome = true)
    (hnames : ∀ attr ∈ schema.attributes, (attr.name.map fun c => if isNameChar c then c else '_') ≠ createTs)
    (hconforms : ∀ tuple ∈ tuples, Conforms (schemaColumns schema.attributes 0 []) tuple)
    (hlibrary : ∀ p rows, describe (schemaColumns schema.attributes 0 []) = some p →
      tuples.mapM (writeTuple (schemaColumns schema.attributes 0 [])) = .ok rows → protobuf.Keeps p (topMessage rows)) :
    ∃ text types, SerializeToStringDynamically protobuf tuples (some schema) = .ok text ∧
      DeserializeToTupleDynamically protobuf text {} false =
        .ok (tuples.map (returnedTuple (schemaColumns schema.attributes 0 [])),
          (schemaColumns schema.attributes 0 []).map Prod.fst, types) ∧
      ∀ tuple ∈ tuples, SameColumns (returnedTuple (schemaColumns schema.attributes 0 []) tuple) tuple ↔
        List.Forall₂ (fun attr column => ComesBack (attrSetter attr.2) column)
          (schemaColumns schema.attributes 0 []) tuple.columns := by
  have hne : schemaColumns schema.attributes 0 [] ≠ [] := by
    cases hattrs : schema.attributes with
    | nil => exact absurd hattrs hattributes
    | cons attr attrs => exact List.cons_ne_nil _ _
  obtain ⟨hnodup, hidentifiers⟩ := schemaColumns_names schema.attributes 0 []
  have hts : createTs ∉ (schemaColumns schema.attributes 0 []).map Prod.fst := by
    rw [createTs_mem_schemaColumns_iff]
    rintro ⟨_, hmem, hname⟩
    obtain ⟨attr, hattr, rfl⟩ := List.mem_map.mp hmem
    exact hnames attr hattr hname
  have haccepted : ∀ attr ∈ schemaColumns schema.attributes 0 [],
      (AttributeTypeToProtoFieldType attr.2).isSome = true := by
    intro attr hattr
    obtain ⟨column, hcolumn, htype⟩ := mem_schemaColumns hattr
    exact htype ▸ htypes column hcolumn
  generalize hattrs : schemaColumns schema.attributes 0 [] = attrs at *
  obtain ⟨rows, hrows, hholds⟩ := mapM_writeTuple hnodup hts hconforms
  obtain ⟨fields, hfields⟩ := exists_describe haccepted 0
  have hdescribe : describe attrs = some (fileOf fields) := by
    rw [describe, hfields, Option.map_some]
  have hvalid := valid_of_columnFields hnodup (fun name hname => (hidentifiers name hname).1) hts hfields
  obtain ⟨columns, rfl, rfl, -⟩ := exists_wireColumns hfields
  have hkeeps := hlibrary _ rows hdescribe hrows
  have hbuild := hkeeps.accepts hvalid
  have htop := hvalid.findMessageTypeByName (dynamicMessage_mem columns)
  have hparse : protobuf.ParseFromString _ (dynamicMessage.descriptor streamPackage) _ = topMessage rows :=
    hkeeps.parse_message _ _ hbuild (List.mem_map_of_mem (dynamicMessage_mem columns))
      (isTop_topMessage hvalid (isTuple_of_forall₂ hvalid hholds))
  obtain ⟨types, hread⟩ := readFile_sent hvalid hholds (fun top => protobuf.ParseFromString _ top _) hparse
  refine ⟨_, types, serialize_eq hattrs hne htuples hdescribe hbuild htop hrows, ?_,
    fun tuple htuple => sameColumns_iff (hconforms tuple htuple)⟩
  rw [List.map_map, deserialize_eq hkeeps.short (hkeeps.parse_file.trans hbuild)]
  exact hread

section Two

/-- Two columns: an integer and texts. -/
def twoSchema : Schema where
  attributes := [
    { name := "n".toList, type := "int".toList },
    { name := "tags".toList, type := "vector(string)".toList }]

def twoTuples : List Tuple :=
  [{ columns := [⟨.scalar .int 5, 3, false⟩, ⟨.vector .string ["x".toList], 3, false⟩] },
   { columns := [⟨.scalar .int 6, 4, true⟩, ⟨.vector .string [], 4, false⟩] }]

def twoColumns : List (Str × Str) :=
  [("n".toList, "int".toList), ("tags".toList, "vector(string)".toList)]

private theorem schemaColumns_two : schemaColumns twoSchema.attributes 0 [] = twoColumns := by decide +kernel

def twoFile : FileDescriptorProto :=
  fileOf ((columnFields twoColumns 0).getD [])

private theorem columnFields_two :
    columnFields twoColumns 0 = some ((columnFields twoColumns 0).getD []) := by decide +kernel

private theorem twoFile_valid : twoFile.Valid := by
  obtain ⟨hnodup, hidentifiers⟩ := schemaColumns_names twoSchema.attributes 0 []
  rw [schemaColumns_two] at hnodup hidentifiers
  exact valid_of_columnFields hnodup (fun name hname => (hidentifiers name hname).1) (by decide) columnFields_two

/-- The text of the description. -/
def twoMetadata : Str :=
  "\x0a\x0ddynamic_proto\x12\x09dm2_proto".toList ++
  "\x224\x0a\x14DynamicMessage_dm2is\x12\x1c\x0a\x09tuple_set\x18\x01\x20\x03\x28\x0b2\x09Tuple_set".toList ++
  "\x227\x0a\x09Tuple_set\x12\x07\x0a\x01n\x18\x01\x28\x05".toList ++
  "\x12\x0c\x0a\x04tags\x18\x02\x20\x03\x28\x09\x12\x13\x0a\x0ddm2_create_ts\x18\x03\x28\x03".toList ++
  "b\x06proto3".toList

def twoRows : List TupleMessage :=
  (twoTuples.mapM (writeTuple twoColumns)).toOption.getD []

/-- The library for this description and the message of the tuples. -/
def twoLibrary : Protobuf where
  SerializeFile p := if p = twoFile then twoMetadata else []
  BuildFile p := if p = twoFile then some (twoFile.descriptor twoFile_valid) else none
  ParseAndBuildFile s := if s = twoMetadata then some (twoFile.descriptor twoFile_valid) else none
  SerializeToString _ _ _ := "\x0a\x07\x08\x05\x12\x01x\x18\x03\x0a\x02\x18\x04".toList
  ParseFromString _ _ _ := topMessage twoRows

/-- The library of the example keeps the message of its two tuples. -/
private theorem keeps_two {p : FileDescriptorProto} {rows : List TupleMessage}
    (hdescribe : describe twoColumns = some p)
    (hrows : twoTuples.mapM (writeTuple twoColumns) = .ok rows) : twoLibrary.Keeps p (topMessage rows) := by
  have hp : describe twoColumns = some twoFile := congrArg (Option.map fileOf) columnFields_two
  obtain rfl : twoFile = p := Option.some.inj (hp.symm.trans hdescribe)
  have hr : twoRows = rows := by rw [twoRows, hrows]; rfl
  refine ⟨fun _ => ?_, ?_, ?_, fun _ _ _ _ _ => congrArg topMessage hr⟩
  · simp only [twoLibrary, if_true]
  · simp only [twoLibrary, if_true]
    decide +kernel
  · simp only [twoLibrary, if_true]

/-- The first tuple comes back; of the second one the null flag is lost. -/
theorem deserialize_serialize_two :
    ∃ text types, SerializeToStringDynamically twoLibrary twoTuples (some twoSchema) = .ok text ∧
      DeserializeToTupleDynamically twoLibrary text {} false =
        .ok (twoTuples.map (returnedTuple (schemaColumns twoSchema.attributes 0 [])),
          (schemaColumns twoSchema.attributes 0 []).map Prod.fst, types) ∧
      ∀ tuple ∈ twoTuples, SameColumns (returnedTuple (schemaColumns twoSchema.attributes 0 []) tuple) tuple ↔
        List.Forall₂ (fun attr column => ComesBack (attrSetter attr.2) column)
          (schemaColumns twoSchema.attributes 0 []) tuple.columns := by
  refine deserialize_serialize twoLibrary twoSchema twoTuples (List.cons_ne_nil _ _) (List.cons_ne_nil _ _)
    (by decide +kernel) (by decide +kernel) ?_ ?_
  · rw [schemaColumns_two]
    intro tuple htuple
    rw [twoTuples, List.mem_cons, List.mem_singleton] at htuple
    obtain rfl | rfl := htuple
    · exact .cons (Or.inr rfl) (.cons (Or.inr trivial) .nil)
    · exact .cons (Or.inl rfl) (.cons (Or.inr trivial) .nil)
  · rw [schemaColumns_two]
    exact fun p rows => keeps_two

end Two

end ProtobufParser

end IS

import Dm20.Protobuf.DynamicDecoder
import Dm20.Lib.Except

namespace IS.ProtobufParser

/-- The number of attributes of a tuple: that of the schema, or, for a schema without
any, that of the columns of the message. -/
def attrSize (schema : Schema) (names : List Str) : Nat :=
  if schema.getAttributeSize = 0 then names.length else schema.getAttributeSize

/-- The reading of a text ends in tuples with the right number of attributes. -/
def Decodes (protobuf : Protobuf) (serializedStr : Str) (schema : Schema) (fromApl : Bool) : Prop :=
  ∃ tuples names types, DeserializeToTupleDynamically protobuf serializedStr schema fromApl =
    .ok (tuples, names, types) ∧
    ∀ tuple ∈ tuples, tuple.size = attrSize schema names

/-- Where there are rows, their type has items under the name of the column. -/
def ItemsReadable (fd : FileDescriptor) (mes : TupleMessage) (field : FieldDescriptor) (field_name : Str) : Prop :=
  (mes field.name).messages ≠ [] → ∃ v2des v2fd, fd.message_type field = some v2des ∧
    v2des.FindFieldByName (field_name ++ "_item".toList) = some v2fd ∧ v2fd.is_repeated = true

/-- The value of a field can be taken over: the items of its rows are there, if it is a
repeated field of messages. -/
def ValueReadable (fd : FileDescriptor) (mes : TupleMessage) (field : FieldDescriptor) (field_name : Str) : Prop :=
  field.is_repeated = true → (∃ name, field.type = .TYPE_MESSAGE name) → ItemsReadable fd mes field field_name

section Column

variable {fd : FileDescriptor} {mes : TupleMessage} {field : FieldDescriptor} {field_name : Str}

/-- The rows of a column are read without an error exactly if each item of it can be read. -/
private theorem isOk_setRows_iff (tuple : Tuple) (t_idx : Nat) (ts : Int) :
    (setRows fd mes field tuple t_idx ts field_name).isOk = true ↔ ItemsReadable fd mes field field_name := by
  rw [setRows, ItemsReadable]
  cases (mes field.name).messages with
  | nil => exact iff_of_true rfl fun h => absurd rfl h
  | cons item items =>
    rw [forall_prop_of_true (List.cons_ne_nil _ _)]
    cases fd.message_type field with
    | none => simp
    | some v2des =>
      cases hitem : v2des.FindFieldByName (field_name ++ "_item".toList) with
      | none =>
        simp only [hitem]
        refine iff_of_false Bool.false_ne_true ?_
        rintro ⟨_, v2fd, hdes, hv2fd, -⟩
        obtain rfl := Option.some.inj hdes
        cases hitem.symm.trans hv2fd
      | some v2fd =>
        simp only [hitem, Option.some.injEq, exists_and_left, exists_eq_left']
        split
        · next hrepeated =>
          split <;> exact iff_of_true rfl hrepeated
        · next hrepeated => exact iff_of_false (by simp) hrepeated

/-- Storing rows keeps the number of columns. -/
private theorem size_of_setRows {tuple tuple' : Tuple} {t_idx : Nat} {ts : Int}
    (h : setRows fd mes field tuple t_idx ts field_name = .ok tuple') : tuple'.size = tuple.size := by
  unfold setRows at h
  split at h
  · exact congrArg Tuple.size (Except.ok.inj h).symm
  · split at h
    · cases h
    · split at h
      · cases h
      · split at h
        · split at h
          · rw [← Except.ok.inj h, Tuple.setValue_size]
          · exact congrArg Tuple.size (Except.ok.inj h).symm
        · cases h

/-- A value is stored without an error exactly if the field has it in the form that its type
asks for. -/
private theorem isOk_setTupleAttrValue_iff (tuple : Tuple) (t_idx : Nat) (ts : Int) (isNull : Bool) :
    (setTupleAttrValue fd mes field tuple t_idx ts field_name isNull).isOk = true ↔
      ValueReadable fd mes field field_name := by
  rw [setTupleAttrValue, ValueReadable]
  split
  · next hrepeated =>
    rw [forall_prop_of_true hrepeated]
    cases helement : elementType field.type with
    | some ty =>
      refine iff_of_true rfl ?_
      rintro ⟨name, hname⟩
      rw [hname] at helement
      cases helement
    | none =>
      cases htype : field.type with
      | TYPE_MESSAGE name =>
        simp only
        rw [isOk_setRows_iff]
        exact ⟨fun h _ => h, fun h => h ⟨name, rfl⟩⟩
      | _ => exact iff_of_true rfl fun ⟨_, h⟩ => nomatch h
  · next hsingle =>
    refine iff_of_true ?_ fun h => absurd h hsingle
    split <;> rfl

/-- Storing a value keeps the number of columns. -/
private theorem size_of_setTupleAttrValue {tuple tuple' : Tuple} {t_idx : Nat} {ts : Int} {isNull : Bool}
    (h : setTupleAttrValue fd mes field tuple t_idx ts field_name isNull = .ok tuple') : tuple'.size = tuple.size := by
  unfold setTupleAttrValue at h
  split at h
  · split at h
    · rw [← Except.ok.inj h, Tuple.setValue_size]
    · split at h
      · exact size_of_setRows h
      · exact congrArg Tuple.size (Except.ok.inj h).symm
  · split at h
    · rw [← Except.ok.inj h, Tuple.setValue_size]
    · exact congrArg Tuple.size (Except.ok.inj h).symm

/-- A value is normalised without an error exactly if its field has the type of the schema, or
the type is known. -/
private theorem isOk_checkAndNormalizedTuple_iff (tuple : Tuple) (t_idx : Nat) (attrType : Str) :
    (checkAndNormalizedTuple field tuple t_idx attrType).isOk = true ↔
      equalAttr field attrType = true ∨ (typeMap.lookup attrType).isSome = true := by
  rw [checkAndNormalizedTuple]
  split
  · next hequal => exact iff_of_true rfl (Or.inl hequal)
  · next hequal =>
    rw [or_iff_right hequal]
    unfold normalizeAny
    cases typeMap.lookup attrType with
    | none => exact iff_of_false (by simp [bind, Except.bind]) (by simp)
    | some ty =>
      refine iff_of_true ?_ rfl
      simp only
      split <;> rfl

private theorem size_of_checkAndNormalizedTuple {tuple tuple' : Tuple} {t_idx : Nat} {attrType : Str}
    (h : checkAndNormalizedTuple field tuple t_idx attrType = .ok tuple') : tuple'.size = tuple.size := by
  unfold checkAndNormalizedTuple at h
  split at h
  · exact congrArg Tuple.size (Except.ok.inj h).symm
  · obtain ⟨retVal, -, h⟩ := Except.bind_eq_ok_iff.mp h
    rw [← Except.ok.inj h, Tuple.setValue_size]

end Column

/-- A column is read: not one behind those of the schema in a message of an application. -/
def Reads (format : RowFormat) (j : Nat) : Prop :=
  ¬ (format.fromApl = true ∧ format.tuple_normal_attr_count ≤ j)

/-- A column can be read: its field is there, and its value can be taken over; in a
message of an application there is a type for it, which the field has or to which values
can be brought. -/
def ColumnReadable (fd : FileDescriptor) (des : Descriptor) (format : RowFormat) (mes : TupleMessage) (j : Nat)
    (field_name : Str) : Prop :=
  ∃ field, des.FindFieldByName field_name = some field ∧ ValueReadable fd mes field field_name ∧
    (format.fromApl = true → ∃ attrType, format.attrTypeList[j]? = some attrType ∧
      (equalAttr field attrType = true ∨ (typeMap.lookup attrType).isSome = true))

/-- A message can be read as a tuple: it has its time stamp as an integer of 64 bits, and
each column that is read. -/
structure RowReadable (fd : FileDescriptor) (des : Descriptor) (format : RowFormat) (mes : TupleMessage) : Prop where
  timestamp : ∃ field, des.FindFieldByName "dm2_create_ts".toList = some field ∧ field.is_repeated = false ∧
    field.type.cpp_type = some (.scalar .long)
  columns : ∀ j < format.field_names.length - 1, ∀ field_name, format.field_names[j]? = some field_name →
    Reads format j → ColumnReadable fd des format mes j field_name

section Row

variable {fd : FileDescriptor} {des : Descriptor} {format : RowFormat} {mes : TupleMessage}

/-- A field is read without an error exactly if its value can be read and, in a message of an
application, its type is one that it may have. -/
private theorem isOk_readField_iff {field : FieldDescriptor} (ts : Int) (tuple : Tuple) (j : Nat) (field_name : Str) :
    (readField fd format mes ts tuple j field_name field).isOk = true ↔ ValueReadable fd mes field field_name ∧
      (format.fromApl = true → ∃ attrType, format.attrTypeList[j]? = some attrType ∧
        (equalAttr field attrType = true ∨ (typeMap.lookup attrType).isSome = true)) := by
  rw [← isOk_setTupleAttrValue_iff tuple j ts false, readField]
  split
  · next hfromApl =>
    rw [Except.isOk_bind_iff, forall_prop_of_true hfromApl, Except.isOk_iff, ← exists_and_right]
    refine exists_congr fun tuple' => and_congr_right fun _ => ?_
    cases format.attrTypeList[j]? with
    | none => exact iff_of_false Bool.false_ne_true fun ⟨_, h, _⟩ => nomatch h
    | some attrType =>
      simp only [Option.some.injEq, exists_eq_left']
      exact isOk_checkAndNormalizedTuple_iff tuple' j attrType
  · next hfromApl => rw [and_iff_left fun h => absurd h hfromApl]

/-- Reading a field keeps the number of columns. -/
private theorem size_of_readField {field : FieldDescriptor} {ts : Int} {tuple tuple' : Tuple} {j : Nat}
    {field_name : Str}
    (h : readField fd format mes ts tuple j field_name field = .ok tuple') : tuple'.size = tuple.size := by
  unfold readField at h
  split at h
  · obtain ⟨tuple'', hset, h⟩ := Except.bind_eq_ok_iff.mp h
    split at h
    · cases h
    · exact (size_of_checkAndNormalizedTuple h).trans (size_of_setTupleAttrValue hset)
  · exact size_of_setTupleAttrValue h

/-- A column that is there is taken in exactly where it can be read. -/
theorem isOk_readColumn_iff {ts : Int} {tuple : Tuple} {j : Nat} {field_name : Str}
    (hname : format.field_names[j]? = some field_name) :
    (readColumn fd des format mes ts tuple j).isOk = true ↔
      (Reads format j → ColumnReadable fd des format mes j field_name) := by
  unfold readColumn
  by_cases hreads : Reads format j
  · rw [if_neg hreads, forall_prop_of_true hreads, ColumnReadable, hname]
    simp only
    cases hfield : des.FindFieldByName field_name with
    | none => exact iff_of_false Bool.false_ne_true fun ⟨_, h, _⟩ => nomatch h
    | some field =>
      simp only [Option.some.injEq, exists_eq_left']
      exact isOk_readField_iff ts tuple j field_name
  · rw [if_pos (not_not.mp hreads)]
    exact iff_of_true rfl fun h => absurd h hreads

/-- Reading a column keeps the number of columns. -/
private theorem size_of_readColumn {ts : Int} {tuple tuple' : Tuple} {j : Nat}
    (h : readColumn fd des format mes ts tuple j = .ok tuple') : tuple'.size = tuple.size := by
  unfold readColumn at h
  split at h
  · exact congrArg Tuple.size (Except.ok.inj h).symm
  · split at h
    · cases h
    · split at h
      · cases h
      · exact size_of_readField h

private theorem isOk_getInt64_iff {field : FieldDescriptor} :
    (GetInt64 mes field).isOk = true ↔ field.is_repeated = false ∧ field.type.cpp_type = some (.scalar .long) := by
  unfold GetInt64
  split <;> simp_all

/-- The columns of a tuple are read without an error exactly if each of them can be read, and
the number of columns stays. -/
private theorem foldlM_readColumn_spec (ts : Int) (tuple : Tuple) :
    (((List.range (format.field_names.length - 1)).foldlM (readColumn fd des format mes ts) tuple).isOk = true ↔
      ∀ j < format.field_names.length - 1, ∀ field_name, format.field_names[j]? = some field_name →
        Reads format j → ColumnReadable fd des format mes j field_name) ∧
      ∀ tuple', (List.range (format.field_names.length - 1)).foldlM (readColumn fd des format mes ts) tuple =
        .ok tuple' →
        tuple'.size = tuple.size := by
  have hfold := @Except.isOk_foldlM_iff _ _ _ (readColumn fd des format mes ts) (fun t => t.size = tuple.size)
    (fun j => ∀ field_name, format.field_names[j]? = some field_name → Reads format j →
      ColumnReadable fd des format mes j field_name) (List.range (format.field_names.length - 1)) tuple rfl
  simp only [List.mem_range] at hfold
  refine hfold fun t ht j hj => ⟨?_, fun t' h => (size_of_readColumn h).trans ht⟩
  obtain ⟨field_name, hname⟩ : ∃ field_name, format.field_names[j]? = some field_name :=
    ⟨_, List.getElem?_eq_getElem (by omega)⟩
  rw [isOk_readColumn_iff hname]
  exact ⟨fun h field_name' hname' => Option.some.inj (hname.symm.trans hname') ▸ h, fun h => h field_name hname⟩

/-- A message is read as a tuple exactly where it can be; the tuple has the number of
columns asked for. -/
theorem readTuple_spec (hsize : 0 ≤ format.attr_size) :
    ((readTuple fd des format mes).isOk = true ↔ RowReadable fd des format mes) ∧
      ∀ tuple, readTuple fd des format mes = .ok tuple → tuple.size = format.attr_size.toNat := by
  have hnew : newTuple format.attr_size = .ok { columns := List.replicate format.attr_size.toNat {} } :=
    if_neg hsize.not_gt
  unfold readTuple
  rw [hnew]
  simp only [bind, Except.bind]
  cases hts : des.FindFieldByName "dm2_create_ts".toList with
  | none =>
    refine ⟨iff_of_false Bool.false_ne_true ?_, nofun⟩
    rintro ⟨⟨field, hfield, -⟩, -⟩
    cases hts.symm.trans hfield
  | some field =>
    simp only
    cases hget : GetInt64 mes field with
    | error e =>
      refine ⟨iff_of_false Bool.false_ne_true ?_, nofun⟩
      rintro ⟨⟨field', hfield', hlong⟩, -⟩
      obtain rfl := Option.some.inj (hts.symm.trans hfield')
      have hok : (GetInt64 mes field).isOk = true := isOk_getInt64_iff.mpr hlong
      rw [hget] at hok
      exact Bool.false_ne_true hok
    | ok ts =>
      have hlong := isOk_getInt64_iff.mp (Except.isOk_iff.mpr ⟨ts, hget⟩)
      obtain ⟨hcolumns, hkeeps⟩ := @foldlM_readColumn_spec fd des format mes ts.toInt
        { columns := List.replicate format.attr_size.toNat {} }
      refine ⟨hcolumns.trans ⟨fun h => ⟨⟨field, hts, hlong⟩, h⟩, fun h => h.columns⟩, fun tuple h => ?_⟩
      exact (hkeeps tuple h).trans List.length_replicate

end Row

/-- The names of the fields of the messages named `Tuple_set`. -/
def fieldNames (fd : FileDescriptor) : List Str :=
  fd.message_types.flatMap fun desc =>
    if desc.name = "Tuple_set".toList then desc.fields.map FieldDescriptor.name else []

/-- Each message that is the type of a field has a field itself. -/
def HasItems (fd : FileDescriptor) : Prop :=
  ∀ desc ∈ fd.message_types, ∀ field ∈ desc.fields, ∀ child, fd.message_type field = some child → child.fields ≠ []

/-- A file and a message in it can be read as tuples: the messages that it is read by are
there, with the field of the rows, and every row can be read. -/
structure Readable (fd : FileDescriptor) (parse : Descriptor → TopMessage) (schema : Schema) (fromApl : Bool) :
    Prop where
  items : HasItems fd
  rows : ∃ top_level_des tuple_set_fd, fd.FindMessageTypeByName "DynamicMessage_dm2is".toList = some top_level_des ∧
    top_level_des.FindFieldByName "tuple_set".toList = some tuple_set_fd ∧ tuple_set_fd.is_repeated = true ∧
      (FieldSize (parse top_level_des) tuple_set_fd ≠ 0 →
        ∃ tuple_set_des, fd.message_type tuple_set_fd = some tuple_set_des ∧
          ∀ mes ∈ (parse top_level_des tuple_set_fd.name).messages,
            RowReadable fd tuple_set_des (rowFormat schema fromApl (fieldNames fd)) mes)
  names : fieldNames fd ≠ []

/-- The condition on a text: behind a length and a comma there are as many bytes, and a
file description in them that is accepted can be read, with the message behind it. -/
def Decodable (protobuf : Protobuf) (serializedStr : Str) (schema : Schema) (fromApl : Bool) : Prop :=
  ∀ metadataLen metaAndMessage, splitMessage serializedStr = some (metadataLen, metaAndMessage) →
    0 ≤ metadataLen ∧ metadataLen ≤ metaAndMessage.length ∧
      ∀ fd, protobuf.ParseAndBuildFile (metaAndMessage.take metadataLen.toNat) = some fd →
        Readable fd (fun top_level_des => protobuf.ParseFromString fd top_level_des (metaAndMessage.drop metadataLen.toNat))
          schema fromApl

/-- The type of a field has a text unless it is a message without fields. -/
private theorem isOk_fieldTypeToString_iff {fd : FileDescriptor} {field : FieldDescriptor} :
    (FieldTypeToString fd field).isOk = true ↔ ∀ child, fd.message_type field = some child → child.fields ≠ [] := by
  unfold FieldTypeToString
  cases fd.message_type field with
  | none => exact iff_of_true rfl nofun
  | some child =>
    simp only [Option.some.injEq, forall_eq']
    cases child.fields with
    | nil => exact iff_of_false Bool.false_ne_true fun h => h rfl
    | cons childField fields => exact iff_of_true rfl (List.cons_ne_nil _ _)

private theorem isOk_readDescriptor_iff {fd : FileDescriptor} {desc : Descriptor} :
    (readDescriptor fd desc).isOk = true ↔
      ∀ field ∈ desc.fields, ∀ child, fd.message_type field = some child → child.fields ≠ [] := by
  rw [readDescriptor, Except.isOk_bind_iff]
  simp only [Except.isOk_pure, and_true, ← Except.isOk_iff, Except.isOk_mapM_iff]
  refine forall₂_congr fun field _ => ?_
  rw [readEntry, Except.isOk_bind_iff]
  simp only [Except.isOk_pure, and_true, ← Except.isOk_iff]
  exact isOk_fieldTypeToString_iff

private theorem fst_of_readEntry {fd : FileDescriptor} {field : FieldDescriptor} {entry : Str × Str}
    (h : readEntry fd field = .ok entry) : entry.1 = field.name := by
  obtain ⟨field_type, -, h⟩ := Except.bind_eq_ok_iff.mp h
  exact congrArg Prod.fst (Except.ok.inj h).symm

private theorem map_readDescriptor {fd : FileDescriptor} {desc : Descriptor} {entries : List (Str × Str)}
    (h : readDescriptor fd desc = .ok entries) :
    entries.map Prod.fst =
      if desc.name = "Tuple_set".toList then desc.fields.map FieldDescriptor.name else [] := by
  obtain ⟨all, hall, h⟩ := Except.bind_eq_ok_iff.mp h
  obtain rfl := Except.ok.inj h
  split
  · exact Except.map_eq_map_of_mapM_eq_ok (fun _ _ => fst_of_readEntry) hall
  · rfl

/-- The fields are read where each message type in the file has a field, and have the
names of the messages named `Tuple_set`. -/
theorem readFields_spec (fd : FileDescriptor) :
    ((readFields fd).isOk = true ↔ HasItems fd) ∧
      ∀ fieldList, readFields fd = .ok fieldList → fieldList.map Prod.fst = fieldNames fd := by
  constructor
  · rw [readFields, Except.isOk_bind_iff]
    simp only [Except.isOk_pure, and_true, ← Except.isOk_iff, Except.isOk_mapM_iff]
    exact forall₂_congr fun desc _ => isOk_readDescriptor_iff
  · intro fieldList h
    obtain ⟨lists, hlists, h⟩ := Except.bind_eq_ok_iff.mp h
    obtain rfl := Except.ok.inj h
    rw [List.map_flatten, Except.map_eq_map_of_mapM_eq_ok (fun _ _ => map_readDescriptor) hlists]
    rfl

/-- The rows are read exactly where their field is repeated and, if there are any, is one
of messages that can be read. -/
theorem readTuples_spec {fd : FileDescriptor} {tuple_set_fd : FieldDescriptor} {format : RowFormat} {mes : TopMessage}
    (hsize : 0 ≤ format.attr_size) :
    ((readTuples fd tuple_set_fd format mes).isOk = true ↔ tuple_set_fd.is_repeated = true ∧
      (FieldSize mes tuple_set_fd ≠ 0 → ∃ tuple_set_des, fd.message_type tuple_set_fd = some tuple_set_des ∧
        ∀ row ∈ (mes tuple_set_fd.name).messages, RowReadable fd tuple_set_des format row)) ∧
      ∀ tuples, readTuples fd tuple_set_fd format mes = .ok tuples →
        ∀ tuple ∈ tuples, tuple.size = format.attr_size.toNat := by
  unfold readTuples
  cases hrepeated : tuple_set_fd.is_repeated with
  | false => exact ⟨iff_of_false Bool.false_ne_true fun h => Bool.false_ne_true h.1, nofun⟩
  | true =>
    rw [if_neg Bool.true_eq_false_eq_False, and_iff_right rfl]
    by_cases hnone : FieldSize mes tuple_set_fd = 0
    · rw [if_pos hnone]
      exact ⟨iff_of_true rfl fun h => absurd hnone h, fun tuples h => Except.ok.inj h ▸ nofun⟩
    · rw [if_neg hnone, forall_prop_of_true hnone]
      cases fd.message_type tuple_set_fd with
      | none => exact ⟨iff_of_false Bool.false_ne_true fun ⟨_, h, _⟩ => (nomatch h), nofun⟩
      | some tuple_set_des =>
        simp only [Option.some.injEq, exists_eq_left']
        refine ⟨?_, fun tuples h tuple htuple => ?_⟩
        · exact Except.isOk_mapM_iff.trans (forall₂_congr fun row _ => (readTuple_spec hsize).1)
        · obtain ⟨row, -, hrow⟩ := Except.exists_of_mem_mapM h htuple
          exact (readTuple_spec hsize).2 tuple hrow

private theorem toNat_attr_size (schema : Schema) (fromApl : Bool) (names : List Str) :
    (rowFormat schema fromApl names).attr_size.toNat = attrSize schema names.dropLast := by
  simp only [rowFormat, attrSize, List.length_dropLast]
  split <;> omega

private theorem attr_size_nonneg (schema : Schema) (fromApl : Bool) {names : List Str} (h : names ≠ []) :
    0 ≤ (rowFormat schema fromApl names).attr_size := by
  have hlength := List.length_pos_iff.mpr h
  simp only [rowFormat]
  split <;> omega

/-- A file is read to tuples of the right size exactly if it is readable. -/
private theorem readFile_iff {fd : FileDescriptor} {parse : Descriptor → TopMessage} {schema : Schema}
    {fromApl : Bool} :
    (∃ tuples names types, readFile fd parse schema fromApl = .ok (tuples, names, types) ∧
      ∀ tuple ∈ tuples, tuple.size = attrSize schema names) ↔ Readable fd parse schema fromApl := by
  constructor
  · rintro ⟨tuples, names, types, h, -⟩
    obtain ⟨fieldList, hfields, h⟩ := Except.bind_eq_ok_iff.mp h
    have hnames := (readFields_spec fd).2 fieldList hfields
    rw [hnames] at h
    split at h
    · cases h
    · next top_level_des htop =>
      split at h
      · cases h
      · next tuple_set_fd htuple_set =>
        obtain ⟨tuples', htuples, h⟩ := Except.bind_eq_ok_iff.mp h
        split at h
        · cases h
        · next hne =>
          have hne' : fieldNames fd ≠ [] := fun hnil => hne (List.map_eq_nil_iff.mp (hnames.trans hnil))
          have hsize := attr_size_nonneg schema fromApl hne'
          obtain ⟨hrepeated, hrows⟩ := (readTuples_spec hsize).1.mp (Except.isOk_iff.mpr ⟨tuples', htuples⟩)
          have hitems := (readFields_spec fd).1.mp (Except.isOk_iff.mpr ⟨fieldList, hfields⟩)
          exact ⟨hitems, ⟨top_level_des, tuple_set_fd, htop, htuple_set, hrepeated, hrows⟩, hne'⟩
  · rintro ⟨hitems, ⟨top_level_des, tuple_set_fd, htop, htuple_set, hrepeated, hrows⟩, hne⟩
    have hsize := attr_size_nonneg schema fromApl hne
    obtain ⟨fieldList, hfields⟩ := Except.isOk_iff.mp ((readFields_spec fd).1.mpr hitems)
    have hnames := (readFields_spec fd).2 fieldList hfields
    obtain ⟨tuples, htuples⟩ := Except.isOk_iff.mp ((readTuples_spec hsize).1.mpr ⟨hrepeated, hrows⟩)
    have hne' : fieldList ≠ [] := fun hnil => hne (hnames.symm.trans (by rw [hnil]; rfl))
    refine ⟨tuples, (fieldNames fd).dropLast, (fieldList.map Prod.snd).dropLast, ?_, ?_⟩
    · unfold readFile
      rw [hfields]
      simp only [bind, Except.bind, htop, htuple_set, hnames, htuples]
      rw [if_neg hne']
      rfl
    · intro tuple htuple
      exact ((readTuples_spec hsize).2 tuples htuples tuple htuple).trans (toNat_attr_size schema fromApl _)

/-- The reading ends in tuples of the right size exactly where the text can be decoded, for
every text, every schema and every library. -/
theorem decodes_iff (protobuf : Protobuf) (serializedStr : Str) (schema : Schema) (fromApl : Bool) :
    Decodes protobuf serializedStr schema fromApl ↔ Decodable protobuf serializedStr schema fromApl := by
  unfold Decodes Decodable DeserializeToTupleDynamically
  cases splitMessage serializedStr with
  | none => exact iff_of_true ⟨[], [], [], rfl, nofun⟩ nofun
  | some parts =>
    obtain ⟨metadataLen, metaAndMessage⟩ := parts
    simp only [Option.some.injEq, Prod.mk.injEq, and_imp, forall_apply_eq_imp_iff, forall_eq']
    by_cases hrange : metadataLen < 0 ∨ metaAndMessage.length < metadataLen
    · rw [if_pos hrange]
      refine iff_of_false (fun ⟨_, _, _, h, _⟩ => nomatch h) fun h => ?_
      omega
    · rw [if_neg hrange, and_iff_right (by omega), and_iff_right (by omega)]
      cases hfile : protobuf.ParseAndBuildFile (metaAndMessage.take metadataLen.toNat) with
      | none => exact iff_of_true ⟨[], [], [], rfl, nofun⟩ nofun
      | some dynamic_fd =>
        simp only [Option.some.injEq, forall_eq']
        exact readFile_iff

/-- A library that accepts no file. -/
def noFile : Protobuf where
  SerializeFile _ := []
  BuildFile _ := none
  ParseAndBuildFile _ := none
  SerializeToString _ _ _ := []
  ParseFromString _ _ _ _ := .empty

/-- A length without the bytes behind it: `substr` throws. -/
theorem lengthAlone_not_decodes :
    ¬ ∀ protobuf serializedStr schema fromApl, Decodes protobuf serializedStr schema fromApl := by
  intro h
  obtain ⟨tuples, names, types, hread, -⟩ := h noFile "5,".toList {} false
  have hfailure : DeserializeToTupleDynamically noFile "5,".toList {} false = .error .out_of_range := rfl
  cases hfailure.symm.trans hread

end IS.ProtobufParser

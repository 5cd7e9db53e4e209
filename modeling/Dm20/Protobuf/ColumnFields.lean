import Dm20.Protobuf.Descriptions

namespace IS.ProtobufParser

private theorem cpp_type_of_elementType {type : FieldType} {ty : ScalarType} (h : elementType type = some ty) :
    type.cpp_type = some (.scalar ty) := by
  cases type <;> simp_all [elementType, FieldType.cpp_type]

private theorem ne_enum_of_elementType {type : FieldType} {ty : ScalarType} (h : elementType type = some ty) :
    type ≠ .TYPE_ENUM := by
  rintro rfl
  cases h

private theorem ne_group_of_elementType {type : FieldType} {ty : ScalarType} (h : elementType type = some ty)
    (name : Str) :
    type ≠ .TYPE_GROUP name := by
  rintro rfl
  cases h

/-- A type of single values is the same with and without a package in front. -/
theorem qualify_of_elementType {type : FieldType} {ty : ScalarType} (h : elementType type = some ty) (package : Str) :
    type.qualify package = type := by
  cases type <;> first | rfl | cases h

/-- The library reads a field of single values as the type that is written to it. -/
theorem cpp_type_qualify {type : FieldType} {ty : ScalarType} (h : elementType type = some ty) (package : Str) :
    (type.qualify package).cpp_type = some (.scalar ty) := by
  rw [qualify_of_elementType h, cpp_type_of_elementType h]

/-- The package does not change the type of the elements of a field. -/
theorem elementType_qualify {type : FieldType} {ty : ScalarType} (h : elementType type = some ty) (package : Str) :
    elementType (type.qualify package) = some ty := by
  rw [qualify_of_elementType h, h]

/-- The message of the rows of a column. -/
def rowDescriptor (attrName : Str) (type : FieldType) : DescriptorProto where
  name := attrName ++ "_".toList
  field := [{ name := attrName ++ "_item".toList, number := 1, label := .LABEL_REPEATED, type }]

/-- The field of a column and the message of its rows, by what is set for a value. -/
inductive ColumnShape (attrName : Str) (number : Nat) :
    Option AttrSetter → FieldDescriptorProto → List DescriptorProto → Prop
  | float : ColumnShape attrName number none { name := attrName, number, type := .TYPE_FLOAT } []
  | single {ty : ScalarType} {type : FieldType} (htype : elementType type = some ty) :
    ColumnShape attrName number (some (.single ty)) { name := attrName, number, type } []
  | bytes : ColumnShape attrName number (some .bytes) { name := attrName, number, type := .TYPE_BYTES } []
  | repeated {ty : ScalarType} {type : FieldType} (htype : elementType type = some ty) :
    ColumnShape attrName number (some (.repeated ty)) { name := attrName, number, label := .LABEL_REPEATED, type } []
  | rows {ty : ScalarType} {type : FieldType} (htype : elementType type = some ty) :
    ColumnShape attrName number (some (.rows ty))
      { name := attrName, number, label := .LABEL_REPEATED, type := .TYPE_MESSAGE (attrName ++ "_".toList) }
      [rowDescriptor attrName type]

/-- What is set for a value goes with the type of the field, except that nothing is set
for a `float`. -/
def Fits (setter : Option AttrSetter) (type : FieldType) (repeated : Nat) : Prop :=
  match setter with
  | none => type = .TYPE_FLOAT ∧ repeated = 0
  | some (.single ty) => elementType type = some ty ∧ repeated = 0
  | some .bytes => type = .TYPE_BYTES ∧ repeated = 0
  | some (.repeated ty) => elementType type = some ty ∧ repeated = 1
  | some (.rows ty) => elementType type = some ty ∧ repeated = 2

instance (setter : Option AttrSetter) (type : FieldType) (repeated : Nat) : Decidable (Fits setter type repeated) := by
  unfold Fits
  cases setter with
  | none => infer_instance
  | some setter => cases setter <;> infer_instance

private theorem fits_of_type {attrType : Str} {type : FieldType} {repeated : Nat}
    (h : AttributeTypeToProtoFieldType attrType = some (type, repeated)) : Fits (attrSetter attrType) type repeated :=
  AssocList.of_lookup (P := fun attrType entry => Fits (attrSetter attrType) entry.1 entry.2) h (by decide +kernel)

/-- The field of a column has its name and number, and the shape that the setter of its type
has. -/
private theorem columnField_shape {attrName attrType : Str} {i : Nat}
    {field : FieldDescriptorProto × List DescriptorProto}
    (h : columnField attrName attrType i = some field) :
    ColumnShape attrName (i + 1) (attrSetter attrType) field.1 field.2 := by
  obtain ⟨⟨type, repeated⟩, htype, rfl⟩ := Option.map_eq_some_iff.mp h
  have hfits := fits_of_type htype
  cases hsetter : attrSetter attrType with
  | none =>
    rw [hsetter] at hfits
    obtain ⟨rfl, rfl⟩ := hfits
    exact .float
  | some setter =>
    rw [hsetter] at hfits
    cases setter with
    | single ty =>
      obtain ⟨helement, rfl⟩ := hfits
      exact .single helement
    | bytes =>
      obtain ⟨rfl, rfl⟩ := hfits
      exact .bytes
    | repeated ty =>
      obtain ⟨helement, rfl⟩ := hfits
      exact .repeated helement
    | rows ty =>
      obtain ⟨helement, rfl⟩ := hfits
      exact .rows helement

namespace ColumnShape

variable {attrName : Str} {number : Nat} {setter : Option AttrSetter} {field : FieldDescriptorProto}
  {items : List DescriptorProto}

/-- The field of a column has the name that was made for the column. -/
theorem name_eq (h : ColumnShape attrName number setter field items) : field.name = attrName := by
  cases h <;> rfl

private theorem number_eq (h : ColumnShape attrName number setter field items) : field.number = number := by
  cases h <;> rfl

private theorem label_ne (h : ColumnShape attrName number setter field items) : field.label ≠ .LABEL_REQUIRED := by
  cases h <;> exact nofun

/-- Only a column of rows has a message type of its own, that of a row. -/
theorem items_eq (h : ColumnShape attrName number setter field items) :
    items = [] ∨ ∃ ty type, elementType type = some ty ∧ items = [rowDescriptor attrName type] := by
  cases h with
  | rows htype => exact Or.inr ⟨_, _, htype, rfl⟩
  | _ => exact Or.inl rfl

/-- The message type that a field refers to is that of its rows. -/
theorem message_type_mem (h : ColumnShape attrName number setter field items) {name : Str}
    (hname : field.type.message_type = some name) : name ∈ items.map DescriptorProto.name := by
  cases h with
  | rows htype => exact List.mem_singleton.mpr (Option.some.inj hname).symm
  | float => cases hname
  | bytes => cases hname
  | single htype | repeated htype =>
    exact absurd (FieldType.cpp_type_eq_none_iff.mpr ⟨name, hname⟩) (by simp [cpp_type_of_elementType htype])

end ColumnShape

/-- A column of a description: its name and type, with the field and the messages that
they give. -/
structure WireColumn where
  attrName : Str
  attrType : Str
  number : Nat
  field : FieldDescriptorProto
  items : List DescriptorProto
  shape : ColumnShape attrName number (attrSetter attrType) field items

namespace WireColumn

def attr (column : WireColumn) : Str × Str :=
  (column.attrName, column.attrType)

def entry (column : WireColumn) : FieldDescriptorProto × List DescriptorProto :=
  (column.field, column.items)

end WireColumn

/-- The fields that are built are those of columns, numbered in their order. -/
theorem exists_wireColumns {attrs : List (Str × Str)} {i : Nat}
    {fields : List (FieldDescriptorProto × List DescriptorProto)}
    (h : columnFields attrs i = some fields) :
    ∃ columns : List WireColumn, columns.map WireColumn.attr = attrs ∧ columns.map WireColumn.entry = fields ∧
      columns.map WireColumn.number = List.range' (i + 1) columns.length := by
  induction attrs generalizing i fields with
  | nil =>
    obtain rfl := Option.some.inj h
    exact ⟨[], rfl, rfl, rfl⟩
  | cons attr attrs ih =>
    obtain ⟨field, hfield, h⟩ := Option.bind_eq_some_iff.mp h
    obtain ⟨rest, hrest, h⟩ := Option.bind_eq_some_iff.mp h
    obtain rfl := Option.some.inj h
    obtain ⟨columns, rfl, rfl, hnumbers⟩ := ih hrest
    refine ⟨⟨attr.1, attr.2, i + 1, field.1, field.2, columnField_shape hfield⟩ :: columns, rfl, rfl, ?_⟩
    rw [List.map_cons, hnumbers, List.length_cons, List.range'_succ]

section File

variable {columns : List WireColumn}

/-- The messages of items are named after some of the columns, in their order. -/
private theorem map_name_items_sublist (columns : List WireColumn) :
    ((columns.flatMap WireColumn.items).map DescriptorProto.name).Sublist
      ((columns.map WireColumn.attrName).map fun name => name ++ "_".toList) := by
  induction columns with
  | nil => exact .slnil
  | cons column columns ih =>
    rw [List.flatMap_cons, List.map_append, List.map_cons, List.map_cons]
    obtain hitems | ⟨ty, type, -, hitems⟩ := column.shape.items_eq
    · rw [hitems]
      exact ih.cons _
    · rw [hitems]
      exact ih.cons_cons _

private theorem map_name_fields (columns : List WireColumn) :
    (columns.map WireColumn.field).map FieldDescriptorProto.name = columns.map WireColumn.attrName := by
  rw [List.map_map]
  exact List.map_congr_left fun column _ => column.shape.name_eq

private theorem map_number_fields (columns : List WireColumn) :
    (columns.map WireColumn.field).map FieldDescriptorProto.number = columns.map WireColumn.number := by
  rw [List.map_map]
  exact List.map_congr_left fun column _ => column.shape.number_eq

/-- The field of the timestamp behind some columns. -/
def timestampField (count : Nat) : FieldDescriptorProto where
  name := "dm2_create_ts".toList
  number := count + 1
  type := .TYPE_INT64

/-- The message of the rows of a stream with some columns. -/
def tupleSet (columns : List WireColumn) : DescriptorProto where
  name := "Tuple_set".toList
  field := columns.map WireColumn.field ++ [timestampField columns.length]

@[simp] theorem tupleSet_name (columns : List WireColumn) : (tupleSet columns).name = "Tuple_set".toList := rfl

/-- The fields of a tuple are those of its columns, and one for the time of creation. -/
theorem map_name_tupleSet (columns : List WireColumn) :
    (tupleSet columns).field.map FieldDescriptorProto.name =
    columns.map WireColumn.attrName ++ ["dm2_create_ts".toList] := by
  rw [← map_name_fields]
  exact List.map_append

private theorem map_number_tupleSet (columns : List WireColumn) :
    (tupleSet columns).field.map FieldDescriptorProto.number =
    columns.map WireColumn.number ++ [columns.length + 1] := by
  rw [← map_number_fields]
  exact List.map_append

/-- The message of a stream. -/
def dynamicMessage : DescriptorProto where
  name := "DynamicMessage_dm2is".toList
  field := [
    { name := "tuple_set".toList, number := 1, label := .LABEL_REPEATED, type := .TYPE_MESSAGE "Tuple_set".toList }]

/-- The description has the message of the set, that of a tuple and those of the rows. -/
theorem fileOf_message_type (columns : List WireColumn) :
    (fileOf (columns.map WireColumn.entry)).message_type =
      dynamicMessage :: tupleSet columns :: columns.flatMap WireColumn.items := by
  have hfst : (columns.map WireColumn.entry).map Prod.fst = columns.map WireColumn.field := List.map_map
  have hsnd : (columns.map WireColumn.entry).flatMap Prod.snd = columns.flatMap WireColumn.items :=
    List.flatMap_map _ _ _
  unfold fileOf tupleSet dynamicMessage
  rw [hfst, hsnd, List.length_map]
  rfl

/-- The names of columns can be those of fields: identifiers, different from each other
and from that of the timestamp. -/
structure NamesFit (columns : List WireColumn) : Prop where
  nodup : (columns.map WireColumn.attrName).Nodup
  identifiers : ∀ column ∈ columns, IsIdentifier column.attrName
  timestamp : "dm2_create_ts".toList ∉ columns.map WireColumn.attrName

/-- The message type of a column of rows is in the description, so the library finds it. -/
theorem mem_items {column : WireColumn} (hcolumn : column ∈ columns) {d : DescriptorProto} (hd : d ∈ column.items) :
    d ∈ (fileOf (columns.map WireColumn.entry)).message_type := by
  rw [fileOf_message_type]
  exact List.mem_cons_of_mem _ (List.mem_cons_of_mem _ (List.mem_flatMap.mpr ⟨column, hcolumn, hd⟩))

/-- Columns whose names fit make messages with different names. -/
private theorem nodup_names (h : NamesFit columns) :
    ((fileOf (columns.map WireColumn.entry)).message_type.map DescriptorProto.name).Nodup := by
  have hlast : ∀ name ∈ (columns.flatMap WireColumn.items).map DescriptorProto.name, name.getLast? = some '_' := by
    intro name hname
    obtain ⟨base, -, rfl⟩ := List.mem_map.mp ((map_name_items_sublist columns).subset hname)
    exact List.getLast?_append_of_ne_nil _ (by decide)
  have hitems : ((columns.flatMap WireColumn.items).map DescriptorProto.name).Nodup :=
    (h.nodup.map fun _ _ => List.append_cancel_right).sublist (map_name_items_sublist columns)
  rw [fileOf_message_type, List.map_cons, List.map_cons, tupleSet_name, List.nodup_cons, List.nodup_cons, List.mem_cons]
  refine ⟨?_, fun hmem => absurd (hlast _ hmem) (by decide), hitems⟩
  rintro (heq | hmem)
  · exact absurd heq (by decide)
  · exact absurd (hlast _ hmem) (by decide)

/-- What holds of the messages of a file: of that of a stream, that of the rows, and those
of the rows of vectors of vectors. -/
theorem forall_message_type {P : DescriptorProto → Prop} (htop : P dynamicMessage) (htuple : P (tupleSet columns))
    (hrows : ∀ column ∈ columns, ∀ ty type, elementType type = some ty → P (rowDescriptor column.attrName type)) :
    ∀ d ∈ (fileOf (columns.map WireColumn.entry)).message_type, P d := by
  intro d hd
  rw [fileOf_message_type, List.mem_cons, List.mem_cons, List.mem_flatMap] at hd
  obtain rfl | rfl | ⟨column, hcolumn, hitem⟩ := hd
  · exact htop
  · exact htuple
  · obtain hitems | ⟨ty, type, htype, hitems⟩ := column.shape.items_eq
    · rw [hitems] at hitem
      cases hitem
    · rw [hitems, List.mem_singleton] at hitem
      exact hitem ▸ hrows column hcolumn ty type htype

/-- Columns whose names fit make fields with different names in each message. -/
private theorem nodup_fields (h : NamesFit columns) :
    ∀ d ∈ (fileOf (columns.map WireColumn.entry)).message_type, (d.field.map FieldDescriptorProto.name).Nodup := by
  refine forall_message_type (P := fun d => (d.field.map FieldDescriptorProto.name).Nodup) ?_ ?_ ?_
  · exact List.nodup_singleton _
  · rw [map_name_tupleSet, List.nodup_append]
    refine ⟨h.nodup, List.nodup_singleton _, fun name hname other hother heq => ?_⟩
    obtain rfl := List.mem_singleton.mp hother
    exact h.timestamp (heq ▸ hname)
  · intro column _ ty type _
    exact List.nodup_singleton _

private theorem nodup_numbers (h : columns.map WireColumn.number = List.range' 1 columns.length) :
    ∀ d ∈ (fileOf (columns.map WireColumn.entry)).message_type, (d.field.map FieldDescriptorProto.number).Nodup := by
  refine forall_message_type (P := fun d => (d.field.map FieldDescriptorProto.number).Nodup) ?_ ?_ ?_
  · exact List.nodup_singleton _
  · rw [map_number_tupleSet, h, Nat.add_comm, ← List.range'_1_concat]
    exact List.nodup_range'
  · intro column _ ty type _
    exact List.nodup_singleton _

/-- The message type of a row has names that are identifiers if the column's name is one. -/
theorem IsIdentifier.rowDescriptor {attrName : Str} (h : IsIdentifier attrName) {ty : ScalarType} {type : FieldType}
    (htype : elementType type = some ty) :
    IsIdentifier (rowDescriptor attrName type).name ∧ ∀ field ∈ (rowDescriptor attrName type).field, field.Valid := by
  refine ⟨h.append (List.all_eq_true.mp (by decide)), fun field hfield => ?_⟩
  obtain rfl := List.mem_singleton.mp hfield
  exact ⟨h.append (List.all_eq_true.mp (by decide)), Nat.one_pos, nofun, ne_enum_of_elementType htype,
    ne_group_of_elementType htype⟩

/-- The field of a column is valid, if its name is an identifier and its number is positive. -/
theorem ColumnShape.valid {attrName : Str} {number : Nat} {setter : Option AttrSetter} {field : FieldDescriptorProto}
    {items : List DescriptorProto} (h : ColumnShape attrName number setter field items) (hname : IsIdentifier attrName)
    (hnumber : 0 < number) : field.Valid where
  name := h.name_eq ▸ hname
  number := h.number_eq ▸ hnumber
  label := h.label_ne
  enum := by
    cases h with
    | single htype | repeated htype => exact ne_enum_of_elementType htype
    | _ => exact nofun
  group := by
    cases h with
    | single htype | repeated htype => exact ne_group_of_elementType htype
    | _ => exact nofun

/-- The description that is made of a schema is valid, if the names fit and the numbers count up
from one: the library accepts it then. -/
theorem valid_fileOf (hnames : NamesFit columns)
    (hnumbers : columns.map WireColumn.number = List.range' 1 columns.length) :
    (fileOf (columns.map WireColumn.entry)).Valid where
  syntax_eq := rfl
  package := show IsIdentifier "dm2_proto".toList by decide
  names := nodup_names hnames
  fields := nodup_fields hnames
  numbers := nodup_numbers hnumbers
  identifiers := by
    refine forall_message_type (P := fun d => IsIdentifier d.name ∧ ∀ field ∈ d.field, field.Valid) ?_ ?_ ?_
    · refine ⟨by decide, fun field hfield => ?_⟩
      obtain rfl := List.mem_singleton.mp hfield
      exact ⟨by decide, Nat.one_pos, nofun, nofun, nofun⟩
    · refine ⟨show IsIdentifier "Tuple_set".toList by decide, fun field hfield => ?_⟩
      obtain hfield | hfield := List.mem_append.mp hfield
      · obtain ⟨column, hcolumn, rfl⟩ := List.mem_map.mp hfield
        have hrange : column.number ∈ List.range' 1 columns.length := hnumbers ▸ List.mem_map_of_mem hcolumn
        exact column.shape.valid (hnames.identifiers column hcolumn) (List.mem_range'_1.mp hrange).1
      · obtain rfl := List.mem_singleton.mp hfield
        exact ⟨show IsIdentifier "dm2_create_ts".toList by decide, Nat.succ_pos _, nofun, nofun, nofun⟩
    · exact fun column hcolumn ty type htype => (hnames.identifiers column hcolumn).rowDescriptor htype
  resolved := by
    refine forall_message_type (P := fun d => ∀ field ∈ d.field, ∀ name, field.type.message_type = some name →
      name ∈ (fileOf (columns.map WireColumn.entry)).message_type.map DescriptorProto.name) ?_ ?_ ?_
    · intro field hfield name hname
      obtain rfl := List.mem_singleton.mp hfield
      obtain rfl := Option.some.inj hname
      rw [fileOf_message_type]
      exact List.mem_cons_of_mem _ List.mem_cons_self
    · intro field hfield name hname
      obtain hfield | hfield := List.mem_append.mp hfield
      · obtain ⟨column, hcolumn, rfl⟩ := List.mem_map.mp hfield
        obtain ⟨d, hd, rfl⟩ := List.mem_map.mp (column.shape.message_type_mem hname)
        exact List.mem_map_of_mem (mem_items hcolumn hd)
      · obtain rfl := List.mem_singleton.mp hfield
        cases hname
    · intro column hcolumn ty type htype field hfield name hname
      obtain rfl := List.mem_singleton.mp hfield
      exact absurd (FieldType.cpp_type_eq_none_iff.mpr ⟨name, hname⟩) (by simp [cpp_type_of_elementType htype])

end File

end IS.ProtobufParser

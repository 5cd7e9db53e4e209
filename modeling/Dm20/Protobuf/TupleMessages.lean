import Dm20.Lib.Except
import Dm20.Protobuf.ColumnFields
import Dm20.Protobuf.UniqueNames
import Dm20.Protobuf.DynamicEncoder

namespace IS.ProtobufParser

/-- A value can be set: it is null, or of the type of a field that is not repeated. The
elements of a vector are set as far as they are of the type. -/
def Writable (setter : Option AttrSetter) (column : Column) : Prop :=
  column.isNull = true ∨
    match setter with
    | some (.single ty) => (any_cast ty column.value).isSome = true
    | some .bytes => (bytesText column.value).isSome = true
    | _ => True

/-- What a field that was empty holds for a column. -/
def sentContent (attrName : Str) (setter : Option AttrSetter) (column : Column) : FieldContent ItemMessage :=
  if column.isNull then .empty
  else
    match setter with
    | none => .empty
    | some (.single ty) => (any_cast ty column.value).elim .empty (FieldContent.setSingle .empty ty)
    | some .bytes => (bytesText column.value).elim .empty (FieldContent.setSingle .empty .string)
    | some (.repeated ty) => FieldContent.addAll .empty ty (vectorElements ty column.value)
    | some (.rows ty) =>
      { single := CppType.default
        repeated := fun _ => []
        messages := (vectorRows ty column.value).map (itemMessage (attrName ++ "_item".toList) ty) }

private theorem sentContent_of_isNull {attrName : Str} {setter : Option AttrSetter} {column : Column}
    (h : column.isNull = true) : sentContent attrName setter column = .empty :=
  if_pos h

/-- A value that can be written to the field of its type is what the message carries of it. -/
private theorem setAttrValue_empty {attrName attrType : Str} {column : Column} (hnull : column.isNull = false)
    (h : Writable (attrSetter attrType) column) :
    setAttrValue .empty column.value attrType attrName =
      .ok (sentContent attrName (attrSetter attrType) column) := by
  have hwritable := h.resolve_left (by rw [hnull]; exact Bool.false_ne_true)
  unfold setAttrValue sentContent
  rw [hnull, if_neg Bool.false_ne_true]
  cases hsetter : attrSetter attrType with
  | none => rfl
  | some setter =>
    rw [hsetter] at hwritable
    cases setter with
    | single ty =>
      obtain ⟨v, hv⟩ := Option.isSome_iff_exists.mp hwritable
      simp only [hv, Option.elim_some]
    | bytes =>
      obtain ⟨v, hv⟩ := Option.isSome_iff_exists.mp hwritable
      simp only [hv, Option.elim_some]
    | repeated ty => rfl
    | rows ty => rfl

/-- A column that can be set into a field that is empty. -/
theorem setColumns_cons {attr : Str × Str} {column : Column} (h : Writable (attrSetter attr.2) column)
    {mes : TupleMessage} (hempty : mes attr.1 = .empty) (attrs : List (Str × Str)) (columns : List Column) :
    setColumns (attr :: attrs) (column :: columns) mes =
      setColumns attrs columns
        (Function.update mes attr.1 (sentContent attr.1 (attrSetter attr.2) column)) := by
  rw [setColumns, hempty]
  cases hnull : column.isNull with
  | true =>
    rw [if_pos rfl, sentContent_of_isNull hnull]
    rfl
  | false =>
    rw [if_neg Bool.false_ne_true, setAttrValue_empty hnull h]
    rfl

/-- A tuple that the columns of a description can take: as many columns, and values that
can be set. -/
def Conforms (attrs : List (Str × Str)) (tuple : Tuple) : Prop :=
  List.Forall₂ (fun attr column => Writable (attrSetter attr.2) column) attrs tuple.columns

/-- The columns are set into fields of different names, each into its own, and no other
field is changed. -/
theorem setColumns_spec {attrs : List (Str × Str)} {columns : List Column} (mes : TupleMessage)
    (hnodup : (attrs.map Prod.fst).Nodup)
    (hwritable : List.Forall₂ (fun attr column => Writable (attrSetter attr.2) column) attrs columns)
    (hempty : ∀ name ∈ attrs.map Prod.fst, mes name = .empty) :
    ∃ mes', setColumns attrs columns mes = .ok mes' ∧
      List.Forall₂ (fun attr column => mes' attr.1 = sentContent attr.1 (attrSetter attr.2) column) attrs columns ∧
      ∀ name, name ∉ attrs.map Prod.fst → mes' name = mes name := by
  induction hwritable generalizing mes with
  | nil => exact ⟨mes, rfl, .nil, fun _ _ => rfl⟩
  | @cons attr column attrs columns hfirst _ ih =>
    rw [List.map_cons, List.nodup_cons] at hnodup
    rw [List.map_cons, List.forall_mem_cons] at hempty
    obtain ⟨mes', hset, hcontents, hothers⟩ := ih (Function.update mes attr.1
      (sentContent attr.1 (attrSetter attr.2) column)) hnodup.2 fun name hname => by
        have hne : name ≠ attr.1 := fun heq => hnodup.1 (heq ▸ hname)
        rw [Function.update_of_ne hne]
        exact hempty.2 name hname
    refine ⟨mes', ?_, .cons ?_ hcontents, fun name hname => ?_⟩
    · rw [setColumns_cons hfirst hempty.1]
      exact hset
    · rw [hothers _ hnodup.1, Function.update_self]
    · rw [List.map_cons, List.mem_cons, not_or] at hname
      rw [hothers name hname.2, Function.update_of_ne hname.1]

/-- What the message of a tuple holds: its columns, the time of the first one, and nothing
else. -/
structure HoldsTuple (attrs : List (Str × Str)) (tuple : Tuple) (mes : TupleMessage) : Prop where
  columns : List.Forall₂ (fun attr column => mes attr.1 = sentContent attr.1 (attrSetter attr.2) column)
    attrs tuple.columns
  timestamp : mes createTs = FieldContent.setSingle .empty .long (Int64.ofInt tuple.getTimestamp)
  others : ∀ name, name ∉ attrs.map Prod.fst → name ≠ createTs → mes name = .empty

/-- A tuple whose values have the types of its columns is written without an error, and the
message holds each value in the field of its column. -/
theorem writeTuple_spec {attrs : List (Str × Str)} {tuple : Tuple} (hnodup : (attrs.map Prod.fst).Nodup)
    (hts : createTs ∉ attrs.map Prod.fst) (h : Conforms attrs tuple) :
    ∃ mes, writeTuple attrs tuple = .ok mes ∧ HoldsTuple attrs tuple mes := by
  obtain ⟨mes, hset, hcontents, hothers⟩ := setColumns_spec (fun _ => .empty) hnodup h fun _ _ => rfl
  refine ⟨Function.update mes createTs
    (FieldContent.setSingle (mes createTs) .long (Int64.ofInt tuple.getTimestamp)), ?_, ?_, ?_,
    fun name hname hne => ?_⟩
  · rw [writeTuple, hset]
    rfl
  · rw [List.forall₂_iff_zip] at hcontents ⊢
    refine ⟨hcontents.1, fun {attr column} hmem => ?_⟩
    have hne : attr.1 ≠ createTs := fun heq => hts (heq ▸ List.mem_map_of_mem (List.of_mem_zip hmem).1)
    rw [Function.update_of_ne hne]
    exact hcontents.2 hmem
  · rw [Function.update_self, hothers _ hts]
  · rw [Function.update_of_ne hne, hothers name hname]

section Typed

variable {Child : Type} {fd : FileDescriptor} {IsChild : Descriptor → Child → Prop} {field : FieldDescriptor}

private theorem of_empty : (FieldContent.empty : FieldContent Child).Of fd IsChild field where
  single _ h := absurd rfl h
  repeated _ h := absurd rfl h
  messages h := absurd rfl h

private theorem of_setSingle {ty : ScalarType} (hsingle : field.is_repeated = false)
    (htype : field.type.cpp_type = some (.scalar ty)) (v : ty.denote) :
    (FieldContent.setSingle (.empty : FieldContent Child) ty v).Of fd IsChild field where
  single ty' h := by
    by_cases heq : ty' = .scalar ty
    · exact ⟨hsingle, heq ▸ htype⟩
    · exact absurd (Function.update_of_ne heq _ _) h
  repeated _ h := absurd rfl h
  messages h := absurd rfl h

private theorem of_elim {α : Type} {f : α → FieldContent Child} (h : ∀ v, (f v).Of fd IsChild field) (v : Option α) :
    (v.elim .empty f).Of fd IsChild field := by
  cases v with
  | none => exact of_empty
  | some v => exact h v

private theorem of_addAll {ty : ScalarType} (hrepeated : field.is_repeated = true)
    (htype : field.type.cpp_type = some (.scalar ty)) (xs : List ty.denote) :
    (FieldContent.addAll (.empty : FieldContent Child) ty xs).Of fd IsChild field where
  single _ h := absurd rfl h
  repeated ty' h := by
    by_cases heq : ty' = .scalar ty
    · exact ⟨hrepeated, heq ▸ htype⟩
    · exact absurd (Function.update_of_ne heq _ _) h
  messages h := absurd rfl h

private theorem of_messages {messages : List Child} (hrepeated : field.is_repeated = true) {child : Descriptor}
    (hchild : fd.message_type field = some child) (hmessages : ∀ mes ∈ messages, IsChild child mes) :
    FieldContent.Of fd IsChild field { single := CppType.default, repeated := fun _ => [], messages } where
  single _ h := absurd rfl h
  repeated _ h := absurd rfl h
  messages _ := ⟨hrepeated, child, hchild, hmessages⟩

end Typed

/-- The message of a row holds the elements in their order. -/
theorem itemMessage_item (item_name : Str) (ty : ScalarType) (row : List ty.denote) :
    itemMessage item_name ty row item_name = FieldContent.addAll .empty ty row :=
  Function.update_self _ _ _

section Rows

variable {fd : FileDescriptor} {package : Str}

/-- The message of a row of a vector of vectors is one of the type for the column. -/
theorem isItem_itemMessage {ty : ScalarType} {type : FieldType} (htype : elementType type = some ty)
    (attrName : Str) (row : List ty.denote) :
    IsItem fd ((rowDescriptor attrName type).descriptor package) (itemMessage (attrName ++ "_item".toList) ty row) where
  fields field hfield := by
    obtain rfl := List.mem_singleton.mp hfield
    have hcpp := cpp_type_qualify htype package
    have hof : (FieldContent.addAll (.empty : FieldContent Empty) ty row).Of fd (fun _ _ => False)
        ⟨attrName ++ "_item".toList, .LABEL_REPEATED, type.qualify package⟩ := of_addAll rfl hcpp row
    exact itemMessage_item _ ty row ▸ hof
  others name hname := by
    apply Function.update_of_ne
    exact fun heq => hname (List.mem_singleton.mpr heq)

/-- The file of a description knows the message of the rows of each column. -/
def KnowsRows (fd : FileDescriptor) (package : Str) (field : FieldDescriptorProto) (items : List DescriptorProto) :
    Prop :=
  ∀ d ∈ items, field.type.message_type = some d.name →
    fd.message_type (field.descriptor package) = some (d.descriptor package)

/-- The content for a column is one that its field can have. -/
theorem sentContent_of {attrName : Str} {number : Nat} {setter : Option AttrSetter} {field : FieldDescriptorProto}
    {items : List DescriptorProto} (h : ColumnShape attrName number setter field items)
    (hknows : KnowsRows fd package field items) (column : Column) :
    (sentContent attrName setter column).Of fd (IsItem fd) (field.descriptor package) := by
  unfold sentContent
  cases column.isNull with
  | true =>
    rw [if_pos rfl]
    exact of_empty
  | false =>
    rw [if_neg Bool.false_ne_true]
    cases h with
    | float => exact of_empty
    | @single ty type htype =>
      have hcpp := cpp_type_qualify htype package
      apply of_elim
      intro v
      apply of_setSingle rfl
      exact hcpp
    | bytes =>
      apply of_elim
      intro v
      exact of_setSingle rfl rfl _
    | @repeated ty type htype =>
      have hcpp := cpp_type_qualify htype package
      exact of_addAll rfl hcpp _
    | @rows ty type htype =>
      have hchild := hknows _ (List.mem_singleton_self _) rfl
      refine of_messages rfl hchild fun mes hmes => ?_
      obtain ⟨row, -, rfl⟩ := List.mem_map.mp hmes
      exact isItem_itemMessage htype attrName row

end Rows

section File

variable {columns : List WireColumn}
  (hvalid : (fileOf (columns.map WireColumn.entry)).Valid)

/-- The package of the messages of a stream. -/
def streamPackage : Str :=
  "dm2_proto".toList

/-- The field of the tuples. -/
def tupleSetField : FieldDescriptorProto where
  name := "tuple_set".toList
  number := 1
  label := .LABEL_REPEATED
  type := .TYPE_MESSAGE "Tuple_set".toList

/-- The message of a set holds the messages of its tuples. -/
theorem topMessage_tuple_set (rows : List TupleMessage) :
    topMessage rows "tuple_set".toList = { single := CppType.default, repeated := fun _ => [], messages := rows } :=
  Function.update_self _ _ _

/-- The message type of a tuple is in the description. -/
theorem tupleSet_mem (columns : List WireColumn) :
    tupleSet columns ∈ (fileOf (columns.map WireColumn.entry)).message_type := by
  rw [fileOf_message_type]
  exact List.mem_cons_of_mem _ List.mem_cons_self

/-- The message type of the whole set is in the description. -/
theorem dynamicMessage_mem (columns : List WireColumn) :
    dynamicMessage ∈ (fileOf (columns.map WireColumn.entry)).message_type := by
  rw [fileOf_message_type]
  exact List.mem_cons_self

/-- The description knows the row type of each column of rows. -/
theorem knowsRows {column : WireColumn} (hcolumn : column ∈ columns) :
    KnowsRows ((fileOf (columns.map WireColumn.entry)).descriptor hvalid) streamPackage column.field column.items :=
  fun _ hd htype => hvalid.message_type_eq (mem_items hcolumn hd) htype

/-- The field of the tuples has the message type of a tuple. -/
theorem message_type_tupleSetField :
    ((fileOf (columns.map WireColumn.entry)).descriptor hvalid).message_type
      (tupleSetField.descriptor streamPackage) = some ((tupleSet columns).descriptor streamPackage) :=
  hvalid.message_type_eq (tupleSet_mem columns) rfl

/-- The message of a tuple is one of the type for the rows. -/
theorem isTuple_of_holds {tuple : Tuple} {mes : TupleMessage}
    (h : HoldsTuple (columns.map WireColumn.attr) tuple mes) :
    IsTuple ((fileOf (columns.map WireColumn.entry)).descriptor hvalid)
      ((tupleSet columns).descriptor streamPackage) mes where
  fields field hfield := by
    obtain ⟨proto, hproto, rfl⟩ := List.mem_map.mp hfield
    obtain hproto | hproto := List.mem_append.mp hproto
    · obtain ⟨wire, hwire, rfl⟩ := List.mem_map.mp hproto
      obtain ⟨i, hi, rfl⟩ := List.mem_iff_getElem.mp hwire
      have hcolumns := h.columns
      rw [List.forall₂_map_left_iff, List.forall₂_iff_get] at hcolumns
      obtain ⟨hlength, hcontents⟩ := hcolumns
      have hcontent : mes (columns[i].field.descriptor streamPackage).name = _ :=
        (congrArg mes columns[i].shape.name_eq).trans (hcontents i hi (hlength ▸ hi))
      rw [hcontent]
      exact sentContent_of columns[i].shape (knowsRows hvalid hwire) _
    · obtain rfl := List.mem_singleton.mp hproto
      have hts : mes ((timestampField columns.length).descriptor streamPackage).name = _ := h.timestamp
      rw [hts]
      exact of_setSingle rfl rfl _
  others name hname := by
    rw [DescriptorProto.map_name_fields, map_name_tupleSet, List.mem_append, not_or] at hname
    refine h.others name ?_ fun heq => hname.2 (heq ▸ List.mem_singleton_self _)
    rw [List.map_map]
    exact hname.1

/-- Messages that hold tuples have nothing in them but the fields of a tuple. -/
theorem isTuple_of_forall₂ {tuples : List Tuple} {rows : List TupleMessage}
    (h : List.Forall₂ (HoldsTuple (columns.map WireColumn.attr)) tuples rows) :
    ∀ mes ∈ rows, IsTuple ((fileOf (columns.map WireColumn.entry)).descriptor hvalid)
      ((tupleSet columns).descriptor streamPackage) mes := by
  induction h with
  | nil => exact fun _ hmem => absurd hmem List.not_mem_nil
  | cons hholds _ ih => exact List.forall_mem_cons.mpr ⟨isTuple_of_holds hvalid hholds, ih⟩

/-- The message of the tuples is one of the type for a stream. -/
theorem isTop_topMessage {rows : List TupleMessage}
    (hrows : ∀ mes ∈ rows, IsTuple ((fileOf (columns.map WireColumn.entry)).descriptor hvalid)
      ((tupleSet columns).descriptor streamPackage) mes) :
    IsTop ((fileOf (columns.map WireColumn.entry)).descriptor hvalid) (dynamicMessage.descriptor streamPackage)
      (topMessage rows) where
  fields field hfield := by
    obtain rfl : field = tupleSetField.descriptor streamPackage := List.mem_singleton.mp hfield
    have hchild := message_type_tupleSetField hvalid
    have hcontent : topMessage rows (tupleSetField.descriptor streamPackage).name = _ := topMessage_tuple_set rows
    rw [hcontent]
    exact of_messages rfl hchild hrows
  others name hname := by
    apply Function.update_of_ne
    exact fun heq => hname (List.mem_singleton.mpr heq)

end File

end IS.ProtobufParser

import Dm20.Protobuf.Reflection
import Dm20.TupleLib.Tuple
import Dm20.TupleLib.Value

namespace IS

/-- How the writing or reading of a message can end: by an exception, or with the use of a
descriptor that is missing, of a field that is not of the type asked for, or of an
element outside a list. -/
inductive CodecFailure where
  | out_of_range
  | length_error
  | runtime_error
  | bad_any_cast
  | nullptr
  | fatal
  | undefined
deriving DecidableEq, Repr

/-- The type of an `any` that a column can have. -/
inductive AnyType where
  | scalar (ty : ScalarType)
  | vector (ty : ScalarType)
  | vectorVector (ty : ScalarType)
deriving DecidableEq

def Any.hasType : Any → AnyType → Bool
  | .scalar ty _, .scalar ty' => decide (ty = ty')
  | .vector ty _, .vector ty' => decide (ty = ty')
  | .vectorVector ty _, .vectorVector ty' => decide (ty = ty')
  | _, _ => false

namespace ProtobufParser

open StringUtil

/-- The types that values are brought to. -/
def typeMap : List (Str × AnyType) :=
  [("int".toList, .scalar .int), ("uint".toList, .scalar .uint), ("long".toList, .scalar .long),
   ("ulong".toList, .scalar .ulonglong), ("double".toList, .scalar .double), ("string".toList, .scalar .string),
   ("bool".toList, .scalar .bool),
   ("vector(int)".toList, .vector .int), ("vector(uint)".toList, .vector .uint), ("vector(long)".toList, .vector .long),
   ("vector(ulong)".toList, .vector .ulonglong), ("vector(double)".toList, .vector .double),
   ("vector(string)".toList, .vector .string), ("vector(bool)".toList, .vector .bool),
   ("vector(vector(int))".toList, .vectorVector .int), ("vector(vector(uint))".toList, .vectorVector .uint),
   ("vector(vector(long))".toList, .vectorVector .long), ("vector(vector(ulong))".toList, .vectorVector .ulonglong),
   ("vector(vector(double))".toList, .vectorVector .double),
   ("vector(vector(string))".toList, .vectorVector .string), ("vector(vector(bool))".toList, .vectorVector .bool),
   ("bytes".toList, .scalar .string)]

/-- The column type of a field; that of an unsigned integer of 32 bits is `ulong`. -/
def protoTypeMap : FieldType → Option Str
  | .TYPE_INT32 => some "int".toList
  | .TYPE_INT64 => some "long".toList
  | .TYPE_DOUBLE => some "double".toList
  | .TYPE_STRING => some "string".toList
  | .TYPE_BOOL => some "bool".toList
  | .TYPE_UINT32 => some "ulong".toList
  | .TYPE_UINT64 => some "ulong".toList
  | _ => none

/-- The type of a field as a text. The field of a nested message is the first one. -/
def FieldTypeToString (fd : FileDescriptor) (field : FieldDescriptor) : Except CodecFailure Str :=
  match fd.message_type field with
  | some child =>
    match child.fields with
    | [] => .error .undefined
    | childField :: _ => .ok ("vector(vector(".toList ++ childField.type.TypeName ++ "))".toList)
  | none =>
    .ok (if field.is_repeated then "vector(".toList ++ field.type.TypeName ++ ")".toList else field.type.TypeName)

/-- The types of field whose elements are taken over. -/
def elementType : FieldType → Option ScalarType
  | .TYPE_INT32 => some .int
  | .TYPE_INT64 => some .long
  | .TYPE_DOUBLE => some .double
  | .TYPE_STRING => some .string
  | .TYPE_BOOL => some .bool
  | .TYPE_UINT32 => some .uint
  | .TYPE_UINT64 => some .ulonglong
  | _ => none

/-- The types of field whose single value is taken over. -/
def singleType : FieldType → Option ScalarType
  | .TYPE_BYTES => some .string
  | type => elementType type

/-- The rows of a repeated field of messages. The type of their items is looked up for
each of them and is the same for all; with no message there is none, and no value. -/
def setRows (fd : FileDescriptor) (mes : TupleMessage) (field : FieldDescriptor) (tuple : Tuple) (t_idx : Nat)
    (ts : Int) (field_name : Str) : Except CodecFailure Tuple :=
  match (mes field.name).messages with
  | [] => .ok tuple
  | items =>
    match fd.message_type field with
    | none => .error .nullptr
    | some v2des =>
      match v2des.FindFieldByName (field_name ++ "_item".toList) with
      | none => .error .nullptr
      | some v2fd =>
        if v2fd.is_repeated then
          match elementType v2fd.type with
          | some ty =>
            .ok (tuple.setValue t_idx
              (.vectorVector ty (items.map fun item => (item v2fd.name).repeated (.scalar ty))) ts false)
          | none => .ok tuple
        else .error .fatal

/-- Sets a column to the value of a field, unless its type is not known. -/
def setTupleAttrValue (fd : FileDescriptor) (mes : TupleMessage) (field : FieldDescriptor) (tuple : Tuple) (t_idx : Nat)
    (ts : Int) (field_name : Str) (isNull : Bool) : Except CodecFailure Tuple :=
  if field.is_repeated then
    match elementType field.type with
    | some ty => .ok (tuple.setValue t_idx (.vector ty ((mes field.name).repeated (.scalar ty))) ts isNull)
    | none =>
      match field.type with
      | .TYPE_MESSAGE _ => setRows fd mes field tuple t_idx ts field_name
      | _ => .ok tuple
  else
    match singleType field.type with
    | some ty => .ok (tuple.setValue t_idx (.scalar ty ((mes field.name).single (.scalar ty))) ts isNull)
    | none => .ok tuple

/-- The value at the type expected, by way of its text. -/
def normalizeAny (value : Any) (expectedType : Str) : Except CodecFailure Any :=
  match typeMap.lookup expectedType with
  | none => .error .runtime_error
  | some ty =>
    if value.hasType ty then .ok value else .ok (getAnyValFromString (getAnyString value) expectedType)

/-- Whether a field is of the type of its column. -/
def equalAttr (field : FieldDescriptor) (attrType : Str) : Bool :=
  if contain attrType "vector".toList then field.is_repeated && decide (protoTypeMap field.type = some attrType)
  else decide (protoTypeMap field.type = some attrType)

def checkAndNormalizedTuple (field : FieldDescriptor) (tuple : Tuple) (t_idx : Nat) (attrType : Str) :
    Except CodecFailure Tuple :=
  if equalAttr field attrType then .ok tuple
  else do
    let column := tuple.columns.getD t_idx {}
    let retVal ← normalizeAny column.value attrType
    return tuple.setValue t_idx retVal column.timestamp false

/-- The name of a field and its type. -/
def readEntry (fd : FileDescriptor) (field : FieldDescriptor) : Except CodecFailure (Str × Str) := do
  let field_type ← FieldTypeToString fd field
  return (field.name, field_type)

/-- The fields of a message, which are kept if it is one named `Tuple_set`. -/
def readDescriptor (fd : FileDescriptor) (desc : Descriptor) : Except CodecFailure (List (Str × Str)) := do
  let entries ← desc.fields.mapM (readEntry fd)
  return if desc.name = "Tuple_set".toList then entries else []

def readFields (fd : FileDescriptor) : Except CodecFailure (List (Str × Str)) := do
  let lists ← fd.message_types.mapM (readDescriptor fd)
  return lists.flatten

/-- What the loop over the messages needs to know: the names of the columns, the types
of the attributes, the number of columns of a tuple and of those that are not for the
administration. -/
structure RowFormat where
  fromApl : Bool
  field_names : List Str
  attrTypeList : List Str
  attr_size : Int
  tuple_normal_attr_count : Int

/-- The value of one field of a row, which a message of an application has to bring to
the type of the attribute. -/
def readField (fd : FileDescriptor) (format : RowFormat) (mes : TupleMessage) (ts : Int) (tuple : Tuple) (j : Nat)
    (field_name : Str) (field : FieldDescriptor) : Except CodecFailure Tuple :=
  let isNull := false
  if format.fromApl then do
    let tuple ← setTupleAttrValue fd mes field tuple j ts field_name isNull
    match format.attrTypeList[j]? with
    | none => throw .undefined
    | some attrType => checkAndNormalizedTuple field tuple j attrType
  else setTupleAttrValue fd mes field tuple j ts field_name isNull

/-- One column of a row. -/
def readColumn (fd : FileDescriptor) (tuple_set_des : Descriptor) (format : RowFormat) (mes : TupleMessage) (ts : Int)
    (tuple : Tuple) (j : Nat) : Except CodecFailure Tuple :=
  if format.fromApl ∧ format.tuple_normal_attr_count ≤ j then .ok tuple
  else
    match format.field_names[j]? with
    | none => .error .out_of_range
    | some field_name =>
      match tuple_set_des.FindFieldByName field_name with
      | none => .error .nullptr
      | some field => readField fd format mes ts tuple j field_name field

/-- `Reflection::GetInt64`. -/
def GetInt64 (mes : TupleMessage) (field : FieldDescriptor) : Except CodecFailure Int64 :=
  if field.is_repeated = false ∧ field.type.cpp_type = some (.scalar .long) then
    .ok ((mes field.name).single (.scalar .long))
  else .error .fatal

/-- A tuple of empty columns; a negative size is a huge one. -/
def newTuple (size : Int) : Except CodecFailure Tuple :=
  if size < 0 then .error .length_error else .ok { columns := List.replicate size.toNat {} }

/-- The tuple of one message. -/
def readTuple (fd : FileDescriptor) (tuple_set_des : Descriptor) (format : RowFormat) (mes : TupleMessage) :
    Except CodecFailure Tuple := do
  let tuple ← newTuple format.attr_size
  match tuple_set_des.FindFieldByName "dm2_create_ts".toList with
  | none => throw .nullptr
  | some field =>
    let ts ← GetInt64 mes field
    (List.range (format.field_names.length - 1)).foldlM (readColumn fd tuple_set_des format mes ts.toInt) tuple

/-- The messages of the tuples; of a field of another type none can be got. -/
def readTuples (fd : FileDescriptor) (tuple_set_fd : FieldDescriptor) (format : RowFormat) (mes : TopMessage) :
    Except CodecFailure (List Tuple) := do
  if tuple_set_fd.is_repeated = false then throw .fatal
  if FieldSize mes tuple_set_fd = 0 then return []
  match fd.message_type tuple_set_fd with
  | none => throw .fatal
  | some tuple_set_des => (mes tuple_set_fd.name).messages.mapM (readTuple fd tuple_set_des format)

/-- The format of the rows of a schema, or, for a schema without attributes, that of
the message. -/
def rowFormat (schema : Schema) (fromApl : Bool) (field_names : List Str) : RowFormat where
  fromApl := fromApl
  field_names := field_names
  attrTypeList := if fromApl then schema.attributes.map Attribute.type else []
  attr_size := if schema.getAttributeSize = 0 then (field_names.length : Int) - 1 else schema.getAttributeSize
  tuple_normal_attr_count :=
    if schema.getAttributeSize = 0 then (field_names.length : Int) - 1
    else (schema.getAttributeSize : Int) - Schema.getAdminAttributeSize

/-- The file description and the message of a text that has a length before a comma. -/
def splitMessage (serializedStr : Str) : Option (Int × Str) :=
  match Text.cut ",".toList serializedStr with
  | none => none
  | some (metadataLenStr, metaAndMessage) =>
    match stoi metadataLenStr with
    | .error _ => none
    | .ok metadataLen => some (metadataLen.toInt, metaAndMessage)

/-- The tuples of a message of a file that is accepted, with the names and the types of
its fields; `parse` is the message of a type in the text. -/
def readFile (dynamic_fd : FileDescriptor) (parse : Descriptor → TopMessage) (schema : Schema) (fromApl : Bool) :
    Except CodecFailure (List Tuple × List Str × List Str) := do
  let fieldList ← readFields dynamic_fd
  match dynamic_fd.FindMessageTypeByName "DynamicMessage_dm2is".toList with
  | none => throw .nullptr
  | some top_level_des =>
    match top_level_des.FindFieldByName "tuple_set".toList with
    | none => throw .nullptr
    | some tuple_set_fd =>
      let format := rowFormat schema fromApl (fieldList.map Prod.fst)
      let tuples ← readTuples dynamic_fd tuple_set_fd format (parse top_level_des)
      if fieldList = [] then throw .undefined
      return (tuples, (fieldList.map Prod.fst).dropLast, (fieldList.map Prod.snd).dropLast)

/-- The tuples of a message that brings its own description. -/
def DeserializeToTupleDynamically (protobuf : Protobuf) (serializedStr : Str) (schema : Schema) (fromApl : Bool) :
    Except CodecFailure (List Tuple × List Str × List Str) :=
  match splitMessage serializedStr with
  | none => .ok ([], [], [])
  | some (metadataLen, metaAndMessage) =>
    -- a negative position is a huge one
    if metadataLen < 0 ∨ metaAndMessage.length < metadataLen then .error .out_of_range
    else
      match protobuf.ParseAndBuildFile (metaAndMessage.take metadataLen.toNat) with
      | none => .ok ([], [], [])
      | some dynamic_fd =>
        readFile dynamic_fd
          (fun top_level_des => protobuf.ParseFromString dynamic_fd top_level_des (metaAndMessage.drop metadataLen.toNat))
          schema fromApl

end ProtobufParser

end IS

import Dm20.Protobuf.DynamicDecoder

namespace IS.ProtobufParser

def isNameChar (c : Char) : Bool :=
  ('a' ≤ c && c ≤ 'z') || ('A' ≤ c && c ≤ 'Z') || ('0' ≤ c && c ≤ '9') || c == '_'

/-- A name that can be that of a field: other characters are replaced, and an empty name
or one that begins with a digit gets a beginning. -/
def sanitizeProtoFieldName (name : Str) (index : Nat) : Str :=
  let result := name.map fun c => if isNameChar c then c else '_'
  let result := if result = [] then "col_".toList ++ to_string_nat (index + 1) else result
  match result with
  | c :: _ => if '0' ≤ c ∧ c ≤ '9' then "col_".toList ++ result else result
  | [] => result

/-- The first name that is not used among a name and those with the numbers from `count`
on behind it. Each unit of the bound is one turn of the loop. -/
def firstUnused (base : Str) (used : List Str) : Nat → Nat → Str → Str
  | 0, _, name => name
  | bound + 1, count, name =>
    if name ∈ used then firstUnused base used bound (count + 1) (base ++ "_".toList ++ to_string_nat count) else name

def makeUniqueProtoFieldName (original : Str) (index : Nat) (used : List Str) : Str :=
  let name := sanitizeProtoFieldName original index
  firstUnused name used (used.length + 1) 1 name

/-- The type of a field for a column type, and how many times it is repeated in itself;
none is the exception for another type. -/
def AttributeTypeToProtoFieldType (attrType : Str) : Option (FieldType × Nat) :=
  List.lookup attrType
    [("int".toList, .TYPE_INT32, 0), ("int4".toList, .TYPE_INT32, 0), ("long".toList, .TYPE_INT64, 0),
     ("double".toList, .TYPE_DOUBLE, 0), ("float".toList, .TYPE_FLOAT, 0), ("float8".toList, .TYPE_FLOAT, 0),
     ("string".toList, .TYPE_STRING, 0), ("geometry".toList, .TYPE_STRING, 0), ("geography".toList, .TYPE_STRING, 0),
     ("bool".toList, .TYPE_BOOL, 0), ("uint".toList, .TYPE_UINT32, 0), ("ulong".toList, .TYPE_UINT64, 0),
     ("bytes".toList, .TYPE_BYTES, 0),
     ("vector(int)".toList, .TYPE_INT32, 1), ("vector(int4)".toList, .TYPE_INT32, 1),
       ("vector(long)".toList, .TYPE_INT64, 1),
     ("vector(double)".toList, .TYPE_DOUBLE, 1), ("vector(string)".toList, .TYPE_STRING, 1),
     ("vector(geometry)".toList, .TYPE_STRING, 1), ("vector(geography)".toList, .TYPE_STRING, 1),
     ("vector(bool)".toList, .TYPE_BOOL, 1), ("vector(uint)".toList, .TYPE_UINT32, 1),
       ("vector(ulong)".toList, .TYPE_UINT64, 1),
     ("vector(vector(int))".toList, .TYPE_INT32, 2), ("vector(vector(int4))".toList, .TYPE_INT32, 2),
     ("vector(vector(long))".toList, .TYPE_INT64, 2), ("vector(vector(double))".toList, .TYPE_DOUBLE, 2),
     ("vector(vector(string))".toList, .TYPE_STRING, 2), ("vector(vector(geometry))".toList, .TYPE_STRING, 2),
     ("vector(vector(geography))".toList, .TYPE_STRING, 2), ("vector(vector(bool))".toList, .TYPE_BOOL, 2),
     ("vector(vector(uint))".toList, .TYPE_UINT32, 2), ("vector(vector(ulong))".toList, .TYPE_UINT64, 2)]

/-- What is set for a value: a single value of a type, a text for an object of the class
`Bytes` or a string, the elements of a vector, or a message for each row. -/
inductive AttrSetter where
  | single (ty : ScalarType)
  | bytes
  | repeated (ty : ScalarType)
  | rows (ty : ScalarType)
deriving DecidableEq

/-- The branch that is taken for a column type. For another type nothing is set. -/
def attrSetter (attrType : Str) : Option AttrSetter :=
  List.lookup attrType
    [("int".toList, .single .int), ("int4".toList, .single .int), ("long".toList, .single .long),
     ("double".toList, .single .double), ("string".toList, .single .string), ("geometry".toList, .single .string),
     ("geography".toList, .single .string), ("bool".toList, .single .bool), ("uint".toList, .single .uint),
     ("ulong".toList, .single .ulonglong), ("bytes".toList, .bytes),
     ("vector(int)".toList, .repeated .int), ("vector(int4)".toList, .repeated .int),
     ("vector(long)".toList, .repeated .long), ("vector(double)".toList, .repeated .double),
     ("vector(string)".toList, .repeated .string), ("vector(geometry)".toList, .repeated .string),
     ("vector(geography)".toList, .repeated .string), ("vector(bool)".toList, .repeated .bool),
     ("vector(uint)".toList, .repeated .uint), ("vector(ulong)".toList, .repeated .ulonglong),
     ("vector(vector(int))".toList, .rows .int), ("vector(vector(int4))".toList, .rows .int),
     ("vector(vector(long))".toList, .rows .long), ("vector(vector(double))".toList, .rows .double),
     ("vector(vector(string))".toList, .rows .string), ("vector(vector(geometry))".toList, .rows .string),
     ("vector(vector(geography))".toList, .rows .string), ("vector(vector(bool))".toList, .rows .bool),
     ("vector(vector(uint))".toList, .rows .uint), ("vector(vector(ulong))".toList, .rows .ulonglong)]

/-- `any_cast`. -/
def any_cast (ty : ScalarType) : Any → Option ty.denote
  | .scalar ty' v => if h : ty' = ty then some (h ▸ v) else none
  | _ => none

/-- The elements up to the first one of another type, at which the exception ends the
loop. -/
def castPrefix (ty : ScalarType) : List Any → List ty.denote
  | [] => []
  | x :: xs =>
    match any_cast ty x with
    | some v => v :: castPrefix ty xs
    | none => []

/-- The rows up to the first element of another type. -/
def castRows (ty : ScalarType) : List (List Any) → List (List ty.denote)
  | [] => []
  | row :: rows =>
    if row.all fun x => (any_cast ty x).isSome then castPrefix ty row :: castRows ty rows else [castPrefix ty row]

/-- The elements that are added for a vector; exceptions are caught. -/
def vectorElements (ty : ScalarType) : Any → List ty.denote
  | .vector ty' xs => if h : ty' = ty then h ▸ xs else []
  | .vectorAny xs => castPrefix ty xs
  | _ => []

def vectorRows (ty : ScalarType) : Any → List (List ty.denote)
  | .vectorVector ty' rows => if h : ty' = ty then h ▸ rows else []
  | .vectorVectorAny rows => castRows ty rows
  | _ => []

def bytesText : Any → Option Str
  | .bytes v => some v
  | val => any_cast .string val

/-- The message of one row of a vector of vectors. -/
def itemMessage (item_name : Str) (ty : ScalarType) (row : List ty.denote) : ItemMessage :=
  Function.update (fun _ => .empty) item_name
    { FieldContent.empty with repeated := Function.update (fun _ => []) (.scalar ty) row }

namespace FieldContent

variable {Child : Type}

def setSingle (content : FieldContent Child) (ty : ScalarType) (v : ty.denote) : FieldContent Child :=
  { content with single := Function.update content.single (.scalar ty) v }

def addAll (content : FieldContent Child) (ty : ScalarType) (xs : List ty.denote) : FieldContent Child :=
  { content with repeated := Function.update content.repeated (.scalar ty) (content.repeated (.scalar ty) ++ xs) }

end FieldContent

/-- What a field holds when a value is set. -/
def setAttrValue (content : FieldContent ItemMessage) (val : Any) (attrType attrName : Str) :
    Except CodecFailure (FieldContent ItemMessage) :=
  match attrSetter attrType with
  | none => .ok content
  | some (.single ty) =>
    match any_cast ty val with
    | some v => .ok (FieldContent.setSingle content ty v)
    | none => .error .bad_any_cast
  | some .bytes =>
    match bytesText val with
    | some v => .ok (FieldContent.setSingle content .string v)
    | none => .error .bad_any_cast
  | some (.repeated ty) => .ok (FieldContent.addAll content ty (vectorElements ty val))
  | some (.rows ty) =>
    .ok { content with
      messages := content.messages ++ (vectorRows ty val).map (itemMessage (attrName ++ "_item".toList) ty) }

/-- The columns of a tuple set into a message, one after the other; the column types are
an array of the length of the schema. -/
def setColumns : List (Str × Str) → List Column → TupleMessage → Except CodecFailure TupleMessage
  | _, [], mes => .ok mes
  | [], _ :: _, _ => .error .undefined
  | (attrName, attrType) :: attrs, column :: columns, mes => do
    let content ←
      if column.isNull then pure .empty else setAttrValue (mes attrName) column.value attrType attrName
    setColumns attrs columns (Function.update mes attrName content)

def writeTuple (attrs : List (Str × Str)) (tuple : Tuple) : Except CodecFailure TupleMessage := do
  let mes ← setColumns attrs tuple.columns fun _ => .empty
  let ts_first := (tuple.columns.head?.map Column.timestamp).getD 0
  return Function.update mes "dm2_create_ts".toList
    (FieldContent.setSingle (mes "dm2_create_ts".toList) .long (Int64.ofInt ts_first))

/-- The part of a name behind its first dot. -/
def afterDot (name : Str) : Str :=
  match Text.cut ".".toList name with
  | some (_, rest) => rest
  | none => name

/-- The type of a column; one without has its name for it. -/
def attrTypeOf (attr : Attribute) : Str :=
  if attr.type ≠ [] then attr.type else attr.name

/-- The names and types of the fields for the attributes from an index on. -/
def schemaColumns : List Attribute → Nat → List Str → List (Str × Str)
  | [], _, _ => []
  | attr :: attrs, i, used =>
    let name := makeUniqueProtoFieldName (sanitizeProtoFieldName attr.name i) i used
    (afterDot name, attrTypeOf attr) :: schemaColumns attrs (i + 1) (name :: used)

/-- The column type of a value, by its C++ type. -/
def typeString : Any → Option Str
  | .scalar ty _ => some (scalarName ty)
  | .vector ty _ => some ("vector(".toList ++ scalarName ty ++ ")".toList)
  | .vectorVector ty _ => some ("vector(vector(".toList ++ scalarName ty ++ "))".toList)
  | .bytes _ => some "bytes".toList
  | _ => none
where
  scalarName : ScalarType → Str
  | .int => "int".toList
  | .long => "long".toList
  | .uint => "uint".toList
  | .ulonglong => "ulong".toList
  | .uint64 => "ulong".toList
  | .double => "double".toList
  | .string => "string".toList
  | .bool => "bool".toList

/-- The names and types of the fields without a schema, by the values of a tuple. -/
def valueColumns (tuple : Tuple) : Option (List (Str × Str)) :=
  tuple.columns.zipIdx.mapM fun (column, i) =>
    (typeString column.value).map fun type => ("col".toList ++ to_string_nat (i + 1), type)

/-- The field of a column, and the message of its rows for a vector of vectors. -/
def columnField (attrName attrType : Str) (i : Nat) : Option (FieldDescriptorProto × List DescriptorProto) :=
  (AttributeTypeToProtoFieldType attrType).map fun
    | (type, 0) => ({ name := attrName, number := i + 1, type }, [])
    | (type, 1) => ({ name := attrName, number := i + 1, label := .LABEL_REPEATED, type }, [])
    | (type, _) =>
      ({ name := attrName, number := i + 1, label := .LABEL_REPEATED, type := .TYPE_MESSAGE (attrName ++ "_".toList) },
       [{ name := attrName ++ "_".toList
          field := [{ name := attrName ++ "_item".toList, number := 1, label := .LABEL_REPEATED, type }] }])

def columnFields : List (Str × Str) → Nat → Option (List (FieldDescriptorProto × List DescriptorProto))
  | [], _ => some []
  | (attrName, attrType) :: attrs, i => do
    let field ← columnField attrName attrType i
    let fields ← columnFields attrs (i + 1)
    return field :: fields

/-- The description of a file with the messages of rows whose columns have some fields. -/
def fileOf (fields : List (FieldDescriptorProto × List DescriptorProto)) : FileDescriptorProto where
  name := "dynamic_proto".toList
  syntax_ := "proto3".toList
  package := "dm2_proto".toList
  message_type :=
    [{ name := "DynamicMessage_dm2is".toList
       field := [{ name := "tuple_set".toList, number := 1, label := .LABEL_REPEATED,
                   type := .TYPE_MESSAGE "Tuple_set".toList }] },
     { name := "Tuple_set".toList
       field := fields.map Prod.fst ++
         [{ name := "dm2_create_ts".toList, number := fields.length + 1, type := .TYPE_INT64 }] }] ++
    fields.flatMap Prod.snd

def describe (attrs : List (Str × Str)) : Option FileDescriptorProto :=
  (columnFields attrs 0).map fileOf

/-- The message of the rows of a stream. -/
def topMessage (rows : List TupleMessage) : TopMessage :=
  Function.update (fun _ => .empty) "tuple_set".toList
    { single := CppType.default, repeated := fun _ => [], messages := rows }

/-- The text of tuples: the length of their description, the description and the
message. Where the types or values are not supported, or the library does not accept the
description, the text is empty. -/
def SerializeToStringDynamically (protobuf : Protobuf) (tuples : List Tuple) (schema : Option Schema) :
    Except CodecFailure Str :=
  match tuples with
  | [] => .ok []
  | first :: _ =>
    let attrs := match schema with
      | none => (valueColumns first).getD []
      | some schema => schemaColumns schema.attributes 0 []
    if attrs = [] then .ok []
    else
      match (describe attrs).bind fun file => (protobuf.BuildFile file).map (file, ·) with
      | none => .ok []
      | some (fileDescriptor, dynamic_fd) =>
        match dynamic_fd.FindMessageTypeByName "DynamicMessage_dm2is".toList with
        | none => .error .nullptr
        | some top_level_mes_des =>
          match tuples.mapM (writeTuple attrs) with
          | .error .bad_any_cast => .ok []
          | .error e => .error e
          | .ok rows =>
            let metadata := protobuf.SerializeFile fileDescriptor
            .ok (to_string_nat metadata.length ++ ",".toList ++ metadata ++
              protobuf.SerializeToString dynamic_fd top_level_mes_des (topMessage rows))

end IS.ProtobufParser

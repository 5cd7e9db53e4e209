import Dm20.TupleLib.Any

namespace IS

/-- The C++ types of the fields that are not messages. -/
inductive CppType where
  | scalar (ty : ScalarType)
  | float
  | enum
deriving DecidableEq

@[reducible] def CppType.denote : CppType → Type
  | .scalar ty => ty.denote
  | .float => Float32
  | .enum => Int32

/-- The value of a field that is not set. -/
def CppType.default : (ty : CppType) → ty.denote
  | .scalar .int => (0 : Int32)
  | .scalar .long => (0 : Int64)
  | .scalar .uint => (0 : UInt32)
  | .scalar .ulonglong => (0 : UInt64)
  | .scalar .uint64 => (0 : UInt64)
  | .scalar .double => (0 : Float)
  | .scalar .string => ([] : Str)
  | .scalar .bool => false
  | .float => (0 : Float32)
  | .enum => (0 : Int32)

/-- The types of fields. A field of messages names their type. -/
inductive FieldType where
  | TYPE_DOUBLE
  | TYPE_FLOAT
  | TYPE_INT64
  | TYPE_UINT64
  | TYPE_INT32
  | TYPE_FIXED64
  | TYPE_FIXED32
  | TYPE_BOOL
  | TYPE_STRING
  | TYPE_GROUP (message_type : Str)
  | TYPE_MESSAGE (message_type : Str)
  | TYPE_BYTES
  | TYPE_UINT32
  | TYPE_ENUM
  | TYPE_SFIXED32
  | TYPE_SFIXED64
  | TYPE_SINT32
  | TYPE_SINT64
deriving DecidableEq

namespace FieldType

/-- The C++ type of a field; none stands for a message. -/
def cpp_type : FieldType → Option CppType
  | TYPE_INT32 | TYPE_SINT32 | TYPE_SFIXED32 => some (.scalar .int)
  | TYPE_INT64 | TYPE_SINT64 | TYPE_SFIXED64 => some (.scalar .long)
  | TYPE_UINT32 | TYPE_FIXED32 => some (.scalar .uint)
  | TYPE_UINT64 | TYPE_FIXED64 => some (.scalar .ulonglong)
  | TYPE_DOUBLE => some (.scalar .double)
  | TYPE_FLOAT => some .float
  | TYPE_BOOL => some (.scalar .bool)
  | TYPE_STRING | TYPE_BYTES => some (.scalar .string)
  | TYPE_ENUM => some .enum
  | TYPE_GROUP _ | TYPE_MESSAGE _ => none

/-- The name of the message type of a field of messages. -/
def message_type : FieldType → Option Str
  | TYPE_GROUP name | TYPE_MESSAGE name => some name
  | _ => none

def TypeName : FieldType → Str
  | TYPE_DOUBLE => "double".toList
  | TYPE_FLOAT => "float".toList
  | TYPE_INT64 => "int64".toList
  | TYPE_UINT64 => "uint64".toList
  | TYPE_INT32 => "int32".toList
  | TYPE_FIXED64 => "fixed64".toList
  | TYPE_FIXED32 => "fixed32".toList
  | TYPE_BOOL => "bool".toList
  | TYPE_STRING => "string".toList
  | TYPE_GROUP _ => "group".toList
  | TYPE_MESSAGE _ => "message".toList
  | TYPE_BYTES => "bytes".toList
  | TYPE_UINT32 => "uint32".toList
  | TYPE_ENUM => "enum".toList
  | TYPE_SFIXED32 => "sfixed32".toList
  | TYPE_SFIXED64 => "sfixed64".toList
  | TYPE_SINT32 => "sint32".toList
  | TYPE_SINT64 => "sint64".toList

/-- The types without single values are those that name a message type. -/
theorem cpp_type_eq_none_iff {type : FieldType} : type.cpp_type = none ↔ ∃ name, type.message_type = some name := by
  cases type <;> simp [cpp_type, message_type]

end FieldType

inductive Label where
  | LABEL_OPTIONAL
  | LABEL_REQUIRED
  | LABEL_REPEATED
deriving DecidableEq

/-- The description of a field, as it is given to the library. -/
structure FieldDescriptorProto where
  name : Str
  number : Nat
  label : Label := .LABEL_OPTIONAL
  type : FieldType
deriving DecidableEq

structure DescriptorProto where
  name : Str
  field : List FieldDescriptorProto := []
deriving DecidableEq

structure FileDescriptorProto where
  name : Str
  syntax_ : Str
  package : Str
  message_type : List DescriptorProto := []
deriving DecidableEq

/-- A field as the library has taken it in; the name of a message type is the full one. -/
structure FieldDescriptor where
  name : Str
  label : Label
  type : FieldType
deriving DecidableEq

def FieldDescriptor.is_repeated (field : FieldDescriptor) : Bool :=
  decide (field.label = .LABEL_REPEATED)

structure Descriptor where
  full_name : Str
  name : Str
  fields : List FieldDescriptor
deriving DecidableEq

namespace Descriptor

def FindFieldByName (d : Descriptor) (name : Str) : Option FieldDescriptor :=
  d.fields.find? fun field => decide (field.name = name)

end Descriptor

/-- A file that the library has accepted: all of its message types, the nested ones
too, and those at the top. The type of each field of messages is one of them. -/
structure FileDescriptor where
  descriptors : List Descriptor
  message_types : List Descriptor
  mem_descriptors : ∀ d ∈ message_types, d ∈ descriptors
  resolved : ∀ d ∈ descriptors, ∀ field ∈ d.fields, ∀ name, field.type.message_type = some name →
    ∃ child ∈ descriptors, child.full_name = name

namespace FileDescriptor

def FindMessageTypeByName (fd : FileDescriptor) (name : Str) : Option Descriptor :=
  fd.message_types.find? fun d => decide (d.name = name)

/-- The type of the messages of a field; none is the null pointer. -/
def message_type (fd : FileDescriptor) (field : FieldDescriptor) : Option Descriptor :=
  field.type.message_type.bind fun name => fd.descriptors.find? fun d => decide (d.full_name = name)

/-- The message type of a field is one of the description. -/
theorem mem_of_message_type {fd : FileDescriptor} {field : FieldDescriptor} {d : Descriptor}
    (h : fd.message_type field = some d) : d ∈ fd.descriptors := by
  obtain ⟨_, -, hfind⟩ := Option.bind_eq_some_iff.mp h
  exact List.mem_of_find?_eq_some hfind

end FileDescriptor

/-- What a message holds in a field: a value, which is the default one where none is set,
or the values or messages of a field that is repeated. -/
structure FieldContent (Child : Type) where
  single : (ty : CppType) → ty.denote
  repeated : (ty : CppType) → List ty.denote
  messages : List Child

def FieldContent.empty {Child : Type} : FieldContent Child where
  single := CppType.default
  repeated _ := []
  messages := []

/-- A message: what it holds under the names of its fields. -/
abbrev DynamicMessage (Child : Type) := Str → FieldContent Child

/-- The messages of a stream, as far as they are read: the rows, with the columns of
which the rows of vectors of vectors are messages. -/
abbrev ItemMessage := DynamicMessage Empty

abbrev TupleMessage := DynamicMessage ItemMessage

abbrev TopMessage := DynamicMessage TupleMessage

/-- `Reflection::FieldSize` of a repeated field. -/
def FieldSize {Child : Type} (mes : DynamicMessage Child) (field : FieldDescriptor) : Nat :=
  match field.type.cpp_type with
  | some ty => ((mes field.name).repeated ty).length
  | none => (mes field.name).messages.length

/-- What is used of the library: the text of a file description, the file in a
description or in the text of one, if it is accepted, and the text of a message of some
type and the message in a text. -/
structure Protobuf where
  SerializeFile : FileDescriptorProto → Str
  BuildFile : FileDescriptorProto → Option FileDescriptor
  ParseAndBuildFile : Str → Option FileDescriptor
  SerializeToString : FileDescriptor → Descriptor → TopMessage → Str
  ParseFromString : FileDescriptor → Descriptor → Str → TopMessage

end IS

import Dm20.Lib.AssocList
import Dm20.Protobuf.FieldNames

namespace IS

open ProtobufParser (IsIdentifier)

/-- The name of a type of messages as the full one. -/
def FieldType.qualify (package : Str) : FieldType → FieldType
  | TYPE_GROUP name => TYPE_GROUP (package ++ ".".toList ++ name)
  | TYPE_MESSAGE name => TYPE_MESSAGE (package ++ ".".toList ++ name)
  | type => type

def FieldDescriptorProto.descriptor (package : Str) (field : FieldDescriptorProto) : FieldDescriptor where
  name := field.name
  label := field.label
  type := field.type.qualify package

def DescriptorProto.descriptor (package : Str) (d : DescriptorProto) : Descriptor where
  full_name := package ++ ".".toList ++ d.name
  name := d.name
  fields := d.field.map (FieldDescriptorProto.descriptor package)

@[simp] theorem DescriptorProto.map_name_fields (package : Str) (d : DescriptorProto) :
    (d.descriptor package).fields.map FieldDescriptor.name = d.field.map FieldDescriptorProto.name :=
  List.map_map

/-- With a package in front, a message type has its full name. -/
theorem FieldType.message_type_qualify (package : Str) (type : FieldType) :
    (type.qualify package).message_type = type.message_type.map fun name => package ++ ".".toList ++ name := by
  cases type <;> rfl

/-- A field of version 3 under a name that is an identifier. -/
structure FieldDescriptorProto.Valid (field : FieldDescriptorProto) : Prop where
  name : IsIdentifier field.name
  number : 0 < field.number
  label : field.label ≠ .LABEL_REQUIRED
  enum : field.type ≠ .TYPE_ENUM
  group : ∀ name, field.type ≠ .TYPE_GROUP name

namespace FileDescriptorProto

/-- A description in the syntax of version 3 whose names are identifiers, different from
each other in their scope, and whose types of messages are in the file. -/
structure Valid (p : FileDescriptorProto) : Prop where
  syntax_eq : p.syntax_ = "proto3".toList
  package : IsIdentifier p.package
  names : (p.message_type.map DescriptorProto.name).Nodup
  fields : ∀ d ∈ p.message_type, (d.field.map FieldDescriptorProto.name).Nodup
  numbers : ∀ d ∈ p.message_type, (d.field.map FieldDescriptorProto.number).Nodup
  identifiers : ∀ d ∈ p.message_type, IsIdentifier d.name ∧ ∀ field ∈ d.field, field.Valid
  resolved : ∀ d ∈ p.message_type, ∀ field ∈ d.field, ∀ name, field.type.message_type = some name →
    name ∈ p.message_type.map DescriptorProto.name

/-- The file of a description, without nested messages. -/
def descriptor (p : FileDescriptorProto) (h : p.Valid) : FileDescriptor where
  descriptors := p.message_type.map (DescriptorProto.descriptor p.package)
  message_types := p.message_type.map (DescriptorProto.descriptor p.package)
  mem_descriptors _ hd := hd
  resolved := by
    intro _ hdescriptor _ hmem name hname
    obtain ⟨d, hd, rfl⟩ := List.mem_map.mp hdescriptor
    obtain ⟨field, hfield, rfl⟩ := List.mem_map.mp hmem
    obtain ⟨short, hshort, rfl⟩ := Option.map_eq_some_iff.mp
      ((FieldType.message_type_qualify p.package field.type).symm.trans hname)
    obtain ⟨child, hchild, rfl⟩ := List.mem_map.mp (h.resolved d hd field hfield short hshort)
    exact ⟨child.descriptor p.package, List.mem_map_of_mem hchild, rfl⟩

section Descriptor

variable {p : FileDescriptorProto} (h : p.Valid) {d : DescriptorProto} (hd : d ∈ p.message_type)
include h hd

/-- In a valid description each message type is found by its name: no two share one. -/
theorem Valid.findMessageTypeByName :
    (p.descriptor h).FindMessageTypeByName d.name = some (d.descriptor p.package) := by
  refine AssocList.find?_key_of_nodup (a := d.descriptor p.package) ?_ (List.mem_map_of_mem hd)
  rw [FileDescriptorProto.descriptor, List.map_map]
  exact h.names

/-- In a valid description each field is found by its name in its message. -/
theorem Valid.findFieldByName {field : FieldDescriptorProto} (hfield : field ∈ d.field) :
    (d.descriptor p.package).FindFieldByName field.name = some (field.descriptor p.package) := by
  refine AssocList.find?_key_of_nodup (a := field.descriptor p.package) ?_ (List.mem_map_of_mem hfield)
  rw [DescriptorProto.map_name_fields]
  exact h.fields d hd

/-- The type of a field of messages is the message of that name. -/
theorem Valid.message_type_eq {field : FieldDescriptorProto} (hfield : field.type.message_type = some d.name) :
    (p.descriptor h).message_type (field.descriptor p.package) = some (d.descriptor p.package) := by
  have hqualified : (field.descriptor p.package).type.message_type = some (d.descriptor p.package).full_name := by
    rw [FieldDescriptorProto.descriptor, FieldType.message_type_qualify, hfield]
    rfl
  rw [FileDescriptor.message_type, hqualified, Option.bind_some]
  refine AssocList.find?_key_of_nodup (a := d.descriptor p.package) ?_ (List.mem_map_of_mem hd)
  have hfull : (p.descriptor h).descriptors.map Descriptor.full_name =
      (p.message_type.map DescriptorProto.name).map fun name => p.package ++ ".".toList ++ name := by
    rw [FileDescriptorProto.descriptor, List.map_map, List.map_map]
    rfl
  rw [hfull]
  exact h.names.map fun _ _ => List.append_cancel_left

end Descriptor

end FileDescriptorProto

section Typed

variable {Child : Type} (fd : FileDescriptor) (IsChild : Descriptor → Child → Prop)

/-- What can be in a field: a single value or values of its type, or messages of it. -/
structure FieldContent.Of (field : FieldDescriptor) (content : FieldContent Child) : Prop where
  single : ∀ ty, content.single ty ≠ CppType.default ty → field.is_repeated = false ∧ field.type.cpp_type = some ty
  repeated : ∀ ty, content.repeated ty ≠ [] → field.is_repeated = true ∧ field.type.cpp_type = some ty
  messages : content.messages ≠ [] → field.is_repeated = true ∧ ∃ child, fd.message_type field = some child ∧
    ∀ mes ∈ content.messages, IsChild child mes

/-- A message of a type: it holds nothing but what can be in its fields. -/
structure DynamicMessage.Of (d : Descriptor) (mes : DynamicMessage Child) : Prop where
  fields : ∀ field ∈ d.fields, (mes field.name).Of fd IsChild field
  others : ∀ name, name ∉ d.fields.map FieldDescriptor.name → mes name = .empty

end Typed

def IsItem (fd : FileDescriptor) : Descriptor → ItemMessage → Prop :=
  DynamicMessage.Of fd fun _ _ => False

def IsTuple (fd : FileDescriptor) : Descriptor → TupleMessage → Prop :=
  DynamicMessage.Of fd (IsItem fd)

def IsTop (fd : FileDescriptor) : Descriptor → TopMessage → Prop :=
  DynamicMessage.Of fd (IsTuple fd)

end IS

import Dm20.TupleLib.Number
import Dm20.TupleLib.StringUtil
import Dm20.TupleLib.Tuple

namespace IS.StringUtil

/-- A text without the brackets, split at the commas. -/
def getVectorString (args : Str) : List Str :=
  split (args.filter fun c => !(['[', ']'].contains c)) ",".toList

end IS.StringUtil

namespace IS.ProtobufParser

/-- The exceptions of a conversion: a value of another type, or a text that is no number. -/
inductive ConversionFailure where
  | bad_any_cast
  | number (e : ConversionError)
deriving DecidableEq

/-- What a message says about the origin of a tuple. -/
structure Is_tuple_info where
  dm2_create_ts : Int := 0
  dm2_creator_id : Str := []
  dm2_ip_addr : Str := []
  dm2_hash : UInt64 := 0
  dm2_ts_group : List UInt64 := []
deriving DecidableEq

/-- A conversion fills the entry of a tuple; what it has filled stays when it fails. -/
abbrev Conversion (σ : Type) := ExceptT ConversionFailure (StateM σ)

def any_cast_string (vals : List Any) (idx : Nat) : Except ConversionFailure Str :=
  match vals[idx]? with
  | some (.scalar .string v) => .ok v
  | _ => .error .bad_any_cast

def stoull_of (s : Str) : Except ConversionFailure UInt64 :=
  (stoull s).mapError .number

/-- The columns behind those of the object: creator, address, hash and group. -/
def setIsTupleInfo (vals : List Any) (curIdx : Nat) : Conversion Is_tuple_info Unit :=
  if vals.length ≤ curIdx + 3 then pure ()
  else do
    let strVal ← liftM (any_cast_string vals curIdx)
    if strVal ≠ "dm2developer1".toList then modify fun info => { info with dm2_creator_id := strVal }
    let strVal ← liftM (any_cast_string vals (curIdx + 1))
    if strVal ≠ "0.0.0.0".toList then modify fun info => { info with dm2_ip_addr := strVal }
    let hashStr ← liftM (any_cast_string vals (curIdx + 2))
    let hash ← liftM (stoull_of hashStr)
    modify fun info => { info with dm2_hash := hash }
    let strVal ← liftM (any_cast_string vals (curIdx + 3))
    for v in StringUtil.getVectorString strVal do
      if v ≠ [] then
        let ts ← liftM (stoull_of v)
        modify fun info => { info with dm2_ts_group := info.dm2_ts_group ++ [ts] }

def onObject {Object : Type} (set : Conversion Object Unit) : Conversion (Object × Is_tuple_info) Unit :=
  fun entry => let (result, object) := set entry.1; (result, (object, entry.2))

def onInfo {Object : Type} (set : Conversion Is_tuple_info Unit) : Conversion (Object × Is_tuple_info) Unit :=
  fun entry => let (result, info) := set entry.2; (result, (entry.1, info))

section Setters

variable {Object : Type}

/-- `setObjectInfo` and `setFreespaceInfo`: the time of creation, the fields of the object, which
differ from version to version, and the columns behind them. -/
def setInfo (fields : Nat) (setFields : Tuple → Conversion Object Unit) (tuple : Tuple) :
    Conversion (Object × Is_tuple_info) Unit := do
  onInfo (modify fun info => { info with dm2_create_ts := tuple.getTimestamp })
  onObject (setFields tuple)
  onInfo (setIsTupleInfo (tuple.columns.map Column.value) fields)

/-- In version 0.8.1 an object with too few columns is refused. -/
def setObjectInfo_0_8_1 (fields : Nat) (setFields : Tuple → Conversion Object Unit) (tuple : Tuple) :
    Conversion (Object × Is_tuple_info) Bool :=
  if tuple.size < fields then pure false
  else do
    setInfo fields setFields tuple
    return true

end Setters

/-- The two lists of a message. -/
structure InfoMessage (Object : Type) where
  object_info : List Object := []
  is_tuple_info : List Is_tuple_info := []
deriving DecidableEq

section Serializers

variable {Object : Type} [Inhabited Object]

/-- What a tuple adds to a message: an entry in each list. After an exception the object is
removed again. -/
def addInfo (set : Tuple → Conversion (Object × Is_tuple_info) Unit) (msg : InfoMessage Object) (tuple : Tuple) :
    InfoMessage Object :=
  let (result, object, info) := set tuple (default, {})
  let msg := { object_info := msg.object_info ++ [object], is_tuple_info := msg.is_tuple_info ++ [info] }
  match result with
  | .ok () => msg
  | .error _ => { msg with object_info := msg.object_info.dropLast }

/-- The message that is serialized; without objects the text is empty. -/
def serializeInfo (set : Tuple → Conversion (Object × Is_tuple_info) Unit) (tuples : List Tuple) :
    Option (InfoMessage Object) :=
  let msg := tuples.foldl (addInfo set) {}
  if 0 < msg.object_info.length then some msg else none

def objectInfoSerializeToString_0_6_0 (setObjectInfo : Tuple → Conversion (Object × Is_tuple_info) Unit)
    (tuples : List Tuple) : Option (InfoMessage Object) :=
  serializeInfo setObjectInfo tuples

def objectInfoSerializeToString_0_8_0 (setObjectInfo : Tuple → Conversion (Object × Is_tuple_info) Unit)
    (tuples : List Tuple) : Option (InfoMessage Object) :=
  serializeInfo setObjectInfo tuples

def freespaceInfoSerializeToString_0_6_0 (setFreespaceInfo : Tuple → Conversion (Object × Is_tuple_info) Unit)
    (tuples : List Tuple) : Option (InfoMessage Object) :=
  serializeInfo setFreespaceInfo tuples

def freespaceInfoSerializeToString_0_8_0 (setFreespaceInfo : Tuple → Conversion (Object × Is_tuple_info) Unit)
    (tuples : List Tuple) : Option (InfoMessage Object) :=
  serializeInfo setFreespaceInfo tuples

def freespaceInfoSerializeToString_0_8_1 (setFreespaceInfo : Tuple → Conversion (Object × Is_tuple_info) Unit)
    (tuples : List Tuple) : Option (InfoMessage Object) :=
  serializeInfo setFreespaceInfo tuples

/-- In this version both entries are removed, after an exception and where the tuple is refused. -/
def addObjectInfo_0_8_1 (setObjectInfo : Tuple → Conversion (Object × Is_tuple_info) Bool) (msg : InfoMessage Object)
    (tuple : Tuple) : InfoMessage Object :=
  let (result, object, info) := setObjectInfo tuple (default, {})
  let msg := { object_info := msg.object_info ++ [object], is_tuple_info := msg.is_tuple_info ++ [info] }
  match result with
  | .ok true => msg
  | .ok false => { object_info := msg.object_info.dropLast, is_tuple_info := msg.is_tuple_info.dropLast }
  | .error _ => { object_info := msg.object_info.dropLast, is_tuple_info := msg.is_tuple_info.dropLast }

def objectInfoSerializeToString_0_8_1 (setObjectInfo : Tuple → Conversion (Object × Is_tuple_info) Bool)
    (tuples : List Tuple) : Option (InfoMessage Object) :=
  let msg := tuples.foldl (addObjectInfo_0_8_1 setObjectInfo) {}
  if 0 < msg.object_info.length then some msg else none

/-- The two entries of a tuple that is converted. -/
def converted (set : Tuple → Conversion (Object × Is_tuple_info) Unit) (tuple : Tuple) :
    Option (Object × Is_tuple_info) :=
  match set tuple (default, {}) with
  | (.ok (), entry) => some entry
  | (.error _, _) => none

def converted_0_8_1 (set : Tuple → Conversion (Object × Is_tuple_info) Bool) (tuple : Tuple) :
    Option (Object × Is_tuple_info) :=
  match set tuple (default, {}) with
  | (.ok true, entry) => some entry
  | (.ok false, _) => none
  | (.error _, _) => none

/-- Both lists of a message hold the entries of the tuples that are converted, in their order. -/
def Aligned (converted : Tuple → Option (Object × Is_tuple_info)) (tuples : List Tuple)
    (built : Option (InfoMessage Object)) : Prop :=
  (built.getD {}).object_info = (tuples.filterMap converted).map Prod.fst ∧
    (built.getD {}).is_tuple_info = (tuples.filterMap converted).map Prod.snd

/-- All of the tuples are converted, or none. -/
def AllOrNone (converted : Tuple → Option (Object × Is_tuple_info)) (tuples : List Tuple) : Prop :=
  (∀ tuple ∈ tuples, (converted tuple).isSome = true) ∨ ∀ tuple ∈ tuples, converted tuple = none

/-- One round: the object is there if the tuple is converted, the origin in any case. -/
theorem addInfo_eq (set : Tuple → Conversion (Object × Is_tuple_info) Unit) (msg : InfoMessage Object) (tuple : Tuple) :
    addInfo set msg tuple = { object_info := msg.object_info ++ ((converted set tuple).map Prod.fst).toList
                              is_tuple_info := msg.is_tuple_info ++ [(set tuple (default, {})).2.2] } := by
  unfold addInfo converted
  rcases set tuple (default, {}) with ⟨result, object, info⟩
  cases result with
  | ok r => rfl
  | error e => simp

/-- The message has one object for each tuple, in their order. -/
private theorem foldl_addInfo (set : Tuple → Conversion (Object × Is_tuple_info) Unit) (tuples : List Tuple)
    (msg : InfoMessage Object) :
    tuples.foldl (addInfo set) msg =
      { object_info := msg.object_info ++ (tuples.filterMap (converted set)).map Prod.fst
        is_tuple_info := msg.is_tuple_info ++ tuples.map fun tuple => (set tuple (default, {})).2.2 } := by
  induction tuples generalizing msg with
  | nil => simp
  | cons tuple tuples ih =>
    rw [List.foldl_cons, ih, addInfo_eq]
    cases hconverted : converted set tuple with
    | none => simp [hconverted]
    | some entry => simp [hconverted]

/-- One tuple adds its object to the message, unless the conversion says that it is none. -/
private theorem addObjectInfo_0_8_1_eq (set : Tuple → Conversion (Object × Is_tuple_info) Bool)
    (msg : InfoMessage Object)
    (tuple : Tuple) : addObjectInfo_0_8_1 set msg tuple =
      { object_info := msg.object_info ++ ((converted_0_8_1 set tuple).map Prod.fst).toList
        is_tuple_info := msg.is_tuple_info ++ ((converted_0_8_1 set tuple).map Prod.snd).toList } := by
  unfold addObjectInfo_0_8_1 converted_0_8_1
  rcases set tuple (default, {}) with ⟨result, object, info⟩
  rcases result with e | accepted
  · simp
  · cases accepted <;> simp

/-- The message has the objects of those tuples that the conversion does not leave out. -/
private theorem foldl_addObjectInfo_0_8_1 (set : Tuple → Conversion (Object × Is_tuple_info) Bool) (tuples : List Tuple)
    (msg : InfoMessage Object) :
    tuples.foldl (addObjectInfo_0_8_1 set) msg =
      { object_info := msg.object_info ++ (tuples.filterMap (converted_0_8_1 set)).map Prod.fst
        is_tuple_info := msg.is_tuple_info ++ (tuples.filterMap (converted_0_8_1 set)).map Prod.snd } := by
  induction tuples generalizing msg with
  | nil => simp
  | cons tuple tuples ih =>
    rw [List.foldl_cons, ih, addObjectInfo_0_8_1_eq]
    cases hconverted : converted_0_8_1 set tuple with
    | none => simp [hconverted]
    | some entry => simp [hconverted]

/-- Where both entries are removed, the lists are of the same tuples. -/
theorem aligned_0_8_1 (set : Tuple → Conversion (Object × Is_tuple_info) Bool) (tuples : List Tuple) :
    Aligned (converted_0_8_1 set) tuples (objectInfoSerializeToString_0_8_1 set tuples) := by
  unfold Aligned objectInfoSerializeToString_0_8_1
  rw [foldl_addObjectInfo_0_8_1]
  cases hfilter : tuples.filterMap (converted_0_8_1 set) with
  | nil => exact ⟨rfl, rfl⟩
  | cons entry entries => exact ⟨rfl, rfl⟩

/-- Where only the object is removed, the lists are of the same tuples just if none or all of
them are converted. -/
theorem serializeInfo_aligned_iff (set : Tuple → Conversion (Object × Is_tuple_info) Unit) (tuples : List Tuple) :
    Aligned (converted set) tuples (serializeInfo set tuples) ↔ AllOrNone (converted set) tuples := by
  unfold Aligned serializeInfo
  rw [foldl_addInfo]
  by_cases hnone : tuples.filterMap (converted set) = []
  · rw [hnone]
    refine iff_of_true ⟨rfl, rfl⟩ (.inr fun tuple hmem => ?_)
    exact List.filterMap_eq_nil_iff.mp hnone tuple hmem
  · have hpos : 0 < ((tuples.filterMap (converted set)).map Prod.fst).length := by
      rw [List.length_map]
      exact List.length_pos_iff.mpr hnone
    simp only [List.nil_append, if_pos hpos, Option.getD_some, true_and]
    constructor
    · intro heq
      have hlength := congrArg List.length heq
      rw [List.length_map, List.length_map] at hlength
      exact .inl (List.filterMap_length_eq_length.mp hlength.symm)
    · rintro (hall | hno)
      · clear hnone hpos
        induction tuples with
        | nil => rfl
        | cons tuple tuples ih =>
          rw [List.forall_mem_cons] at hall
          obtain ⟨entry, hentry⟩ := Option.isSome_iff_exists.mp hall.1
          have hinfo : (set tuple (default, {})).2.2 = entry.2 := by
            unfold converted at hentry
            split at hentry
            · next heq => rw [heq, Option.some.inj hentry]
            · cases hentry
          rw [List.map_cons, List.filterMap_cons_some hentry, List.map_cons, hinfo, ih hall.2]
      · exact absurd (List.filterMap_eq_nil_iff.mpr hno) hnone

/-- The lists of a message are of the same tuples, in the order of these, if none or all of them
are converted; in version 0.8.1 of the objects always. -/
theorem aligned_iff (tuples : List Tuple) :
    (∀ set : Tuple → Conversion (Object × Is_tuple_info) Unit,
      (Aligned (converted set) tuples (objectInfoSerializeToString_0_6_0 set tuples) ↔
        AllOrNone (converted set) tuples) ∧
      (Aligned (converted set) tuples (objectInfoSerializeToString_0_8_0 set tuples) ↔
        AllOrNone (converted set) tuples) ∧
      (Aligned (converted set) tuples (freespaceInfoSerializeToString_0_6_0 set tuples) ↔
        AllOrNone (converted set) tuples) ∧
      (Aligned (converted set) tuples (freespaceInfoSerializeToString_0_8_0 set tuples) ↔
        AllOrNone (converted set) tuples) ∧
      (Aligned (converted set) tuples (freespaceInfoSerializeToString_0_8_1 set tuples) ↔
        AllOrNone (converted set) tuples)) ∧
    ∀ set : Tuple → Conversion (Object × Is_tuple_info) Bool,
      Aligned (converted_0_8_1 set) tuples (objectInfoSerializeToString_0_8_1 set tuples) := by
  refine ⟨fun set => ?_, fun set => aligned_0_8_1 set tuples⟩
  have heach := serializeInfo_aligned_iff set tuples
  exact ⟨heach, heach, heach, heach, heach⟩

end Serializers

section Freespace

/-- The text of a hexadecimal number, read from its last digit to the first one that is none. -/
def hexadecimal : Str → Nat
  | [] => 0
  | c :: s =>
    match "0123456789ABCDEF".toList.idxOf? c.toUpper with
    | some digit => digit + 16 * hexadecimal s
    | none => 0

/-- Blanks, and those of three bytes, end the text. One of more than 16 digits is 0. -/
def getUnsignedLongFromString (arg_input : Str) : Nat :=
  let input := arg_input.takeWhile fun c => !([' ', '\u00e3', '\u0080'].contains c)
  if 16 < input.length then 0 else hexadecimal input.reverse

def any_cast_int : Any → Except ConversionFailure Int
  | .scalar .int v => .ok v.toInt
  | _ => .error .bad_any_cast

def any_cast_long : Any → Except ConversionFailure Int
  | .scalar .long v => .ok v.toInt
  | _ => .error .bad_any_cast

/-- How a column is read into a field: as an identifier, which may be one that is not set, as a
`long` or an `int`, or as a list of identifiers. -/
inductive FieldReading where
  | id
  | optionalId
  | long
  | int
  | ids

def freespaceInfoReading_0_6_0 (pos : Nat) : FieldReading :=
  if pos = 0 then .id
  else if pos = 1 then .long
  else if [18, 40, 50, 51].contains pos then .optionalId
  else if pos = 52 then .ids
  else .int

/-- The values of the fields that are not set. -/
def freespaceInfoUnknownVals_0_6_0 : List Int :=
  [-1, -1, 0, 65535, 0, 900000001, 1800000001, 800001, 0, -132768, -132768, -132768, 15, 17, 101, 0, 0, 10001, 0,
    -132768, -132768, -132768, 4095, 4095, 36001, 20001, 0, 900000001, 1800000001, 800001, 0, -132768, -132768,
    -132768, 15, 17, 101, 0, 0, 10001, 0, -132768, -132768, -132768, 4095, 4095, 36001, 20001, 65535, 65535, 0, 0, -1]

/-- The fields of a free space, with the place of the column that each is read from. -/
abbrev Freespace_info := List (Nat × Int)

def setField (pos : Nat) (val : Any) : FieldReading → Conversion Freespace_info Unit
  | .id => modify fun fre => fre ++ [(pos, (getUnsignedLongFromString (getAnyString val) : Int))]
  | .optionalId =>
    if getAnyString val ≠ "0000000000000000".toList then
      modify fun fre => fre ++ [(pos, (getUnsignedLongFromString (getAnyString val) : Int))]
    else pure ()
  | .long => do
    let lVal ← liftM (any_cast_long val)
    modify fun fre => fre ++ [(pos, lVal)]
  | .int => do
    let iVal ← liftM (any_cast_int val)
    if iVal ≠ freespaceInfoUnknownVals_0_6_0.getD pos 0 then modify fun fre => fre ++ [(pos, iVal)]
  | .ids => do
    for v in StringUtil.getVectorString (getAnyString val) do
      if v ≠ [] then modify fun fre => fre ++ [(pos, (getUnsignedLongFromString v : Int))]

/-- The fields of version 0.6.0, of a tuple that has all their columns. -/
def setFreespaceFields_0_6_0 (tuple : Tuple) : Conversion Freespace_info Unit := do
  for pos in List.range freespaceInfoUnknownVals_0_6_0.length do
    setField pos ((tuple.columns[pos]?.map Column.value).getD .void) (freespaceInfoReading_0_6_0 pos)

def setFreespaceInfo_0_6_0 : Tuple → Conversion (Freespace_info × Is_tuple_info) Unit :=
  setInfo freespaceInfoUnknownVals_0_6_0.length setFreespaceFields_0_6_0

/-- The tuple of a free space with a time, a creator, an address, a hash and no group. -/
def freespaceTuple (time : Any) (creator : Str) : Tuple where
  columns :=
    ((List.range freespaceInfoUnknownVals_0_6_0.length).map fun pos =>
      { value :=
          match freespaceInfoReading_0_6_0 pos with
          | .long => time
          | .int => .scalar .int 1
          | .id | .optionalId | .ids => .scalar .string "1A".toList }) ++
      [{ value := .scalar .string creator }, { value := .scalar .string "0.0.0.0".toList },
        { value := .scalar .string "7".toList }, { value := .scalar .string [] }]

/-- The second of three free spaces has a time of another type: the third gets its creator. -/
theorem otherType_not_aligned :
    ¬ Aligned (converted setFreespaceInfo_0_6_0)
      [freespaceTuple (.scalar .long 1) "a".toList, freespaceTuple (.scalar .int 2) "b".toList,
        freespaceTuple (.scalar .long 3) "c".toList]
      (freespaceInfoSerializeToString_0_6_0 setFreespaceInfo_0_6_0
        [freespaceTuple (.scalar .long 1) "a".toList, freespaceTuple (.scalar .int 2) "b".toList,
          freespaceTuple (.scalar .long 3) "c".toList]) := by
  rintro ⟨-, hinfos⟩
  have hlength := congrArg List.length hinfos
  revert hlength
  decide +kernel

end Freespace

end IS.ProtobufParser

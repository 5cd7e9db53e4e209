import Mathlib.Logic.Function.Basic
import Dm20.TupleLib.Number

namespace IS

/-- How an operation can end without a result: by one of the exceptions of the
standard library, or in behaviour that is not defined, by an overflow of an `int`
or a read beyond an array. -/
inductive Failure where
  | out_of_range
  | invalid_argument
  | length_error
  | bad_alloc
  | undefined
deriving DecidableEq, Repr

def ConversionError.toFailure : ConversionError → Failure
  | invalid_argument => .invalid_argument
  | out_of_range => .out_of_range

/-- The value of an `int` expression: an integer from `-2 ^ 31` to `2 ^ 31 - 1`. -/
def int (n : Int) : Except Failure Int :=
  if n.toNat < 2 ^ 31 ∧ (-n).toNat ≤ 2 ^ 31 then .ok n else .error .undefined

/-- A number in the range of `int` is converted to itself. -/
theorem int_eq_ok {n : Int} (h : -2 ^ 31 ≤ n ∧ n < 2 ^ 31) : int n = .ok n :=
  if_pos ⟨by omega, by omega⟩

/-- Out of the range of `int` the conversion is undefined. -/
theorem int_eq_error {n : Int} (h : ¬ (-2 ^ 31 ≤ n ∧ n < 2 ^ 31)) : int n = .error .undefined :=
  if_neg fun hrange => h ⟨by omega, by omega⟩

/-- The payload of a packet in bytes. -/
def MSGSIZE : Nat := 64000

/-- The bytes of a string object. -/
def sizeof_string : Nat := 32

/-- A map from keys to values. -/
abbrev UnorderedMap (α β : Type) := α → Option β

/-- `std::vector::at` for an index that may be negative. -/
def atPos {α : Type} (v : List α) (i : Int) : Except Failure Nat :=
  if 0 ≤ i ∧ i < v.length then .ok i.toNat else .error .out_of_range

namespace UnorderedMap

variable {α β : Type} [DecidableEq α]

def UnorderedMapUpdate (m : UnorderedMap α β) (key : α) (value : β) : Except Failure (UnorderedMap α β) :=
  if (m key).isSome then .ok (Function.update m key (some value)) else .error .out_of_range

def UnorderedMapInsert (m : UnorderedMap α β) (key : α) (value : β) : UnorderedMap α β :=
  if (m key).isSome then m else Function.update m key (some value)

def UnorderedMapErase (m : UnorderedMap α β) (key : α) : UnorderedMap α β :=
  Function.update m key none

def UnorderedMapKeyExist (m : UnorderedMap α β) (key : α) : Bool :=
  (m key).isSome

/-- Erases what is older than a time span, at the time `now_time`. -/
def UnorderedMapEraseOldTime (m : UnorderedMap α Int) (aging_time now_time : Int) : UnorderedMap α Int :=
  fun key => (m key).filter fun time => !decide (time < now_time - aging_time)

def UnorderedMapKeyExistVector (m : UnorderedMap α β) (key : α) : Bool :=
  (m key).isSome

/-- Makes the vector of a message from its first packet: a text for the number of
packets that are missing, and a place for the payload of each packet. `memory`
tells which requests for memory are granted. -/
def UnorderedMapInsertVectorPlusSize (memory : Nat → Bool) (m : UnorderedMap Str (List Str)) (key : Str)
    (vector_max vector_num : Int) (vector_value : Str) : Except Failure (UnorderedMap Str (List Str)) := do
  let size ← int (vector_max + 1)
  if size < 0 then throw .length_error
  if !memory (sizeof_string * size.toNat) then throw .bad_alloc
  let data : List Str := List.replicate size.toNat []
  let total_num ← int (vector_max - 1)
  let first ← atPos data 0
  let data := data.set first (to_string_int total_num)
  let place ← int (vector_num + 1)
  let place ← atPos data place
  return Function.update m key (some (data.set place vector_value))

/-- Puts the payload of a further packet at its place, and counts one missing
packet less. A key that is not there is made, with an empty vector; what was done
before an exception stays. -/
def UnorderedMapUpdateVectorValueThenDecrease (m : UnorderedMap Str (List Str)) (key : Str) (vector_num : Int)
    (vector_value : Str) : Except Failure Unit × UnorderedMap Str (List Str) :=
  let data := (m key).getD []
  match data with
  | [] => (.error .out_of_range, Function.update m key (some data))
  | total :: values =>
    match stoi total with
    | .error e => (.error e.toFailure, m)
    | .ok total_num =>
      match int (total_num.toInt - 1) with
      | .error e => (.error e, m)
      | .ok total_num =>
        let data := to_string_int total_num :: values
        match int (vector_num + 1) >>= atPos data with
        | .error e => (.error e, Function.update m key (some data))
        | .ok place => (.ok (), Function.update m key (some (data.set place vector_value)))

/-- The payloads one after the other where no packet is missing, and the vector is
taken out; the empty text otherwise. -/
def UnorderedMapVectorCombineAndDeletePlusSize (memory : Nat → Bool) (m : UnorderedMap Str (List Str)) (key : Str)
    (total : Int) : Except Failure Str × UnorderedMap Str (List Str) :=
  match m key with
  | none => (.ok [], m)
  | some [] => (.error .out_of_range, m)
  | some (missing :: values) =>
    if missing = "0".toList then
      match int (MSGSIZE * total) with
      | .error e => (.error e, m)
      | .ok bytes =>
        if bytes < 0 then (.error .length_error, m)
        else if !memory bytes.toNat then (.error .bad_alloc, m)
        else (.ok ((missing ++ values.flatten).drop 1), Function.update m key none)
    else (.ok [], m)

end UnorderedMap

end IS

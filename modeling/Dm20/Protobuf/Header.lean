import Dm20.Lib.Bytes
import Dm20.CsLib.UnorderedMap

open Bytes

namespace IS

/-- `std::setw` with zeros: a text is padded in front up to a width. -/
def setw (width : Nat) (s : Str) : Str :=
  List.replicate (width - s.length) '0' ++ s

/-- `htonl`, as the four bytes that are written. -/
def htonl (n : UInt32) : Str :=
  bigEndian 4 n.toNat

/-- `ntohl` of the four bytes that were read. -/
def ntohl (s : Str) : UInt32 :=
  UInt32.ofNat (ofBigEndian s)

/-- `std::string::substr`; a negative length is a very large one. -/
def substr (s : Str) (pos : Nat) (n : Int) : Except Failure Str :=
  if pos ≤ s.length then .ok (if n < 0 then s.drop pos else (s.drop pos).take n.toNat) else .error .out_of_range

/-- Bytes read from a place in the memory of a text. A zero byte stands behind its
end; a read beyond that one is not defined. -/
def memcpy (s : Str) (pos n : Nat) : Except Failure Str :=
  if pos + n ≤ s.length + 1 then .ok (((s ++ [Char.ofNat 0]).drop pos).take n) else .error .undefined

structure ProtobufHeader where
  flag : Char := Char.ofNat 0
  table_name_length : Int32 := 0
  table_name : Str := []
  payload_size : Int32 := 0
  mngId : UInt32 := 0
  fragment_index : UInt8 := 0
  total_fragments : UInt8 := 1
  key_length : Int32 := 0
  key : Str := []
deriving DecidableEq

structure ProtobufHeaderInfo where
  header : ProtobufHeader := {}
  headerSize : Int32 := 0
deriving DecidableEq

namespace ProtobufParser

/-- The header of a piece of a message. The length of the table name has two digits,
or more where they do not suffice. -/
def createHeader (mngId : UInt32) (tableName serializedStr : Str) (fragmentIndex totalFragments : Int16)
    (key : Str) : Str :=
  ['3'] ++ setw 2 (to_string_nat tableName.length) ++ tableName ++ htonl (UInt32.ofNat serializedStr.length) ++ htonl mngId ++
    [toChar fragmentIndex.toUInt16.toNat] ++ [toChar totalFragments.toUInt16.toNat] ++ htonl (UInt32.ofNat key.length) ++ key

/-- Reads the header of a text. A text without the flag has none; the size of its
header is 0. -/
def getProtobufHeaderInfo (receiveData : Str) : Except Failure ProtobufHeaderInfo :=
  match receiveData with
  | [] => .error .out_of_range
  | flag :: _ =>
    if flag = '3' then do
      let pos := 1
      let table_name_length ← (stoi (← substr receiveData pos 2)).mapError ConversionError.toFailure
      let pos := pos + 2
      let table_name ← substr receiveData pos table_name_length.toInt
      let pos := pos + table_name.length
      let payload_size ← memcpy receiveData pos 4
      let pos := pos + 4
      let mngId ← memcpy receiveData pos 4
      let pos := pos + 4
      let fragment_idx ← memcpy receiveData pos 1
      let pos := pos + 1
      let total_fragments ← memcpy receiveData pos 1
      let pos := pos + 1
      let key_length ← memcpy receiveData pos 4
      let pos := pos + 4
      let key ← substr receiveData pos (ntohl key_length).toInt32.toInt
      let pos := pos + key.length
      return {
        header := {
          flag
          table_name_length
          table_name
          payload_size := (ntohl payload_size).toInt32
          mngId := ntohl mngId
          fragment_index := UInt8.ofNat (ofBigEndian fragment_idx)
          total_fragments := UInt8.ofNat (ofBigEndian total_fragments)
          key_length := (ntohl key_length).toInt32
          key }
        headerSize := Int32.ofNat pos }
    else .ok {}

end ProtobufParser

end IS

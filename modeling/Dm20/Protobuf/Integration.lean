import Dm20.Lib.Slots
import Dm20.Protobuf.Codec

open Slots

namespace IS

namespace StringUtil

/-- The loop that cuts a text into pieces of a size; `none` is a loop that goes on
beyond the fuel. The position is an `unsigned int`. -/
def splitBySizeLoop (target : Str) (size : UInt32) : Nat → UInt32 → List Str → Option (List Str)
  | 0, _, _ => none
  | fuel + 1, sumLen, result =>
    if sumLen.toNat ≠ target.length then
      let rest := target.length - sumLen.toNat
      let splitStr := (target.drop sumLen.toNat).take (if size.toNat < rest then size.toNat else rest)
      splitBySizeLoop target size fuel (sumLen + UInt32.ofNat splitStr.length) (result ++ [splitStr])
    else some result

/-- The pieces of a text; `none` where the loop has no end. -/
def splitBySize (target : Str) (size : UInt32) : Option (List Str) :=
  splitBySizeLoop target size (target.length + 1) 0 []

end StringUtil

/-- The length of a header without its key that is set aside. -/
def PROTOBUF_HEADER_FIXED_SIZE : Nat := 114

namespace ProtobufParser

open StringUtil

/-- The pieces of a serialised text, each with its header; `none` where the text is
not cut in finite time. -/
def createFragments (mngId : UInt32) (tableName retStr key : Str) (sepSize : Int32) : Option (List Str) :=
  (splitBySize retStr (UInt32.ofInt (sepSize.toInt - PROTOBUF_HEADER_FIXED_SIZE - key.length))).map fun retStrList =>
    retStrList.mapIdx fun i piece =>
      createHeader mngId tableName piece (Int16.ofNat i) (Int16.ofNat retStrList.length) key ++ piece

/-- The fragments of a query result, from its serialised tuples. -/
def createQueryResult (mngId : UInt32) (tableName retStr : Str) (isDynamicColumn : Bool) (sepSize : Int32) :
    Option (List Str) :=
  createFragments mngId (if isDynamicColumn then [] else tableName) retStr [] sepSize

/-- The fragments of stream data, from its serialised tuples. -/
def createStreamList (tableName retStr key : Str) (sepSize : Int32) : Option (List Str) :=
  createFragments 0 tableName retStr key sepSize

end ProtobufParser

/-- The fragments that have come of messages that are not complete, by session key. -/
abbrev RecvDataMap := UnorderedMap Str (List Str)

/-- The pieces of a message put into the map, or joined and taken out where none is
missing. -/
def store (key : Str) (data : List Str) (recvDataMap : RecvDataMap) : Str × RecvDataMap :=
  if data.all fun str => str.length ≠ 0 then (data.flatten, Function.update recvDataMap key none)
  else ([], Function.update recvDataMap key (some data))

/-- A text taken in after its header was read. The answer is the message where it is
complete and the empty text otherwise; an exception leaves the map as it was. -/
def integrate (headerInfo : ProtobufHeaderInfo) (buf : Str) (recvDataMap : RecvDataMap) :
    Except Failure (Str × RecvDataMap) := do
  let fragment := headerInfo.header.fragment_index.toNat
  let key := headerInfo.header.key
  let data ←
    match recvDataMap key with
    | some data => do
      let piece ← if 0 ≤ headerInfo.headerSize.toInt then substr buf headerInfo.headerSize.toInt.toNat (-1)
        else throw .out_of_range
      let i ← atPos data fragment
      pure (data.set i piece)
    | none => do
      let data := List.replicate headerInfo.header.total_fragments.toNat []
      let i ← atPos data fragment
      pure (data.set i buf)
  return store key data recvDataMap

namespace Connection

def dataIntegration (buf : Str) (recvDataMap : RecvDataMap) : Except Failure (Str × RecvDataMap) := do
  integrate (← ProtobufParser.getProtobufHeaderInfo buf) buf recvDataMap

end Connection

namespace NetworkSource

/-- A text without a header is passed over here. -/
def dataIntegration (buf : Str) (recvDataMap : RecvDataMap) : Except Failure (Str × RecvDataMap) := do
  let headerInfo ← ProtobufParser.getProtobufHeaderInfo buf
  if headerInfo.headerSize = 0 then return ([], recvDataMap)
  integrate headerInfo buf recvDataMap

end NetworkSource

/-- The two receivers of fragments. -/
inductive Side where
  | connection
  | networkSource

def dataIntegration : Side → Str → RecvDataMap → Except Failure (Str × RecvDataMap)
  | .connection => Connection.dataIntegration
  | .networkSource => NetworkSource.dataIntegration

/-- Texts that come one after the other, with the answer to each. -/
def receive (side : Side) : RecvDataMap → List Str → Except Failure (List Str × RecvDataMap)
  | recvDataMap, [] => .ok ([], recvDataMap)
  | recvDataMap, buf :: rest => do
    let (result, recvDataMap) ← dataIntegration side buf recvDataMap
    let (results, recvDataMap) ← receive side recvDataMap rest
    return (result :: results, recvDataMap)

end IS

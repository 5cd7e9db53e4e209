import Dm20.CsLib.SocketUtil
import Dm20.Protobuf.Header

open Bytes

namespace IS

/-- The library zlib. `deflate` compresses a text in one call, where the room for its
output suffices; `inflate` gives the text up to the end of a compressed one. -/
structure Zlib where
  compressBound : Nat → Nat
  deflate : Str → Nat → Option Str
  inflate : Str → Option Str

/-- Decompression inverts compression, and no more than the room is written. -/
structure Zlib.Inverts (zlib : Zlib) : Prop where
  inflate_deflate : ∀ inStr room outBuf, zlib.deflate inStr room = some outBuf → zlib.inflate outBuf = some inStr
  length_le : ∀ inStr room outBuf, zlib.deflate inStr room = some outBuf → outBuf.length ≤ room

/-- The library Zstandard, with its errors as `none`. `memory` tells which requests for
memory are granted for what it decompresses. -/
structure Zstd where
  compress : Str → Option Str
  getFrameContentSize : Str → Option Nat
  decompress : Str → Nat → Option Str
  memory : Nat → Bool

/-- Decompression inverts compression, and takes the exact size of what was
compressed. There is memory for what was compressed. -/
structure Zstd.Inverts (zstd : Zstd) : Prop where
  size : ∀ inStr outBuf, zstd.compress inStr = some outBuf → zstd.getFrameContentSize outBuf = some inStr.length
  decompress_compress : ∀ inStr outBuf, zstd.compress inStr = some outBuf →
    zstd.decompress outBuf inStr.length = some inStr
  decompress_take : ∀ inStr outBuf n room, zstd.compress inStr = some outBuf → n < outBuf.length →
    zstd.decompress (outBuf.take n) room = none
  memory : ∀ inStr outBuf, zstd.compress inStr = some outBuf → zstd.memory inStr.length = true

namespace StringUtil

/-- The text up to its first zero byte, as a `const char *` gives it. -/
def c_str (s : Str) : Str :=
  s.takeWhile fun c => c ≠ Char.ofNat 0

/-- The sizes given to zlib are of 32 bits. The answer is empty where it fails. -/
def compress (zlib : Zlib) (inStr : Str) : Str :=
  (zlib.deflate (inStr.take (inStr.length % 2 ^ 32)) (zlib.compressBound inStr.length % 2 ^ 32)).getD []

/-- An error code is taken for a size after the buffer has been cleared. -/
def compressUsingZstd (zstd : Zstd) (inStr : Str) : Except Failure Str :=
  match zstd.compress inStr with
  | some outBuf => .ok outBuf
  | none => .error .length_error

/-- The bytes of a buffer from a place on, in a number that is given. -/
def bytesFrom (s : Str) (pos : Nat) (n : Int) : Except Failure Str :=
  if 0 ≤ n then memcpy s pos n.toNat else .error .undefined

def decompress (zlib : Zlib) (inBuf : Str) (pos : Nat) : Except Failure (Option Str) := do
  let inBuf ← bytesFrom inBuf pos (inBuf.length - pos)
  return zlib.inflate (inBuf.take (inBuf.length % 2 ^ 32))

/-- Memory is asked for as the compressed text says. -/
def decompressUsingZstd (zstd : Zstd) (inBuf : Str) (pos : Nat) (inSize : Int) : Except Failure (Option Str) := do
  let inBuf ← bytesFrom inBuf pos inSize
  match zstd.getFrameContentSize inBuf with
  | none => return none
  | some rSize => if zstd.memory rSize then return zstd.decompress inBuf rSize else throw .bad_alloc

/-- The compressed text; zlib is given it as a `const char *`. -/
def compBuf (zlib : Zlib) (zstd : Zstd) (inStr : Str) (compressFlg : Char) : Except Failure Str :=
  if compressFlg = '1' then .ok (compress zlib (c_str inStr))
  else if compressFlg = '2' then compressUsingZstd zstd inStr
  else .ok []

end StringUtil

structure IsHeader where
  compressFlg : Char := Char.ofNat 0
  length : Int32 := 0
  key : Int64 := 0
  seq : Int32 := 0
  schema_name : Str := []
deriving DecidableEq

/-- The bytes of a header that are sent. -/
def IsHeader.bytes (header : IsHeader) : Str :=
  [header.compressFlg] ++ littleEndian 4 header.length.toUInt32.toNat ++ littleEndian 8 header.key.toUInt64.toNat ++
    littleEndian 4 header.seq.toUInt32.toNat

/-- A header that was read; the payload is behind it. -/
structure IsHeaderInfo where
  header : IsHeader := {}
  headerSize : Int := 0
deriving DecidableEq

namespace StringUtil

/-- The length of the compressed text is an `int`; with a negative one no buffer comes
out. -/
def setCompressedBufWithHeader (zlib : Zlib) (zstd : Zstd) (inStr : Str) (compressFlg : Char) (key : Int64) :
    Except Failure Str := do
  let compBuf ← compBuf zlib zstd inStr compressFlg
  if compBuf = [] then return []
  let length := Int32.ofNat compBuf.length
  let headerSize := 17
  let size ← int (headerSize + length.toInt)
  if size < 0 then throw .length_error
  if length.toInt < 0 then throw .undefined
  return ({ compressFlg, length, key, seq := 0 } : IsHeader).bytes ++ compBuf.take length.toInt.toNat

/-- Reads the header in front of a buffer. A schema name is looked for in the first
hundred bytes. -/
def getIsHeader (buf : Str) (info : IsHeaderInfo) : Except Failure IsHeaderInfo := do
  let flg ← memcpy buf 0 1
  let compressFlg := flg.headD (Char.ofNat 0)
  if compressFlg ≠ '1' ∧ compressFlg ≠ '2' then
    if compressFlg = '0' then
      return { header := { info.header with compressFlg }, headerSize := 1 }
    else if compressFlg = '3' then
      let bufStr ← memcpy buf 0 100
      let schema_name_len ← (stoi (← substr bufStr 1 2)).mapError ConversionError.toFailure
      let schema_name ← substr bufStr 3 schema_name_len.toInt
      return { header := { info.header with compressFlg, schema_name }, headerSize := schema_name_len.toInt + 3 }
    else
      return { header := { info.header with compressFlg }, headerSize := 0 }
  else
    let length ← memcpy buf 1 4
    let key ← memcpy buf 5 8
    let seq ← memcpy buf 13 4
    return {
      header := { info.header with
        compressFlg
        length := (UInt32.ofNat (ofLittleEndian length)).toInt32
        key := (UInt64.ofNat (ofLittleEndian key)).toInt64
        seq := (UInt32.ofNat (ofLittleEndian seq)).toInt32 }
      headerSize := 17 }

end StringUtil

namespace TransferOperator

open StringUtil

/-- The text that is sent for the tuples of a table: the flag, the length of the name
and the name in front of the serialised tuples. -/
def sendText (tablename retXML : Str) : Str :=
  let length_s := to_string_nat tablename.length
  if length_s.length = 1 then ['3', '0'] ++ length_s ++ tablename ++ retXML
  else ['3'] ++ length_s ++ tablename ++ retXML

/-- The buffer that `process` sends for serialised tuples that are not empty. -/
def sendBuf (zlib : Zlib) (zstd : Zstd) (COMPRESS_FLG : Str) (key : Int64) (tablename retXML : Str) :
    Except Failure Str := do
  let retXML := sendText tablename retXML
  let compressFlg := COMPRESS_FLG.headD (Char.ofNat 0)
  let sendBuf ←
    if compressFlg = '1' ∨ compressFlg = '2' then setCompressedBufWithHeader zlib zstd retXML compressFlg key else pure []
  return if sendBuf = [] then retXML else sendBuf

end TransferOperator

/-- What is handed to the workers of the receiver. -/
structure RecvData where
  payload : Str
  schema_name : Str
  cs_ip_address : Str
deriving DecidableEq

namespace CsReceiver

open StringUtil

/-- The rest of a payload behind a header; a rest of negative length is a very long
one. -/
def behind (payload : Str) (headerSize : Int) : Except Failure Str :=
  if headerSize < 0 then .error .undefined
  else if headerSize ≤ payload.length then .ok (payload.drop headerSize.toNat)
  else .error .length_error

/-- Data of a length that is positive as an `int` are put into the queue. -/
def push (data : RecvData) (cs_rcv_q : List RecvData) : List RecvData :=
  if 0 < (Int32.ofNat data.payload.length).toInt then cs_rcv_q ++ [data] else cs_rcv_q

/-- The last part of `notify`, with the header that was read last. -/
def finish (fd_name payload : Str) (headerInfo : IsHeaderInfo) (cs_rcv_q : List RecvData) :
    Except Failure (List RecvData) :=
  if headerInfo.header.compressFlg = '3' then do
    let payload ← behind payload headerInfo.headerSize
    return push { payload, schema_name := headerInfo.header.schema_name, cs_ip_address := fd_name } cs_rcv_q
  else return push { payload, schema_name := [], cs_ip_address := fd_name } cs_rcv_q

/-- Takes in a buffer: it is decompressed where its header says so, and the header
behind that one is read. -/
def notify (zlib : Zlib) (zstd : Zstd) (buffer : send_message_vector) (cs_rcv_q : List RecvData) :
    Except Failure (List RecvData) := do
  if buffer.dm2_payload = [] then return cs_rcv_q
  let payload := buffer.dm2_payload
  let headerInfo ← getIsHeader payload {}
  if headerInfo.header.compressFlg = '1' ∨ headerInfo.header.compressFlg = '2' then
    let decompressedData ←
      if headerInfo.header.compressFlg = '1' then decompress zlib payload headerInfo.headerSize.toNat
      else decompressUsingZstd zstd payload headerInfo.headerSize.toNat headerInfo.header.length.toInt
    match decompressedData with
    | none => return cs_rcv_q
    | some payload => finish buffer.header.fd_name payload (← getIsHeader payload headerInfo) cs_rcv_q
  else if headerInfo.header.compressFlg = '0' then
    let payload ← behind payload headerInfo.headerSize
    finish buffer.header.fd_name payload (← getIsHeader payload headerInfo) cs_rcv_q
  else finish buffer.header.fd_name payload headerInfo cs_rcv_q

end CsReceiver

end IS

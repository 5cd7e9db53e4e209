import Dm20.Transfer.IsHeader

namespace IS

open StringUtil

def IPv4_UDP_MAX_BYTE : Nat := 65000

def SEND_BUF_SIZE : Int := 1280

def COMPRESSED_BUF_SIZE : Nat := 1263

def UNCOMPRESSED_BUF_SIZE : Nat := 65000

/-- What one UDP datagram carries over IPv4. -/
structure Datagram where
  bytes : Str
  length_le : bytes.length ≤ 65507

/-- The libraries that unpack a buffer into another one. `inflate` is given the buffer and the room
on both sides, and tells what it leaves behind and whether the stream ended; `ZSTD_decompress` is given
the room, the buffer and the size of the frame, and tells what it leaves and its answer. -/
structure Unpacking where
  ZSTD_compress : Str → Option Str
  ZSTD_getDecompressedSize : Str → Nat → Nat
  ZSTD_decompress : Nat → Str → Nat → Str × Nat
  ZSTD_decompress_le : ∀ dstCapacity src srcSize,
    (ZSTD_decompress dstCapacity src srcSize).1.length ≤ dstCapacity
  inflate : Str → Nat → Nat → Str × Bool
  inflate_le : ∀ inBuf avail_in avail_out, (inflate inBuf avail_in avail_out).1.length ≤ avail_out

/-- Decompression inverts compression, also where more bytes stand behind the frame. -/
structure Unpacking.Inverts (library : Unpacking) : Prop where
  size : ∀ text frame rest, library.ZSTD_compress text = some frame →
    library.ZSTD_getDecompressedSize (frame ++ rest) frame.length = text.length
  decompress : ∀ text frame rest, library.ZSTD_compress text = some frame →
    library.ZSTD_decompress text.length (frame ++ rest) frame.length = (text, text.length)

def zeros (size : Nat) : Str :=
  List.replicate size (Char.ofNat 0)

/-- `memcpy` to a place in a buffer; a write beyond it is not defined. -/
def memcpyTo (buf : Str) (pos : Nat) (s : Str) : Except Failure Str :=
  if pos + s.length ≤ buf.length then .ok (buf.take pos ++ s ++ buf.drop (pos + s.length)) else .error .undefined

/-- `recvfrom` into a cleared buffer, with what is left of a datagram that is too long. -/
def recvfrom (sizeof_bufTmp : Nat) : Option Datagram → Int × Str
  | none => (-1, zeros sizeof_bufTmp)
  | some datagram =>
    let bytes := datagram.bytes.take sizeof_bufTmp
    (bytes.length, bytes ++ zeros (sizeof_bufTmp - bytes.length))

namespace StringUtil

/-- The text is taken to end at the first zero byte of the buffer. -/
def decompressInto (library : Unpacking) (inBuf outBuf : Str) : Except Failure (Int × Str) := do
  let (written, streamEnd) := library.inflate inBuf COMPRESSED_BUF_SIZE UNCOMPRESSED_BUF_SIZE
  let outBuf ← memcpyTo outBuf 0 written
  return (if streamEnd then (c_str outBuf).length else -1, outBuf)

/-- An `int` as a `size_t`. -/
def size_t (n : Int) : Nat :=
  (n % 2 ^ 64).toNat

/-- The room is said to be what the frame needs. -/
def decompressUsingZstdInto (library : Unpacking) (inBuf outBuf : Str) (inSize : Int) :
    Except Failure (Option Int × Str) := do
  let rSize := library.ZSTD_getDecompressedSize inBuf (size_t inSize)
  if rSize = 0 then return (none, outBuf)
  let (written, dSize) := library.ZSTD_decompress rSize inBuf (size_t inSize)
  let outBuf ← memcpyTo outBuf 0 written
  return (if dSize = rSize then some ((dSize : Int).bmod (2 ^ 32)) else none, outBuf)

end StringUtil

namespace RecvUsingHeader

/-- The variables of the loop. -/
structure State where
  bufComp : Str := zeros (IPv4_UDP_MAX_BYTE * 10)
  pre_len : Int := 0
  maxCompSize : Int := SEND_BUF_SIZE
  isFirst : Bool := true
  headerInfo : IsHeaderInfo := {}

/-- How a round of the loop ends: with another one, behind the loop with some `len`, or with what
is returned and the buffer of the caller. -/
inductive Round where
  | again (s : State)
  | leave (len : Int) (s : State)
  | answer (len : Int) (outBuf : Str)

/-- A payload, or a part of one, in the buffer. -/
def accumulate (s : State) (now_len : Int) (bufTmp_p : Str) : Except Failure Round :=
  if now_len ≤ 0 ∨ s.maxCompSize < now_len then .ok (.leave now_len s)
  else if now_len = s.maxCompSize then do
    let bufComp ← memcpyTo s.bufComp 0 (bufTmp_p.take now_len.toNat)
    return .leave now_len { s with bufComp }
  else if 0 < s.pre_len then
    if s.pre_len + now_len = s.maxCompSize then do
      let bufComp ← memcpyTo s.bufComp s.pre_len.toNat (bufTmp_p.take now_len.toNat)
      return .leave s.maxCompSize { s with bufComp }
    else if s.pre_len + now_len < s.maxCompSize then do
      let bufComp ← memcpyTo s.bufComp s.pre_len.toNat (bufTmp_p.take now_len.toNat)
      return .again { s with bufComp, pre_len := s.pre_len + now_len }
    else .ok (.leave 0 s)
  else do
    let bufComp ← memcpyTo s.bufComp 0 (bufTmp_p.take now_len.toNat)
    return .again { s with bufComp, pre_len := now_len }

/-- The first datagram has a header. One that is not compressed is handed on, with its header
unless that is the flag `0`. -/
def first (outBuf : Str) (s : State) (now_len : Int) (bufTmp : Str) : Except Failure Round := do
  let headerInfo ← getIsHeader bufTmp s.headerInfo
  let flag := headerInfo.header.compressFlg
  let now_len := now_len - headerInfo.headerSize
  if flag ≠ '1' ∧ flag ≠ '2' then
    if flag = '0' then
      let outBuf ← memcpyTo outBuf 0 ((bufTmp.drop headerInfo.headerSize.toNat).take now_len.toNat)
      return .answer now_len outBuf
    else
      let now_len := now_len + headerInfo.headerSize
      let outBuf ← memcpyTo outBuf 0 (bufTmp.take now_len.toNat)
      return .answer now_len outBuf
  else
    let maxCompSize :=
      if flag = '1' then s.maxCompSize - headerInfo.headerSize else headerInfo.header.length.toInt
    accumulate { s with headerInfo, maxCompSize, isFirst := false } now_len
      (bufTmp.drop headerInfo.headerSize.toNat)

def round (sizeof_bufTmp : Nat) (outBuf : Str) (s : State) (received : Option Datagram) : Except Failure Round :=
  let (now_len, bufTmp) := recvfrom sizeof_bufTmp received
  if now_len ≤ 0 then .ok (.answer (-1) outBuf)
  else if s.isFirst then first outBuf s now_len bufTmp
  else accumulate s now_len bufTmp

/-- What is done behind the loop. -/
def finish (library : Unpacking) (outBuf : Str) (len : Int) (s : State) : Except Failure (Int × Str) :=
  if len ≠ s.maxCompSize then .ok (-1, outBuf)
  else if s.headerInfo.header.compressFlg = '1' then decompressInto library s.bufComp outBuf
  else if s.headerInfo.header.compressFlg = '2' then
    (decompressUsingZstdInto library s.bufComp outBuf s.maxCompSize).map fun (outSize, outBuf) =>
      (outSize.getD (-1), outBuf)
  else .ok (len, outBuf)

/-- The loop over what is received, until nothing more comes. -/
def loop (library : Unpacking) (sizeof_bufTmp : Nat) (outBuf : Str) :
    State → List (Option Datagram) → Except Failure (Option (Int × Str))
  | _, [] => .ok none
  | s, received :: rest => do
    match ← round sizeof_bufTmp outBuf s received with
    | .again s => loop library sizeof_bufTmp outBuf s rest
    | .leave len s => return some (← finish library outBuf len s)
    | .answer len outBuf => return some (len, outBuf)

end RecvUsingHeader

/-- The buffer of the callers, cleared before each call. -/
def callerBuf : Str :=
  zeros (IPv4_UDP_MAX_BYTE * 10)

/-- What both copies do for plain UDP, with a buffer of some size for a datagram. -/
def recvUsingHeaderWith (library : Unpacking) (sizeof_bufTmp : Nat) (datagrams : List (Option Datagram)) :
    Except Failure (Option (Int × Str)) :=
  RecvUsingHeader.loop library sizeof_bufTmp callerBuf {} datagrams

/-- The returned length and the buffer of the caller; nothing where more datagrams are waited for. -/
def Connection.recvUsingHeader (library : Unpacking) (datagrams : List (Option Datagram)) :
    Except Failure (Option (Int × Str)) :=
  recvUsingHeaderWith library (IPv4_UDP_MAX_BYTE * 10) datagrams

def NetworkSource.recvUsingHeader (library : Unpacking) (datagrams : List (Option Datagram)) :
    Except Failure (Option (Int × Str)) :=
  recvUsingHeaderWith library IPv4_UDP_MAX_BYTE datagrams

end IS

import Dm20.Lib.Slots
import Dm20.CsLib.UnorderedMap

namespace IS

/-- The header of a packet between stations. -/
structure send_message_header where
  src_station_id : UInt64 := 0
  dst_station_id : UInt64 := 0
  src_station_type : Int16 := 0
  dst_station_type : Int16 := 0
  payload_size : UInt16 := 0
  transmission_flag : Int16 := 0
  duplication_check_id : UInt64 := 0
  lane_id : UInt64 := 0
  retry_level : Int16 := 0
  retry_data_id : UInt64 := 0
  retry_lifetime : Int32 := 0
  msg_type : Int16 := 0
  cs_message_detail : Int16 := 0
  fd_name : Str := []
  sign_size : Int16 := 0
  flagment_duplication_check_id : UInt64 := 0
  flagment_sum : Int32 := 0
  flagment_offset : Int32 := 0
  priority_level : Int32 := 0
deriving DecidableEq

/-- A packet. The payload is an array of `MSGSIZE` bytes, given by the byte at
each place. -/
structure send_message where
  header : send_message_header
  dm2_payload : Nat → Char

/-- A message of any length. -/
structure send_message_vector where
  header : send_message_header
  dm2_payload : Str
deriving DecidableEq

def sizeof_send_message_header : Nat := 168

/-- The first bytes of a payload; a read beyond the array is not defined. -/
def send_message.bytes (buf : send_message) : Except Failure Str :=
  if buf.header.payload_size.toNat ≤ MSGSIZE then .ok ((List.range buf.header.payload_size.toNat).map buf.dm2_payload)
  else .error .undefined

namespace Socket

/-- The payload array of a packet with some bytes copied to its front. -/
def memcpy (dm2_payload : Nat → Char) (s : Str) (i : Nat) : Char :=
  s.getD i (dm2_payload i)

/-- The packet with one part of a message. -/
def fragment (src : send_message_vector) (payload_size division_size fragment_num : Int) (duplication_id : UInt64)
    (uninitialized : Nat → Char) (i : Nat) : Except Failure send_message := do
  let offset ← int (division_size * i)
  let rest ← int (payload_size - offset)
  let fragment_size := min division_size rest
  if fragment_size < 0 ∨ MSGSIZE < fragment_size then throw .undefined
  return {
    header :=
      { src.header with
        payload_size := UInt16.ofNat fragment_size.toNat
        flagment_sum := Int32.ofInt fragment_num
        flagment_offset := Int32.ofNat i
        flagment_duplication_check_id := duplication_id }
    dm2_payload := memcpy uninitialized ((src.dm2_payload.drop offset.toNat).take fragment_size.toNat) }

/-- The packets of a message. `duplication_id` is the clock reading that tells
messages apart, `uninitialized` what the payload array of a new packet holds. -/
def convertToSendMessage (src : send_message_vector) (send_size : Int) (duplication_id : UInt64)
    (uninitialized : Nat → Char) : Except Failure (List send_message) := do
  let division_size ← int (send_size - sizeof_send_message_header)
  let payload_size := (src.dm2_payload.length : Int).bmod (2 ^ 32)
  if payload_size ≤ division_size then
    if payload_size < 0 ∨ MSGSIZE < payload_size then throw .undefined
    return [{
      header :=
        { src.header with
          payload_size := UInt16.ofNat payload_size.toNat
          flagment_offset := 0
          flagment_sum := 1 }
      dm2_payload := memcpy uninitialized (src.dm2_payload.take payload_size.toNat) }]
  else
    let sum ← int (payload_size + division_size)
    let sum ← int (sum - 1)
    if division_size = 0 then throw .undefined
    let fragment_num := sum.tdiv division_size
    (List.range fragment_num.toNat).mapM
      (fragment src payload_size division_size fragment_num duplication_id uninitialized)

end Socket

/-- The two maps of a receiver. -/
structure Maps where
  receive_time : UnorderedMap Str Int := fun _ => none
  combination : UnorderedMap Str (List Str) := fun _ => none

namespace SocketUtil

/-- The key of the message that a packet is a part of. -/
def key (header : send_message_header) : Str :=
  to_string_nat header.src_station_id.toNat ++ to_string_nat header.flagment_duplication_check_id.toNat

/-- Notes the clock reading of a packet, also for a key that is not there. -/
def noteTime (receive_time : UnorderedMap Str Int) (key : Str) (now : Int) : UnorderedMap Str Int :=
  match receive_time.UnorderedMapUpdate key now with
  | .ok receive_time => receive_time
  | .error _ => receive_time.UnorderedMapInsert key now

/-- Takes a packet in. `none` is the answer false; a message that is complete is
given with the header of the packet that came last. -/
def combineFragment (memory : Nat → Bool) (now : Int) (buf : send_message) (maps : Maps) :
    Except Failure (Option send_message_vector) × Maps :=
  if buf.header.flagment_sum = 1 then
    (buf.bytes.map fun dm2_payload => some { header := buf.header, dm2_payload }, maps)
  else
    let flagment := buf.header.flagment_offset.toInt
    let flagment_max := buf.header.flagment_sum.toInt
    let key := key buf.header
    let maps := { maps with receive_time := noteTime maps.receive_time key now }
    if maps.combination.UnorderedMapKeyExistVector key then
      match buf.bytes with
      | .error e => (.error e, maps)
      | .ok value =>
        match maps.combination.UnorderedMapUpdateVectorValueThenDecrease key flagment value with
        | (.error .out_of_range, combination) => (.ok none, { maps with combination })
        | (.error e, combination) => (.error e, { maps with combination })
        | (.ok _, combination) =>
          match combination.UnorderedMapVectorCombineAndDeletePlusSize memory key flagment_max with
          | (.error e, combination) => (.error e, { maps with combination })
          | (.ok combined_payload, combination) =>
            if combined_payload ≠ [] then
              (.ok (some
                { header := { buf.header with flagment_offset := 0, flagment_sum := 1 }
                  dm2_payload := combined_payload }),
                { receive_time := maps.receive_time.UnorderedMapErase key, combination })
            else (.ok none, { maps with combination })
    else
      match buf.bytes >>=
          maps.combination.UnorderedMapInsertVectorPlusSize memory key flagment_max flagment with
      | .ok combination => (.ok none, { maps with combination })
      | .error .out_of_range => (.ok none, maps)
      | .error e => (.error e, maps)

end SocketUtil

end IS

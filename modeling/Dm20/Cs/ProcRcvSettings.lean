import Dm20.Cs.SidManagement
import Dm20.TupleLib.StringUtil

namespace IS

/-- The element of a vector at an index that is not checked. -/
def subscript {α : Type} (v : List α) (i : Int) : Except Failure α :=
  if 0 ≤ i then
    match v[i.toNat]? with
    | some a => .ok a
    | none => .error .undefined
  else .error .undefined

/-- A subscript within the vector is defined, and gives the element there. -/
theorem subscript_of_getElem? {α : Type} {v : List α} {k : Nat} {a : α} (h : v[k]? = some a) :
    subscript v k = .ok a := by
  simp [subscript, h]

/-- A subscript that is defined lies within the vector. -/
theorem getElem?_of_subscript {α : Type} {v : List α} {k : Nat} {a : α} (h : subscript v k = .ok a) :
    v[k]? = some a := by
  unfold subscript at h
  rw [if_pos (Int.natCast_nonneg k), Int.toNat_natCast] at h
  split at h
  · next b hb => exact Except.ok.inj h ▸ hb
  · cases h

namespace Util

/-- The words for socket types. -/
def socket_type_map : List (Str × Int) :=
  [("udp".toList, 0), ("udp_multicast".toList, 1), ("dtls".toList, 2), ("udp_etm".toList, 10), ("udp_pki".toList, 11)]

variable (ReadConfigFile : Str → Str)

/-- The text of an item of dm2.conf. -/
def chk_dm2conf_str_item (item : Str) : Option Str :=
  let value := ReadConfigFile item
  if StringUtil.contain value "error".toList || StringUtil.contain value "ERROR".toList || value == [] ||
      value == "\"\"".toList then none
  else if StringUtil.contain item "SOCKET_TYPE_".toList then
    match socket_type_map.lookup value with
    | some value_map => some (to_string_int value_map)
    | none => some value
  else some value

def chk_dm2conf_int_item (item : Str) : Option Int :=
  (chk_dm2conf_str_item ReadConfigFile item).bind fun str_value => (stoi str_value).toOption.map Int32.toInt

def chk_dm2conf_unsigned_long_long_item (item : Str) : Option UInt64 :=
  (chk_dm2conf_str_item ReadConfigFile item).bind fun str_value => (stoull str_value).toOption

end Util

/-- What the configuration says about one network. -/
structure NetworkConf where
  interface_name : Str
  udp_port_number : Str
  send_list : Str
  socket_type : Int
  udp_etm_aes_key : Str
  cs_packet_size : Int
  socket_priority : Int
deriving DecidableEq

/-- The settings of the sending side, with one vector for each item of a network. -/
structure ProcRcvSettings where
  my_sid : UInt64 := 0
  network_num : Int := 0
  cs_port_number : Str := []
  interface_by_is_cs : Str := []
  interface_names : List Str := []
  udp_port_numbers : List Str := []
  send_lists : List Str := []
  socket_types : List Int := []
  cs_packet_sizes : List Int := []
  socket_priorities : List Int := []
  dtls_dest_sids : List UInt64 := []
  udp_etm_aes_keys : List Str := []
  dtls_idx : Int := -1
  max_sendto_times : Int := -1
  trace_on : Int := 0
  threadFlags : List Bool := List.replicate 10 false
deriving DecidableEq

/-- What `load_dm2conf` finds: the items of dm2.conf, the directory, whether the key
files of a socket type are there, the station lists, and the order in which the keys of
a hash table are visited. -/
structure Installation where
  ReadConfigFile : Str → Str
  configDirectory : Str
  CheckClientContext : Bool
  checkClientSignature : UInt64 → Bool
  files : Files
  UnorderedMapKeyExtraction : List UInt64 → List UInt64

namespace ProcRcvSettings

open Util

/-- Appends the items of one network, its station apart. -/
def push_network (settings : ProcRcvSettings) (network : NetworkConf) : ProcRcvSettings :=
  { settings with
    interface_names := settings.interface_names ++ [network.interface_name]
    udp_port_numbers := settings.udp_port_numbers ++ [network.udp_port_number]
    send_lists := settings.send_lists ++ [network.send_list]
    socket_types := settings.socket_types ++ [network.socket_type]
    udp_etm_aes_keys := settings.udp_etm_aes_keys ++ [network.udp_etm_aes_key]
    cs_packet_sizes := settings.cs_packet_sizes ++ [network.cs_packet_size]
    socket_priorities := settings.socket_priorities ++ [network.socket_priority] }

/-- Appends the items of the DTLS network once more, for a further station of its list.
The keys and the priorities are not appended. -/
def set_dtls_conf_copy (settings : ProcRcvSettings) : Except Failure ProcRcvSettings := do
  let interface_name ← subscript settings.interface_names settings.dtls_idx
  let udp_port_number ← subscript settings.udp_port_numbers settings.dtls_idx
  let send_list ← subscript settings.send_lists settings.dtls_idx
  let socket_type ← subscript settings.socket_types settings.dtls_idx
  let cs_packet_size ← subscript settings.cs_packet_sizes settings.dtls_idx
  return { settings with
    interface_names := settings.interface_names ++ [interface_name]
    udp_port_numbers := settings.udp_port_numbers ++ [udp_port_number]
    send_lists := settings.send_lists ++ [send_list]
    socket_types := settings.socket_types ++ [socket_type]
    cs_packet_sizes := settings.cs_packet_sizes ++ [cs_packet_size] }

variable (place : Installation)

/-- The items of network number `count`. Only the first network must have a station list;
the others have that of the first where they have none. -/
def read_network (my_sid : UInt64) (first : Option Str) (count : Nat) : Option NetworkConf := do
  let item (name : String) : Str := name.toList ++ to_string_nat count
  let str_item := chk_dm2conf_str_item place.ReadConfigFile
  let int_item := chk_dm2conf_int_item place.ReadConfigFile
  let interface_name := (str_item (item "INTERFACE_NAME_")).getD []
  let udp_port_number ← str_item (item "UDP_PORT_NUMBER_")
  let send_list ←
    match str_item (item "SEND_LIST_") with
    | some name => some (place.configDirectory ++ name)
    | none => first
  let socket_type ← int_item (item "SOCKET_TYPE_")
  if socket_type = 2 ∧ place.CheckClientContext = false then none
  else if socket_type = 11 ∧ place.checkClientSignature my_sid = false then none
  else
    let udp_etm_aes_key := (str_item (item "UDP_ETM_AES_KEY_")).getD []
    if udp_etm_aes_key = [] ∧ (socket_type = 10 ∨ socket_type = 11) then none
    else
      let cs_packet_size ← int_item (item "CS_PACKET_SIZE_")
      let socket_priority := (int_item (item "SOCKET_PRIORITY_")).getD (-1)
      some { interface_name, udp_port_number, send_list, socket_type, udp_etm_aes_key, cs_packet_size, socket_priority }

/-- The networks from number `count` on, and those read before them. -/
def read_networks (my_sid : UInt64) : (left count : Nat) → List NetworkConf → Option (List NetworkConf)
  | 0, _, networks => some networks
  | left + 1, count, networks => do
    let first := networks.head?.map NetworkConf.send_list
    let network ← read_network place my_sid first count
    read_networks my_sid left (count + 1) (networks ++ [network])

/-- The stations of a list, as `getKeys` returns them. -/
def getKeys (filename : Str) : Except Failure (List UInt64) :=
  (SidManagement.init place.files filename).map fun sid_ip_map =>
    place.UnorderedMapKeyExtraction (sid_ip_map.map Prod.fst)

/-- One entry for each station of a DTLS network; the first uses the entry of the network. -/
def push_stations (settings : ProcRcvSettings) : List UInt64 → Except Failure ProcRcvSettings
  | [] => .ok settings
  | key :: keys => do
    let settings ← ({ settings with dtls_dest_sids := settings.dtls_dest_sids ++ [key] }).set_dtls_conf_copy
    push_stations settings keys

/-- The stations of the network at `idx`, and how many entries were added for them. A
network that is not DTLS has station 0. -/
def add_dtls (loaded : ProcRcvSettings × Nat) (idx : Nat) : Except Failure (ProcRcvSettings × Nat) := do
  let (settings, dtls_add_count) := loaded
  let socket_type ← subscript settings.socket_types idx
  if socket_type ≠ 2 then
    return ({ settings with dtls_dest_sids := settings.dtls_dest_sids ++ [0] }, dtls_add_count)
  else
    let send_list ← subscript settings.send_lists idx
    let keys ← getKeys place send_list
    let settings := { settings with dtls_idx := idx }
    match keys with
    | [] => return (settings, dtls_add_count)
    | key :: keys =>
      let settings ← push_stations { settings with dtls_dest_sids := settings.dtls_dest_sids ++ [key] } keys
      return (settings, dtls_add_count + keys.length)

/-- The settings with the items of all networks, before the stations are added. -/
def networkSettings (my_sid : UInt64) (network_num : Int) (networks : List NetworkConf) : ProcRcvSettings :=
  networks.foldl push_network
    { my_sid
      network_num
      cs_port_number := (chk_dm2conf_str_item place.ReadConfigFile "CS_PORT_NUMBER".toList).getD []
      interface_by_is_cs := (chk_dm2conf_str_item place.ReadConfigFile "INTERFACE_BY_IS_CS".toList).getD [] }

/-- `load_dm2conf` on settings that are empty. -/
def load_dm2conf : Except Failure (Option ProcRcvSettings) :=
  match chk_dm2conf_unsigned_long_long_item place.ReadConfigFile "MY_STATION_ID".toList,
    chk_dm2conf_int_item place.ReadConfigFile "SEND_NETWORK_NUM".toList with
  | some my_sid, some network_num =>
    match read_networks place my_sid network_num.toNat 1 [] with
    | none => .ok none
    | some networks => do
      let (settings, dtls_add_count) ←
        (List.range network_num.toNat).foldlM (add_dtls place) (networkSettings place my_sid network_num networks, 0)
      match chk_dm2conf_int_item place.ReadConfigFile "MAX_SENDTO_TIMES".toList,
        chk_dm2conf_int_item place.ReadConfigFile "TRACE_ON".toList with
      | some max_sendto_times, some trace_on =>
        return some { settings with network_num := settings.network_num + dtls_add_count, max_sendto_times, trace_on }
      | _, _ => return none
  | _, _ => .ok none

/-- The index of a network is an index of `threadFlags`. -/
def setFlag (settings : ProcRcvSettings) (index : Nat) : Except Failure ProcRcvSettings :=
  if index < settings.threadFlags.length then
    .ok { settings with threadFlags := settings.threadFlags.set index true }
  else .error .undefined

end ProcRcvSettings

end IS

import Dm20.Cs.ProcRcvSettings

namespace IS

/-- The registration of a station. -/
structure send_message_mng where
  sid : UInt64
  ip : Str
  ctl_flag : Str
deriving DecidableEq

namespace ProcRcvSettings

/-- The network at an index is DTLS. -/
def IsDtls (settings : ProcRcvSettings) (idx : Nat) : Prop :=
  settings.socket_types[idx]? = some 2

/-- The DTLS entry at an index is that of the station. -/
def Serves (settings : ProcRcvSettings) (sm : send_message_mng) (idx : Nat) : Prop :=
  settings.IsDtls idx ∧ settings.dtls_dest_sids[idx]? = some sm.sid

instance (settings : ProcRcvSettings) (idx : Nat) : Decidable (settings.IsDtls idx) :=
  inferInstanceAs (Decidable (_ = _))

instance (settings : ProcRcvSettings) (sm : send_message_mng) (idx : Nat) : Decidable (settings.Serves sm idx) :=
  inferInstanceAs (Decidable (_ ∧ _))

/-- Settings with other stations and other flags. -/
def progress (settings : ProcRcvSettings) (sids : List UInt64) (flags : List Bool) : ProcRcvSettings :=
  { settings with dtls_dest_sids := sids, threadFlags := flags }

end ProcRcvSettings

namespace ProcReceiver

open SidManagement ProcRcvSettings

/-- What `sid_update_check` has changed and found so far, and the senders it stopped. -/
structure Check where
  settings : ProcRcvSettings
  files : Files
  stopped : List Nat := []
  found_dtls_sid : Bool := false
  update_dtls_sid : Bool := false
  dtlsFileName : Str := []

/-- Writes the address of the station of a message, and tells the sender of the network. -/
def writeTable (sm : send_message_mng) (delete_flg : Bool) (idx : Nat) (filename : Str)
    (sid_ip_map : List (UInt64 × Str)) (c : Check) : Except Failure Check := do
  let (_, files) ← updateSidIp c.files filename sid_ip_map sm.sid sm.ip delete_flg
  let settings ← c.settings.setFlag idx
  return { c with files, settings }

/-- Stops the sender of a DTLS network. -/
def stopSender (idx : Nat) (c : Check) : Check :=
  { c with
    settings := { c.settings with dtls_dest_sids := c.settings.dtls_dest_sids.set idx 0 }
    stopped := c.stopped ++ [idx] }

/-- The turn of one network. A DTLS network is looked at only by the entry of the station. -/
def checkNetwork (sm : send_message_mng) (c : Check) (idx : Nat) : Except Failure Check := do
  let filename ← subscript c.settings.send_lists idx
  let sid_ip_map ← init c.files filename
  let socket_type ← subscript c.settings.socket_types idx
  if socket_type = 2 then
    let c := { c with dtlsFileName := filename }
    let dest_sid ← subscript c.settings.dtls_dest_sids idx
    if dest_sid = sm.sid then
      let c := { c with found_dtls_sid := true }
      let current_ip ← sid2ip sid_ip_map sm.sid
      if current_ip ≠ sm.ip then
        writeTable sm false idx filename sid_ip_map (stopSender idx { c with update_dtls_sid := true })
      else if sm.ctl_flag = "delete".toList then
        writeTable sm true idx filename sid_ip_map (stopSender idx c)
      else return c
    else return c
  else writeTable sm false idx filename sid_ip_map c

/-- A station that no DTLS network has is written to the list of the last one. -/
def addStation (sm : send_message_mng) (c : Check) : Except Failure Files :=
  if c.found_dtls_sid then .ok c.files
  else do
    let sid_ip_map ← init c.files c.dtlsFileName
    let (_, files) ← updateSidIp c.files c.dtlsFileName sid_ip_map sm.sid sm.ip false
    return files

/-- The entry for a new sender of the last DTLS network. -/
def addNetwork (sm : send_message_mng) (settings : ProcRcvSettings) : Except Failure ProcRcvSettings := do
  let settings ← settings.set_dtls_conf_copy
  return { settings with
    dtls_dest_sids := settings.dtls_dest_sids ++ [sm.sid]
    network_num := settings.network_num + 1 }

/-- The registration of a station: each network in turn, then the DTLS station that is new
or has a new address. -/
def sid_update_check (sm : send_message_mng) (settings : ProcRcvSettings) (files : Files) : Except Failure Check :=
  if sm.sid = 0 ∨ sm.ip = [] then .ok { settings, files }
  else do
    let c ← (List.range settings.network_num.toNat).foldlM (checkNetwork sm) { settings, files }
    if c.dtlsFileName ≠ [] then
      let files ← addStation sm c
      if c.found_dtls_sid = false ∨ c.update_dtls_sid then
        let settings ← addNetwork sm c.settings
        return { c with files, settings }
      else return { c with files }
    else return c

end ProcReceiver

end IS

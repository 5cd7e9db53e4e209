import Dm20.Cs.SidUpdate
import Dm20.Lib.Except
import Dm20.Lib.Run

open Run

namespace IS

namespace ProcRcvSettings

open Util

/-- One entry of each vector, with the network it describes and its station. -/
structure Entries (settings : ProcRcvSettings) (entries : List (NetworkConf × UInt64)) : Prop where
  network_num : settings.network_num = entries.length
  interface_names : settings.interface_names = entries.map fun entry => entry.1.interface_name
  udp_port_numbers : settings.udp_port_numbers = entries.map fun entry => entry.1.udp_port_number
  send_lists : settings.send_lists = entries.map fun entry => entry.1.send_list
  socket_types : settings.socket_types = entries.map fun entry => entry.1.socket_type
  udp_etm_aes_keys : settings.udp_etm_aes_keys = entries.map fun entry => entry.1.udp_etm_aes_key
  cs_packet_sizes : settings.cs_packet_sizes = entries.map fun entry => entry.1.cs_packet_size
  socket_priorities : settings.socket_priorities = entries.map fun entry => entry.1.socket_priority
  dtls_dest_sids : settings.dtls_dest_sids = entries.map Prod.snd

/-- The networks that dm2.conf describes, with their number. -/
def configured (place : Installation) : Option (Int × List NetworkConf) := do
  let my_sid ← chk_dm2conf_unsigned_long_long_item place.ReadConfigFile "MY_STATION_ID".toList
  let network_num ← chk_dm2conf_int_item place.ReadConfigFile "SEND_NETWORK_NUM".toList
  let networks ← read_networks place my_sid network_num.toNat 1 []
  return (network_num, networks)

end ProcRcvSettings

namespace ProcReceiver

open ProcRcvSettings SidManagement

/-- The sending side between two registrations, with the senders that were stopped. -/
structure Server where
  settings : ProcRcvSettings
  files : Files
  stopped : List Nat := []

namespace Server

def step (s : Server) (sm : send_message_mng) : Except Failure Server :=
  (sid_update_check sm s.settings s.files).map fun c =>
    { settings := c.settings, files := c.files, stopped := s.stopped ++ c.stopped }

/-- The vectors are aligned: entry by entry they describe the networks of the configuration,
a DTLS entry with one station of its list, or with 0 once it is stopped, and every other
entry with 0. Each network has a flag. -/
def AlignedBy (listed : NetworkConf → UInt64 → Prop) (place : Installation) (s : Server) : Prop :=
  ∃ num networks entries, configured place = some (num, networks) ∧ Entries s.settings entries ∧
    (∀ idx network sid, entries[idx]? = some (network, sid) → network ∈ networks ∧
      if network.socket_type = 2 ∧ idx ∉ s.stopped then listed network sid else sid = 0) ∧
    entries.length ≤ s.settings.threadFlags.length

/-- The station is in the list of the network as it was loaded. -/
def Loaded (place : Installation) (network : NetworkConf) (sid : UInt64) : Prop :=
  ∃ keys, getKeys place network.send_list = .ok keys ∧ sid ∈ keys

/-- The station is in the list of the network, as it was loaded or as it is now. -/
def Listed (place : Installation) (files : Files) (network : NetworkConf) (sid : UInt64) : Prop :=
  Loaded place network sid ∨
    ∃ sid_ip_map, SidManagement.init files network.send_list = .ok sid_ip_map ∧ sid ∈ sid_ip_map.map Prod.fst

def Aligned (place : Installation) (s : Server) : Prop :=
  AlignedBy (Listed place s.files) place s

/-- Networks aligned by what was loaded at the start are aligned with the files as they are now,
where these list the same stations. -/
theorem AlignedBy.aligned {place : Installation} {s : Server} (h : AlignedBy (Loaded place) place s) :
    Aligned place s := by
  obtain ⟨num, networks, entries, hconf, hentries, hstations, hflags⟩ := h
  refine ⟨num, networks, entries, hconf, hentries, fun idx network sid hget => ?_, hflags⟩
  obtain ⟨hmem, hsid⟩ := hstations idx network sid hget
  refine ⟨hmem, ?_⟩
  split
  · next hdtls =>
    rw [if_pos hdtls] at hsid
    exact Or.inl hsid
  · next hnot => rwa [if_neg hnot] at hsid

/-- The condition on the configuration: at most ten networks, and one station in the list of
each DTLS network. -/
def OneStation (place : Installation) : Prop :=
  ∃ num networks, configured place = some (num, networks) ∧ 0 ≤ num ∧ num ≤ 10 ∧
    ∀ network ∈ networks, network.socket_type = 2 → ∃ key, getKeys place network.send_list = .ok [key]

/-- The loop reads as many networks as are left to be read. -/
private theorem length_read_networks {place : Installation} {my_sid : UInt64} {left count : Nat}
    {before networks : List NetworkConf}
    (h : read_networks place my_sid left count before = some networks) : networks.length = before.length + left := by
  induction left generalizing count before with
  | zero =>
    obtain rfl := Option.some.inj h
    rfl
  | succ left ih =>
    obtain ⟨network, -, hrest⟩ := Option.bind_eq_some_iff.mp h
    rw [ih hrest, List.length_append, List.length_singleton]
    omega

/-- Each network appends one entry to every vector. -/
private theorem foldl_push_network (settings : ProcRcvSettings) (networks : List NetworkConf) :
    networks.foldl push_network settings =
      { settings with
        interface_names := settings.interface_names ++ networks.map NetworkConf.interface_name
        udp_port_numbers := settings.udp_port_numbers ++ networks.map NetworkConf.udp_port_number
        send_lists := settings.send_lists ++ networks.map NetworkConf.send_list
        socket_types := settings.socket_types ++ networks.map NetworkConf.socket_type
        udp_etm_aes_keys := settings.udp_etm_aes_keys ++ networks.map NetworkConf.udp_etm_aes_key
        cs_packet_sizes := settings.cs_packet_sizes ++ networks.map NetworkConf.cs_packet_size
        socket_priorities := settings.socket_priorities ++ networks.map NetworkConf.socket_priority } := by
  induction networks generalizing settings with
  | nil => simp
  | cons network networks ih => simp [ih, push_network]

/-- What a successful load has read and added. -/
theorem load_dm2conf_eq {place : Installation} {settings : ProcRcvSettings}
    (h : load_dm2conf place = .ok (some settings)) :
    ∃ my_sid num networks loaded dtls_add_count, configured place = some (num, networks) ∧ networks.length = num.toNat ∧
      (List.range num.toNat).foldlM (add_dtls place) (networkSettings place my_sid num networks, 0) =
        .ok (loaded, dtls_add_count) ∧
      ∃ max_sendto_times trace_on, settings =
        { loaded with network_num := loaded.network_num + dtls_add_count, max_sendto_times, trace_on } := by
  unfold load_dm2conf at h
  split at h
  · next my_sid num hmy hnum =>
    split at h
    · cases h
    · next networks hnetworks =>
      have hconf : configured place = some (num, networks) := by
        rw [configured, hmy, hnum]
        simp only [Option.bind_eq_bind, Option.bind_some, hnetworks]
        rfl
      have hlength := length_read_networks hnetworks
      obtain ⟨⟨loaded, dtls_add_count⟩, hloop, h⟩ := Except.bind_eq_ok_iff.mp h
      dsimp only at h
      split at h
      · next max_sendto_times trace_on _ _ =>
        have hsettings := Option.some.inj (Except.ok.inj h)
        exact ⟨my_sid, num, networks, loaded, dtls_add_count, hconf, by simpa using hlength, hloop, max_sendto_times,
          trace_on, hsettings.symm⟩
      · cases h
  · cases h

/-- The station that a network of one station has. -/
def stationOf (place : Installation) (network : NetworkConf) : UInt64 :=
  if network.socket_type = 2 then
    match getKeys place network.send_list with
    | .ok (key :: _) => key
    | _ => 0
  else 0

/-- The settings of the networks have, in each vector, the values of the networks in their
order. -/
private theorem networkSettings_eq (place : Installation) (my_sid : UInt64) (num : Int) (networks : List NetworkConf) :
    networkSettings place my_sid num networks =
      { my_sid
        network_num := num
        cs_port_number := (Util.chk_dm2conf_str_item place.ReadConfigFile "CS_PORT_NUMBER".toList).getD []
        interface_by_is_cs := (Util.chk_dm2conf_str_item place.ReadConfigFile "INTERFACE_BY_IS_CS".toList).getD []
        interface_names := networks.map NetworkConf.interface_name
        udp_port_numbers := networks.map NetworkConf.udp_port_number
        send_lists := networks.map NetworkConf.send_list
        socket_types := networks.map NetworkConf.socket_type
        udp_etm_aes_keys := networks.map NetworkConf.udp_etm_aes_key
        cs_packet_sizes := networks.map NetworkConf.cs_packet_size
        socket_priorities := networks.map NetworkConf.socket_priority } :=
  foldl_push_network _ networks

/-- The turn of a network whose list has one station. -/
theorem add_dtls_of_one {place : Installation} {settings : ProcRcvSettings} {count idx : Nat} {network : NetworkConf}
    (htype : settings.socket_types[idx]? = some network.socket_type)
    (hlist : settings.send_lists[idx]? = some network.send_list)
    (hone : network.socket_type = 2 → ∃ key, getKeys place network.send_list = .ok [key]) :
    ∃ dtls_idx, add_dtls place (settings, count) idx =
      .ok ({ settings with
        dtls_dest_sids := settings.dtls_dest_sids ++ [stationOf place network]
        dtls_idx }, count) := by
  by_cases hdtls : network.socket_type = 2
  · obtain ⟨key, hkey⟩ := hone hdtls
    refine ⟨idx, ?_⟩
    simp [add_dtls, subscript_of_getElem? htype, subscript_of_getElem? hlist, hdtls, hkey, push_stations, stationOf,
      bind, Except.bind, pure, Except.pure]
  · refine ⟨settings.dtls_idx, ?_⟩
    simp [add_dtls, subscript_of_getElem? htype, hdtls, stationOf, bind, Except.bind, pure, Except.pure]

/-- A load of networks of one station gives one entry for each network. -/
theorem entries_of_oneStation {place : Installation} {my_sid : UInt64} {num : Int} {networks : List NetworkConf}
    {loaded : ProcRcvSettings} {count : Nat} (hlength : networks.length = num.toNat) (hnum : 0 ≤ num)
    (hone : ∀ network ∈ networks, network.socket_type = 2 → ∃ key, getKeys place network.send_list = .ok [key])
    (hloop : (List.range num.toNat).foldlM (add_dtls place) (networkSettings place my_sid num networks, 0) =
      .ok (loaded, count)) :
    count = 0 ∧ loaded.threadFlags.length = 10 ∧
      Entries loaded (networks.map fun network => (network, stationOf place network)) := by
  have hturn := Except.foldlM_range_of_ok
    (P := fun k (acc : ProcRcvSettings × Nat) => ∃ dtls_idx, acc =
      ({ networkSettings place my_sid num networks with
        dtls_dest_sids := (networks.take k).map (stationOf place)
        dtls_idx }, 0)) ?_ ?_ hloop
  · obtain ⟨dtls_idx, heq⟩ := hturn
    obtain ⟨rfl, rfl⟩ := Prod.mk.inj heq
    rw [networkSettings_eq]
    refine ⟨rfl, rfl, ?_⟩
    constructor
    · simp [hlength, Int.toNat_of_nonneg hnum]
    · simp
    · simp
    · simp
    · simp
    · simp
    · simp
    · simp
    · simp [← hlength]
  · exact ⟨-1, by rw [networkSettings_eq]; rfl⟩
  · rintro k hk acc acc' ⟨dtls_idx, rfl⟩ hstep
    have hk' : k < networks.length := hlength ▸ hk
    obtain ⟨dtls_idx', hadd⟩ := @add_dtls_of_one place
      { networkSettings place my_sid num networks with
        dtls_dest_sids := (networks.take k).map (stationOf place)
        dtls_idx } 0 k networks[k]
      (by rw [networkSettings_eq]; simp [hk']) (by rw [networkSettings_eq]; simp [hk'])
      (hone _ (List.getElem_mem hk'))
    obtain rfl := Except.ok.inj (hadd.symm.trans hstep)
    refine ⟨dtls_idx', ?_⟩
    rw [List.take_succ_eq_append_getElem hk', List.map_append]
    rfl

/-- What the entries for further stations leave as it was, and by how much the vectors grow. -/
structure Grows (settings settings' : ProcRcvSettings) (keys : List UInt64) (added : Nat) : Prop where
  dtls_dest_sids : settings'.dtls_dest_sids = settings.dtls_dest_sids ++ keys
  interface_names : settings'.interface_names.length = settings.interface_names.length + added
  udp_etm_aes_keys : settings'.udp_etm_aes_keys = settings.udp_etm_aes_keys
  network_num : settings'.network_num = settings.network_num
  threadFlags : settings'.threadFlags = settings.threadFlags
  socket_types : settings.socket_types.IsPrefix settings'.socket_types
  send_lists : settings.send_lists.IsPrefix settings'.send_lists

/-- The entries for further stations are appended to the vectors, as many as there are keys. -/
private theorem grows_push_stations {settings settings' : ProcRcvSettings} {keys : List UInt64}
    (h : push_stations settings keys = .ok settings') : Grows settings settings' keys keys.length := by
  induction keys generalizing settings with
  | nil =>
    obtain rfl := Except.ok.inj h
    exact ⟨by simp, rfl, rfl, rfl, rfl, List.prefix_rfl, List.prefix_rfl⟩
  | cons key keys ih =>
    obtain ⟨copied, hcopy, hrest⟩ := Except.bind_eq_ok_iff.mp h
    simp only [set_dtls_conf_copy, Except.bind_eq_ok_iff] at hcopy
    obtain ⟨interface_name, -, port, -, list, -, type, -, packet, -, hcopied⟩ := hcopy
    obtain rfl := Except.ok.inj hcopied
    have hgrows := ih hrest
    refine ⟨?_, ?_, hgrows.udp_etm_aes_keys, hgrows.network_num, hgrows.threadFlags, ?_, ?_⟩
    · rw [hgrows.dtls_dest_sids]
      simp
    · rw [hgrows.interface_names]
      simp only [List.length_append, List.length_cons, List.length_nil]
      omega
    · exact (List.prefix_append _ _).trans hgrows.socket_types
    · exact (List.prefix_append _ _).trans hgrows.send_lists

/-- The turn of one network: no entry is added beyond the first of a list, and a list
without a station adds no station. -/
theorem add_dtls_inv {place : Installation} {settings settings' : ProcRcvSettings} {count count' idx : Nat}
    {network : NetworkConf} (htype : settings.socket_types[idx]? = some network.socket_type)
    (hlist : settings.send_lists[idx]? = some network.send_list)
    (h : add_dtls place (settings, count) idx = .ok (settings', count')) :
    ∃ keys, Grows settings settings' keys (count' - count) ∧ count ≤ count' ∧
      keys.length ≤ 1 + (count' - count) ∧
      (keys.length = 1 → network.socket_type = 2 → ∃ key, getKeys place network.send_list = .ok [key]) := by
  by_cases hdtls : network.socket_type = 2
  · simp only [add_dtls, subscript_of_getElem? htype, subscript_of_getElem? hlist, hdtls, ne_eq, not_true_eq_false,
      if_false, bind, Except.bind] at h
    cases hkeys : getKeys place network.send_list with
    | error e => simp [hkeys] at h
    | ok keys =>
      simp only [hkeys] at h
      cases keys with
      | nil =>
        obtain ⟨rfl, rfl⟩ := Prod.mk.inj (Except.ok.inj h)
        exact ⟨[], ⟨by simp, by simp, rfl, rfl, rfl, List.prefix_rfl, List.prefix_rfl⟩, Nat.le_refl _, by simp,
          fun hone => absurd hone (by simp)⟩
      | cons key keys =>
        dsimp only at h
        obtain ⟨pushed, hpush, hsettings⟩ := Except.bind_eq_ok_iff.mp h
        obtain ⟨rfl, rfl⟩ := Prod.mk.inj (Except.ok.inj hsettings)
        have hgrows := grows_push_stations hpush
        refine ⟨key :: keys, ⟨?_, ?_, hgrows.udp_etm_aes_keys, hgrows.network_num, hgrows.threadFlags,
          hgrows.socket_types, hgrows.send_lists⟩, Nat.le_add_right _ _, ?_, ?_⟩
        · rw [hgrows.dtls_dest_sids]
          simp
        · rw [hgrows.interface_names, Nat.add_sub_cancel_left]
        · rw [List.length_cons, Nat.add_sub_cancel_left, Nat.add_comm]
        · intro hone _
          obtain rfl : keys = [] := by simpa using hone
          exact ⟨key, rfl⟩
  · simp only [add_dtls, subscript_of_getElem? htype, hdtls, ne_eq, not_false_eq_true, if_true, bind, Except.bind] at h
    obtain ⟨rfl, rfl⟩ := Prod.mk.inj (Except.ok.inj h)
    exact ⟨[0], ⟨rfl, by simp, rfl, rfl, rfl, List.prefix_rfl, List.prefix_rfl⟩, Nat.le_refl _, by simp,
      fun _ hyes => absurd hyes hdtls⟩

/-- A load that adds no entry, and as many stations as there are networks, has found one
station for each DTLS network. -/
theorem oneStation_of_lengths {place : Installation} {my_sid : UInt64} {num : Int} {networks : List NetworkConf}
    {loaded : ProcRcvSettings} {count : Nat} (hlength : networks.length = num.toNat)
    (hloop : (List.range num.toNat).foldlM (add_dtls place) (networkSettings place my_sid num networks, 0) =
      .ok (loaded, count)) :
    loaded.interface_names.length = networks.length + count ∧ loaded.udp_etm_aes_keys.length = networks.length ∧
      loaded.network_num = num ∧ loaded.threadFlags.length = 10 ∧
      (count = 0 → loaded.dtls_dest_sids.length = networks.length → ∀ network ∈ networks, network.socket_type = 2 →
        ∃ key, getKeys place network.send_list = .ok [key]) := by
  have hbase := networkSettings_eq place my_sid num networks
  have hturn := Except.foldlM_range_of_ok
    (P := fun k (acc : ProcRcvSettings × Nat) => acc.1.interface_names.length = networks.length + acc.2 ∧
      acc.1.udp_etm_aes_keys.length = networks.length ∧ acc.1.network_num = num ∧ acc.1.threadFlags.length = 10 ∧
      (networks.map NetworkConf.socket_type).IsPrefix acc.1.socket_types ∧
      (networks.map NetworkConf.send_list).IsPrefix acc.1.send_lists ∧ acc.1.dtls_dest_sids.length ≤ k + acc.2 ∧
      (acc.2 = 0 → acc.1.dtls_dest_sids.length = k → ∀ j < k, ∀ network, networks[j]? = some network →
        network.socket_type = 2 → ∃ key, getKeys place network.send_list = .ok [key])) ?_ ?_ hloop
  · obtain ⟨hinterface, hkeys, hnum, hflags, -, -, -, hone⟩ := hturn
    refine ⟨hinterface, hkeys, hnum, hflags, fun hcount hsids network hmem hdtls => ?_⟩
    obtain ⟨idx, hidx, rfl⟩ := List.getElem_of_mem hmem
    exact hone hcount (hsids.trans hlength) idx (hlength ▸ hidx) _ (List.getElem?_eq_getElem hidx) hdtls
  · rw [hbase]
    exact ⟨by simp, by simp, rfl, rfl, List.prefix_rfl, List.prefix_rfl, Nat.le_refl _,
      fun _ _ j hj => absurd hj (Nat.not_lt_zero j)⟩
  · rintro k hk ⟨settings, count⟩ ⟨settings', count'⟩ ⟨hinterface, hkeys, hnum, hflags, htypes, hlists, hsids, hone⟩ hstep
    have hk' : k < networks.length := hlength ▸ hk
    have htype : settings.socket_types[k]? = some networks[k].socket_type := by
      have hget := List.prefix_iff_getElem?.mp htypes k (by simpa using hk')
      simpa using hget
    have hlist : settings.send_lists[k]? = some networks[k].send_list := by
      have hget := List.prefix_iff_getElem?.mp hlists k (by simpa using hk')
      simpa using hget
    obtain ⟨keys, hgrows, hle, hshort, hkey⟩ := add_dtls_inv htype hlist hstep
    have hdest : settings'.dtls_dest_sids.length = settings.dtls_dest_sids.length + keys.length := by
      rw [hgrows.dtls_dest_sids, List.length_append]
    dsimp only at hinterface hsids hone ⊢
    refine ⟨?_, hgrows.udp_etm_aes_keys ▸ hkeys, hgrows.network_num ▸ hnum, hgrows.threadFlags ▸ hflags,
      htypes.trans hgrows.socket_types, hlists.trans hgrows.send_lists, by omega, ?_⟩
    · rw [hgrows.interface_names]
      omega
    · intro hcount hlength' j hj network hnetwork hdtls
      rcases Nat.lt_succ_iff_lt_or_eq.mp hj with hlt | rfl
      · exact hone (by omega) (by omega) j hlt network hnetwork hdtls
      · rw [List.getElem?_eq_getElem hk'] at hnetwork
        obtain rfl := Option.some.inj hnetwork
        exact hkey (by omega) hdtls

/-- A load of networks of one station aligns the vectors. -/
theorem alignedBy_load {place : Installation} {settings : ProcRcvSettings}
    (h : load_dm2conf place = .ok (some settings)) (hone : OneStation place) :
    AlignedBy (Loaded place) place { settings, files := place.files } := by
  obtain ⟨my_sid, num, networks, loaded, count, hconf, hlength, hloop, max_sendto_times, trace_on, rfl⟩ :=
    load_dm2conf_eq h
  obtain ⟨num', networks', hconf', hnonneg, hten, hone⟩ := hone
  obtain ⟨rfl, rfl⟩ := Prod.mk.inj (Option.some.inj (hconf.symm.trans hconf'))
  obtain ⟨rfl, hflags, hentries⟩ := entries_of_oneStation hlength hnonneg hone hloop
  refine ⟨num, networks, _, hconf, ⟨?_, hentries.interface_names, hentries.udp_port_numbers, hentries.send_lists,
    hentries.socket_types, hentries.udp_etm_aes_keys, hentries.cs_packet_sizes, hentries.socket_priorities,
    hentries.dtls_dest_sids⟩, ?_, ?_⟩
  · simpa using hentries.network_num
  · intro idx network sid hget
    rw [List.getElem?_map] at hget
    obtain ⟨network', hnetwork, heq⟩ := Option.map_eq_some_iff.mp hget
    obtain ⟨rfl, rfl⟩ := Prod.mk.inj heq
    have hmem := List.mem_of_getElem? hnetwork
    refine ⟨hmem, ?_⟩
    by_cases hdtls : network'.socket_type = 2
    · obtain ⟨key, hkey⟩ := hone network' hmem hdtls
      rw [if_pos ⟨hdtls, List.not_mem_nil⟩]
      refine ⟨[key], hkey, ?_⟩
      simp [stationOf, hdtls, hkey]
    · rw [if_neg fun hand => hdtls hand.1, stationOf, if_neg hdtls]
  · rw [List.length_map]
    dsimp only
    omega

/-- After a load the vectors are aligned exactly where there are at most ten networks and
each DTLS network has one station. -/
theorem aligned_load_iff {place : Installation} {settings : ProcRcvSettings}
    (h : load_dm2conf place = .ok (some settings)) :
    Aligned place { settings, files := place.files } ↔ OneStation place := by
  refine ⟨?_, fun hone => (alignedBy_load h hone).aligned⟩
  obtain ⟨my_sid, num, networks, loaded, count, hconf, hlength, hloop, max_sendto_times, trace_on, rfl⟩ :=
    load_dm2conf_eq h
  rintro ⟨num', networks', entries, hconf', hentries, hstations, hflags⟩
  obtain ⟨rfl, rfl⟩ := Prod.mk.inj (Option.some.inj (hconf.symm.trans hconf'))
  obtain ⟨hinterface, hkeys, hnum, hflags', hone⟩ := oneStation_of_lengths hlength hloop
  have h1 := congrArg List.length hentries.interface_names
  have h2 := congrArg List.length hentries.udp_etm_aes_keys
  have h3 := congrArg List.length hentries.dtls_dest_sids
  have h4 := hentries.network_num
  simp only [List.length_map] at h1 h2 h3
  dsimp only at h4 hflags
  exact ⟨num, networks, hconf, by omega, by omega, hone (by omega) (by omega)⟩

/-- The condition on a registration: no entry is added for it. There is no DTLS network, or
the station has a DTLS entry, and each such entry finds it with the address of the message;
a station that is deleted has one entry. -/
def Keeps (s : Server) (sm : send_message_mng) : Prop :=
  sm.sid = 0 ∨ sm.ip = [] ∨
    (2 ∈ s.settings.socket_types → ∃ idx, s.settings.Serves sm idx) ∧
      (∀ idx, s.settings.Serves sm idx → ∃ filename sid_ip_map, s.settings.send_lists[idx]? = some filename ∧
        init s.files filename = .ok sid_ip_map ∧ sid_ip_map.lookup sm.sid = some sm.ip) ∧
      (sm.ctl_flag = "delete".toList → ∀ i j, s.settings.Serves sm i → s.settings.Serves sm j → i = j)

/-- The station lists and the temporary files have different names. -/
def Separate (place : Installation) : Prop :=
  ∀ num networks, configured place = some (num, networks) → ∀ network ∈ networks, ∀ other ∈ networks,
    network.send_list ≠ tempFile other.send_list

/-- A table is written by one update of its file; the rest of the check follows from what the
update says. -/
private theorem writeTable_inv {sm : send_message_mng} {delete_flg : Bool} {idx : Nat} {filename : Str}
    {sid_ip_map : List (UInt64 × Str)} {c c' : Check}
    (h : writeTable sm delete_flg idx filename sid_ip_map c = .ok c') :
    ∃ change files', updateSidIp c.files filename sid_ip_map sm.sid sm.ip delete_flg = .ok (change, files') ∧
      c' = { c with
        files := files'
        settings := { c.settings with threadFlags := c.settings.threadFlags.set idx true } } := by
  obtain ⟨⟨change, files'⟩, hupdate, hrest⟩ := Except.bind_eq_ok_iff.mp h
  obtain ⟨settings, hflag, hc'⟩ := Except.bind_eq_ok_iff.mp hrest
  unfold setFlag at hflag
  split at hflag
  · obtain rfl := Except.ok.inj hflag
    exact ⟨change, files', hupdate, (Except.ok.inj hc').symm⟩
  · cases hflag

/-- What the turn of a network has done. -/
theorem checkNetwork_inv {sm : send_message_mng} {c c' : Check} {k : Nat} (h : checkNetwork sm c k = .ok c') :
    ∃ filename sid_ip_map, c.settings.send_lists[k]? = some filename ∧ init c.files filename = .ok sid_ip_map ∧
      (¬ c.settings.IsDtls k ∧ writeTable sm false k filename sid_ip_map c = .ok c' ∨
        c.settings.IsDtls k ∧ ¬ c.settings.Serves sm k ∧ c' = { c with dtlsFileName := filename } ∨
        c.settings.Serves sm k ∧ ∃ current_ip, sid_ip_map.lookup sm.sid = some current_ip ∧
          (if current_ip ≠ sm.ip then
            writeTable sm false k filename sid_ip_map
              (stopSender k { c with found_dtls_sid := true, update_dtls_sid := true, dtlsFileName := filename })
          else if sm.ctl_flag = "delete".toList then
            writeTable sm true k filename sid_ip_map
              (stopSender k { c with found_dtls_sid := true, dtlsFileName := filename })
          else .ok { c with found_dtls_sid := true, dtlsFileName := filename }) = .ok c') := by
  obtain ⟨filename, hlist, h⟩ := Except.bind_eq_ok_iff.mp h
  obtain ⟨sid_ip_map, hinit, h⟩ := Except.bind_eq_ok_iff.mp h
  obtain ⟨socket_type, htype, h⟩ := Except.bind_eq_ok_iff.mp h
  have htype' := getElem?_of_subscript htype
  refine ⟨filename, sid_ip_map, getElem?_of_subscript hlist, hinit, ?_⟩
  by_cases hdtls : socket_type = 2
  · subst hdtls
    rw [if_pos rfl] at h
    obtain ⟨dest_sid, hdest, h⟩ := Except.bind_eq_ok_iff.mp h
    have hdest' := getElem?_of_subscript hdest
    by_cases hserves : dest_sid = sm.sid
    · subst hserves
      rw [if_pos rfl] at h
      obtain ⟨current_ip, hcurrent, h⟩ := Except.bind_eq_ok_iff.mp h
      unfold sid2ip at hcurrent
      split at hcurrent
      · next hlookup =>
        obtain rfl := Except.ok.inj hcurrent
        exact Or.inr (Or.inr ⟨⟨htype', hdest'⟩, _, hlookup, h⟩)
      · cases hcurrent
    · rw [if_neg hserves] at h
      refine Or.inr (Or.inl ⟨htype', ?_, (Except.ok.inj h).symm⟩)
      rintro ⟨-, hdest''⟩
      exact hserves (Option.some.inj (hdest'.symm.trans hdest''))
  · rw [if_neg hdtls] at h
    refine Or.inl ⟨fun hyes => hdtls (Option.some.inj (htype'.symm.trans hyes)), h⟩

/-- What the loop has done for a registration that adds no entry: it has stopped entries of
the station, and the lists of those it has yet to visit are as they were. -/
structure Stays (s : Server) (sm : send_message_mng) (k : Nat) (c : Check) : Prop where
  settings : ∃ sids flags, c.settings = progress s.settings sids flags ∧
    flags.length = s.settings.threadFlags.length ∧
      ∀ j, sids[j]? = if j ∈ c.stopped then some 0 else s.settings.dtls_dest_sids[j]?
  stopped : ∀ j ∈ c.stopped, j < k ∧ s.settings.Serves sm j
  update : c.update_dtls_sid = false
  found : ∀ j < k, s.settings.Serves sm j → c.found_dtls_sid = true
  name : c.dtlsFileName ≠ [] → 2 ∈ s.settings.socket_types
  files : ∀ j, k ≤ j → s.settings.Serves sm j → ∀ filename, s.settings.send_lists[j]? = some filename →
    c.files filename = s.files filename

/-- One pass of the loop for a registration that adds no entry: what it has done so far holds
with one network more, where the lists have files and temporary files of their own. -/
private theorem stays_step {s : Server} {sm : send_message_mng} {k : Nat} {c c' : Check}
    (hseparate : ∀ filename ∈ s.settings.send_lists, ∀ other ∈ s.settings.send_lists, filename ≠ tempFile other)
    (hfind : ∀ idx, s.settings.Serves sm idx → ∃ filename sid_ip_map, s.settings.send_lists[idx]? = some filename ∧
      init s.files filename = .ok sid_ip_map ∧ sid_ip_map.lookup sm.sid = some sm.ip)
    (hone : sm.ctl_flag = "delete".toList → ∀ i j, s.settings.Serves sm i → s.settings.Serves sm j → i = j)
    (h : s.Stays sm k c) (hstep : checkNetwork sm c k = .ok c') : s.Stays sm (k + 1) c' := by
  obtain ⟨filename, sid_ip_map, hlist, hinit, hcases⟩ := checkNetwork_inv hstep
  obtain ⟨⟨sids, flags, hsettings, hflags, hsids⟩, hstopped, hupdate, hfound, hname, hfiles⟩ := h
  obtain ⟨settings, files, stopped, found, update, name⟩ := c
  obtain rfl := hsettings
  have hk : k ∉ stopped := fun hmem => Nat.lt_irrefl k (hstopped k hmem).1
  have hserves_iff : (progress s.settings sids flags).Serves sm k ↔ s.settings.Serves sm k := by
    have hsid := hsids k
    dsimp only at hsid
    rw [if_neg hk] at hsid
    exact and_congr_right fun _ => by rw [← hsid]; rfl
  have hflags' : (flags.set k true).length = s.settings.threadFlags.length := by rw [List.length_set, hflags]
  have hstopped' : ∀ j ∈ stopped, j < k + 1 ∧ s.settings.Serves sm j :=
    fun j hj => ⟨Nat.lt_succ_of_lt (hstopped j hj).1, (hstopped j hj).2⟩
  have hfound_of_not (hnot : ¬ s.settings.Serves sm k) : ∀ j < k + 1, s.settings.Serves sm j → found = true := by
    intro j hj hserves
    rcases Nat.lt_succ_iff_lt_or_eq.mp hj with hlt | rfl
    · exact hfound j hlt hserves
    · exact absurd hserves hnot
  rcases hcases with ⟨hdtls, hwrite⟩ | ⟨hdtls, hnot, rfl⟩ | ⟨hserves, current_ip, hcurrent, hwrite⟩
  · -- the network is not DTLS: a list with an entry of the station has the address already
    obtain ⟨change, files', hupdateSidIp, rfl⟩ := writeTable_inv hwrite
    refine ⟨⟨sids, flags.set k true, rfl, hflags', hsids⟩, hstopped', hupdate,
      hfound_of_not fun hserves => hdtls hserves.1, hname, fun j hj hserves other hother => ?_⟩
    have hsame := hfiles j (Nat.le_of_succ_le hj) hserves other hother
    refine Eq.trans ?_ hsame
    by_cases heq : other = filename
    · subst heq
      obtain ⟨filename', sid_ip_map', hlist', hinit', hlookup⟩ := hfind j hserves
      obtain rfl := Option.some.inj (hother.symm.trans hlist')
      have hinit'' : init files other = init s.files other := congrArg UnorderedMapMake hsame
      obtain rfl := Except.ok.inj (hinit.symm.trans (hinit''.trans hinit'))
      obtain ⟨-, rfl⟩ := Prod.mk.inj (Except.ok.inj (hupdateSidIp.symm.trans (updateSidIp_same files other hlookup)))
      rfl
    · exact updateSidIp_frame hupdateSidIp heq
        (hseparate other (List.mem_of_getElem? hother) filename (List.mem_of_getElem? hlist))
  · refine ⟨⟨sids, flags, rfl, hflags, hsids⟩, hstopped', hupdate,
      hfound_of_not fun hserves => hnot (hserves_iff.mpr hserves), fun _ => List.mem_of_getElem? hdtls,
      fun j hj => hfiles j (Nat.le_of_succ_le hj)⟩
  · rw [hserves_iff] at hserves
    obtain ⟨filename', sid_ip_map', hlist', hinit', hlookup⟩ := hfind k hserves
    obtain rfl := Option.some.inj (hlist'.symm.trans hlist)
    have hinit'' : init files filename' = init s.files filename' :=
      congrArg UnorderedMapMake (hfiles k (Nat.le_refl k) hserves filename' hlist')
    obtain rfl := Except.ok.inj (hinit.symm.trans (hinit''.trans hinit'))
    obtain rfl := Option.some.inj (hcurrent.symm.trans hlookup)
    rw [if_neg (not_not_intro rfl)] at hwrite
    have hdtls : 2 ∈ s.settings.socket_types := List.mem_of_getElem? hserves.1
    split at hwrite
    · next hdelete =>
      obtain ⟨change, files', hupdateSidIp, rfl⟩ := writeTable_inv hwrite
      refine ⟨⟨sids.set k 0, flags.set k true, rfl, hflags', fun j => ?_⟩, ?_, hupdate, fun _ _ _ => rfl,
        fun _ => hdtls, fun j hj hserves_j => ?_⟩
      · have hlt : k < sids.length := by
          have hsid := hsids k
          dsimp only at hsid
          rw [if_neg hk, hserves.2] at hsid
          exact (List.getElem?_eq_some_iff.mp hsid).1
        have hsid := hsids j
        dsimp only [stopSender] at hsid ⊢
        by_cases hj : j = k
        · subst hj
          simp [hlt]
        · rw [List.getElem?_set_ne (Ne.symm hj), hsid]
          simp [hj]
      · intro j hj
        rcases List.mem_append.mp hj with hj | hj
        · exact hstopped' j hj
        · obtain rfl := List.mem_singleton.mp hj
          exact ⟨Nat.lt_succ_self j, hserves⟩
      · exact absurd (hone hdelete k j hserves hserves_j) (Nat.ne_of_lt hj)
    · obtain rfl := Except.ok.inj hwrite
      exact ⟨⟨sids, flags, rfl, hflags, hsids⟩, hstopped', hupdate, fun _ _ _ => rfl, fun _ => hdtls,
        fun j hj => hfiles j (Nat.le_of_succ_le hj)⟩

/-- The entries after some senders were stopped. -/
def stopEntries (stopped : List Nat) (entries : List (NetworkConf × UInt64)) : List (NetworkConf × UInt64) :=
  entries.mapIdx fun idx entry => (entry.1, if idx ∈ stopped then 0 else entry.2)

private theorem map_stopEntries {α : Type} (f : NetworkConf → α) (stopped : List Nat)
    (entries : List (NetworkConf × UInt64)) :
    (stopEntries stopped entries).map (fun entry => f entry.1) = entries.map fun entry => f entry.1 := by
  refine List.ext_getElem? fun idx => ?_
  simp [stopEntries, Function.comp_def]

private theorem length_stopEntries (stopped : List Nat) (entries : List (NetworkConf × UInt64)) :
    (stopEntries stopped entries).length = entries.length :=
  List.length_mapIdx

/-- A loop that adds no entry keeps the vectors aligned. -/
theorem alignedBy_of_stays {place : Installation} {s : Server} {sm : send_message_mng} {k : Nat} {c : Check}
    (h : AlignedBy (Loaded place) place s) (hstays : s.Stays sm k c) (files : Files) :
    AlignedBy (Loaded place) place { settings := c.settings, files, stopped := s.stopped ++ c.stopped } := by
  obtain ⟨num, networks, entries, hconf, hentries, hstations, hflags⟩ := h
  obtain ⟨sids, flags, hsettings, hlength, hsids⟩ := hstays.settings
  refine ⟨num, networks, stopEntries c.stopped entries, hconf, ?_, ?_, ?_⟩
  · rw [hsettings]
    constructor
    · rw [length_stopEntries]
      exact hentries.network_num
    · exact hentries.interface_names.trans (map_stopEntries _ _ _).symm
    · exact hentries.udp_port_numbers.trans (map_stopEntries _ _ _).symm
    · exact hentries.send_lists.trans (map_stopEntries _ _ _).symm
    · exact hentries.socket_types.trans (map_stopEntries _ _ _).symm
    · exact hentries.udp_etm_aes_keys.trans (map_stopEntries _ _ _).symm
    · exact hentries.cs_packet_sizes.trans (map_stopEntries _ _ _).symm
    · exact hentries.socket_priorities.trans (map_stopEntries _ _ _).symm
    · refine List.ext_getElem? fun idx => ?_
      have hold : s.settings.dtls_dest_sids[idx]? = (entries[idx]?).map Prod.snd := by
        rw [hentries.dtls_dest_sids, List.getElem?_map]
      have hsid := hsids idx
      rw [show (progress s.settings sids flags).dtls_dest_sids = sids from rfl, hsid]
      by_cases hmem : idx ∈ c.stopped
      · have hserves := (hstays.stopped idx hmem).2.2
        rw [hold] at hserves
        obtain ⟨entry, hentry, -⟩ := Option.map_eq_some_iff.mp hserves
        simp [stopEntries, hmem, hentry]
      · simp [stopEntries, hmem, hold]
  · intro idx network sid hget
    simp only [stopEntries, List.getElem?_mapIdx] at hget
    obtain ⟨⟨network', sid'⟩, hentry, heq⟩ := Option.map_eq_some_iff.mp hget
    obtain ⟨rfl, rfl⟩ := Prod.mk.inj heq
    obtain ⟨hmem, hstation⟩ := hstations idx network' sid' hentry
    refine ⟨hmem, ?_⟩
    by_cases hstopped : idx ∈ c.stopped
    · rw [if_neg fun hand => hand.2 (List.mem_append_right _ hstopped), if_pos hstopped]
    · simpa [hstopped] using hstation
  · rw [length_stopEntries, hsettings]
    exact hlength.symm ▸ hflags

/-- A registration that adds no entry keeps the vectors aligned. -/
theorem alignedBy_step {place : Installation} (hseparate : Separate place) {s s' : Server} {sm : send_message_mng}
    (h : AlignedBy (Loaded place) place s) (hkeeps : s.Keeps sm) (hstep : step s sm = .ok s') :
    AlignedBy (Loaded place) place s' := by
  obtain ⟨c, hcheck, rfl⟩ := Except.map_eq_ok_iff.mp hstep
  unfold sid_update_check at hcheck
  split at hcheck
  · obtain rfl := Except.ok.inj hcheck
    dsimp only
    rw [List.append_nil]
    exact h
  · next hvalid =>
    obtain ⟨hserved, hfind, hone⟩ := (hkeeps.resolve_left fun h => hvalid (Or.inl h)).resolve_left
      fun h => hvalid (Or.inr h)
    obtain ⟨d, hloop, hrest⟩ := Except.bind_eq_ok_iff.mp hcheck
    obtain ⟨num, networks, entries, hconf, hentries, hstations, hflags⟩ := id h
    have hnames : ∀ filename ∈ s.settings.send_lists, ∀ other ∈ s.settings.send_lists, filename ≠ tempFile other := by
      have hnetwork : ∀ filename ∈ s.settings.send_lists, ∃ network ∈ networks, network.send_list = filename := by
        intro filename hmem
        rw [hentries.send_lists] at hmem
        obtain ⟨⟨network, sid⟩, hentry, rfl⟩ := List.mem_map.mp hmem
        obtain ⟨idx, hidx⟩ := List.getElem?_of_mem hentry
        exact ⟨network, (hstations idx network sid hidx).1, rfl⟩
      intro filename hfilename other hother
      obtain ⟨network, hnetwork', rfl⟩ := hnetwork filename hfilename
      obtain ⟨network', hnetwork'', rfl⟩ := hnetwork other hother
      exact hseparate num networks hconf network hnetwork' network' hnetwork''
    have hstays : s.Stays sm s.settings.network_num.toNat d := by
      refine Except.foldlM_range_of_ok (P := s.Stays sm) ?_ ?_ hloop
      · exact ⟨⟨_, _, rfl, rfl, fun j => by simp⟩, by simp, rfl, fun j hj => absurd hj (Nat.not_lt_zero j),
          fun hne => absurd rfl hne, fun _ _ _ _ _ => rfl⟩
      · exact fun k _ c c' hc hc' => stays_step hnames hfind hone hc hc'
    split at hrest
    · next hname =>
      obtain ⟨files, -, hrest⟩ := Except.bind_eq_ok_iff.mp hrest
      obtain ⟨idx, hserves⟩ := hserved (hstays.name hname)
      have hlt : idx < s.settings.network_num.toNat := by
        have hidx := (List.getElem?_eq_some_iff.mp hserves.1).1
        rw [hentries.socket_types, List.length_map] at hidx
        rwa [hentries.network_num, Int.toNat_natCast]
      have hfound := hstays.found idx hlt hserves
      rw [if_neg (by simp [hfound, hstays.update])] at hrest
      obtain rfl := Except.ok.inj hrest
      exact alignedBy_of_stays h hstays files
    · obtain rfl := Except.ok.inj hrest
      exact alignedBy_of_stays h hstays d.files

/-- After a load, and in any run of registrations that add no entry, the vectors stay
aligned exactly where there are at most ten networks and each DTLS network has one station. -/
theorem throughout_aligned_iff {place : Installation} {settings : ProcRcvSettings}
    (hload : load_dm2conf place = .ok (some settings)) (hseparate : Separate place) {messages : List send_message_mng}
    (h : Along step Keeps { settings, files := place.files } messages) :
    Throughout step (fun _ => False) (Aligned place) { settings, files := place.files } messages ↔ OneStation place := by
  constructor
  · intro haligned
    exact (aligned_load_iff hload).mp haligned.head
  · intro hone
    refine Throughout.imp (P := AlignedBy (Loaded place) place) (fun s hs => hs.aligned)
      (Throughout.of_along ?_ (fun _ _ _ _ _ _ h => h) (alignedBy_load hload hone) h)
    exact fun s sm s' hs hkeeps hstep => alignedBy_step hseparate hs hkeeps hstep

/-- A configuration with one DTLS network. -/
def dtlsNetwork (send_list : String) : Installation where
  ReadConfigFile item := (List.lookup item
    [("MY_STATION_ID".toList, "201".toList), ("SEND_NETWORK_NUM".toList, "1".toList),
      ("UDP_PORT_NUMBER_1".toList, "55555".toList), ("SEND_LIST_1".toList, "send.csv".toList),
      ("SOCKET_TYPE_1".toList, "dtls".toList), ("CS_PACKET_SIZE_1".toList, "1442".toList),
      ("MAX_SENDTO_TIMES".toList, "10".toList), ("TRACE_ON".toList, "0".toList)]).getD "ReadConfigFile ERROR".toList
  configDirectory := "/conf/".toList
  CheckClientContext := true
  checkClientSignature _ := true
  files filename := List.lookup filename [("/conf/send.csv".toList, send_list.toList)]
  UnorderedMapKeyExtraction keys := keys

/-- The settings of that configuration, where its list has the station 5 only. -/
def dtlsSettings : ProcRcvSettings where
  my_sid := 201
  network_num := 1
  interface_names := [[]]
  udp_port_numbers := ["55555".toList]
  send_lists := ["/conf/send.csv".toList]
  socket_types := [2]
  cs_packet_sizes := [1442]
  socket_priorities := [-1]
  dtls_dest_sids := [5]
  udp_etm_aes_keys := [[]]
  dtls_idx := 0
  max_sendto_times := 10

private theorem load_dtlsNetwork : load_dm2conf (dtlsNetwork "5,10.0.0.5\n") = .ok (some dtlsSettings) := by
  rfl

private theorem separate_dtlsNetwork (send_list : String) : Separate (dtlsNetwork send_list) := by
  have hconf : configured (dtlsNetwork send_list) =
      some (1, [⟨[], "55555".toList, "/conf/send.csv".toList, 2, [], 1442, -1⟩]) := rfl
  intro num networks hconf' network hnetwork other hother
  obtain ⟨-, rfl⟩ := Prod.mk.inj (Option.some.inj (hconf.symm.trans hconf'))
  obtain rfl := List.mem_singleton.mp hnetwork
  obtain rfl := List.mem_singleton.mp hother
  decide

/-- A network with one table by DTLS and a deletion of its one station: the deletion leaves the
network aligned just if the file lists the station once. -/
theorem throughout_aligned_iff_dtlsNetwork :
    Throughout step (fun _ => False) (Aligned (dtlsNetwork "5,10.0.0.5\n"))
      { settings := dtlsSettings, files := (dtlsNetwork "5,10.0.0.5\n").files }
      [⟨5, "10.0.0.5".toList, "delete".toList⟩] ↔ OneStation (dtlsNetwork "5,10.0.0.5\n") := by
  refine throughout_aligned_iff load_dtlsNetwork (separate_dtlsNetwork _) (Along.cons ?_ fun _ _ => trivial)
  have hzero : ∀ idx, dtlsSettings.Serves ⟨5, "10.0.0.5".toList, "delete".toList⟩ idx → idx = 0 :=
    fun idx hserves => Nat.lt_one_iff.mp (List.getElem?_eq_some_iff.mp hserves.1).1
  refine Or.inr (Or.inr ⟨fun _ => ⟨0, rfl, rfl⟩, fun idx hserves => ?_, fun _ i j hi hj => ?_⟩)
  · rw [hzero idx hserves]
    exact ⟨"/conf/send.csv".toList, [(5, "10.0.0.5".toList)], rfl, rfl, rfl⟩
  · rw [hzero i hi, hzero j hj]

/-- A DTLS network with two stations has no key for the second one. -/
theorem twoStations_not_aligned : ∃ settings, load_dm2conf (dtlsNetwork "5,10.0.0.5\n6,10.0.0.6\n") = .ok (some settings) ∧
    ¬ Aligned (dtlsNetwork "5,10.0.0.5\n6,10.0.0.6\n")
      { settings, files := (dtlsNetwork "5,10.0.0.5\n6,10.0.0.6\n").files } := by
  refine ⟨{ dtlsSettings with
    network_num := 2
    interface_names := [[], []]
    udp_port_numbers := ["55555".toList, "55555".toList]
    send_lists := ["/conf/send.csv".toList, "/conf/send.csv".toList]
    socket_types := [2, 2]
    cs_packet_sizes := [1442, 1442]
    dtls_dest_sids := [5, 6] }, rfl, ?_⟩
  rintro ⟨num, networks, entries, -, hentries, -, -⟩
  have hkeys := congrArg List.length hentries.udp_etm_aes_keys
  have hnum := hentries.network_num
  rw [List.length_map] at hkeys
  rw [← hkeys] at hnum
  exact absurd hnum (by decide)

end Server

end ProcReceiver

end IS

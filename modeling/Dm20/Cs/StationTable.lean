import Dm20.Cs.SidUpdate
import Dm20.Lib.Except
import Dm20.Lib.Run

open Run

namespace IS

namespace SidManagement

/-- A file that holds a table, each of its stations in one line. -/
def Shows (files : Files) (filename : Str) (table : UInt64 → Option Str) : Prop :=
  ∃ file entries, files filename = some file ∧ Table file entries ∧ ∀ sid, entries.lookup sid = table sid

/-- What a sender reads of a file is the table, and the file has each station once. -/
def Agrees (files : Files) (filename : Str) (table : UInt64 → Option Str) : Prop :=
  ∃ sid_ip_map, init files filename = .ok sid_ip_map ∧
    readLines (Lines.lines '\n' ((files filename).getD [])) = .ok sid_ip_map ∧
      ∀ sid, sid_ip_map.lookup sid = table sid

/-- A list that shows a table is read without an error, and what is read of it looks up every
station as the table does. -/
theorem Shows.init {files : Files} {filename : Str} {table : UInt64 → Option Str} (h : Shows files filename table) :
    ∃ file entries, files filename = some file ∧ Table file entries ∧ (∀ sid, entries.lookup sid = table sid) ∧
      init files filename = .ok entries := by
  obtain ⟨file, entries, hfile, htable, hlookup⟩ := h
  refine ⟨file, entries, hfile, htable, hlookup, ?_⟩
  rw [SidManagement.init, hfile]
  exact htable.make

/-- A list that shows a table agrees with it: a sender reads each station once, with the address
of the table. -/
theorem Shows.agrees {files : Files} {filename : Str} {table : UInt64 → Option Str} (h : Shows files filename table) :
    Agrees files filename table := by
  obtain ⟨file, entries, hfile, htable, hlookup, hinit⟩ := h.init
  refine ⟨entries, hinit, ?_, hlookup⟩
  rw [hfile, Option.getD_some]
  exact readLines_of_entries htable.holds htable.fits

/-- What a list shows depends on its own file only, so the other lists may change. -/
theorem Shows.congr {files files' : Files} {filename : Str} {table : UInt64 → Option Str}
    (h : Shows files filename table) (heq : files' filename = files filename) : Shows files' filename table := by
  obtain ⟨file, entries, hfile, hrest⟩ := h
  exact ⟨file, entries, heq.trans hfile, hrest⟩

/-- The new file holds what its rewriting holds; the other files keep their tables. -/
theorem updateSidIp_of_table {files : Files} {filename file : Str} {entries entries' : List (UInt64 × Str)}
    {sid : UInt64} {ip : Str} {delete_flg : Bool} (hfile : files filename = some file)
    (hchanged : entries.lookup sid ≠ some ip ∨ delete_flg = true)
    (htable : Table (rewriteFile sid ip delete_flg file) entries') :
    ∃ change files', updateSidIp files filename entries sid ip delete_flg = .ok (change, files') ∧
      files' filename = some (rewriteFile sid ip delete_flg file) ∧
      ∀ other, other ≠ filename → other ≠ tempFile filename → files' other = files other := by
  have hnonzero : changed entries sid ip delete_flg ≠ 0 := by
    unfold changed
    split
    · next current_ip hlookup =>
      split
      · next heq =>
        rcases hchanged with hne | hdelete
        · exact absurd (heq ▸ hlookup) hne
        · simp [hdelete]
      · decide
    · decide
  simp only [updateSidIp, hnonzero, if_false, hfile, SidManagement.init, Function.update_self, htable.make, Except.map]
  exact ⟨_, _, rfl, by simp, fun other h1 h2 => by simp [h1, h2]⟩

/-- Registering an address shows it, and nothing else changes. -/
theorem updateSidIp_set {files : Files} {filename : Str} {table : UInt64 → Option Str} {sid : UInt64} {ip : Str}
    (h : Shows files filename table) (hsid : Fits sid) (hip : IsAddress ip) :
    ∃ entries change files', init files filename = .ok entries ∧ (∀ sid, entries.lookup sid = table sid) ∧
      updateSidIp files filename entries sid ip false = .ok (change, files') ∧
      Shows files' filename (Function.update table sid (some ip)) ∧
      ∀ other, other ≠ filename → other ≠ tempFile filename → files' other = files other := by
  obtain ⟨file, entries, hfile, htable, hlookup, hinit⟩ := h.init
  refine ⟨entries, ?_⟩
  by_cases hsame : entries.lookup sid = some ip
  · refine ⟨0, files, hinit, hlookup, ?_, ?_, fun _ _ _ => rfl⟩
    · exact updateSidIp_same files filename hsame
    · have htable_eq : Function.update table sid (some ip) = table := by
        rw [hlookup] at hsame
        exact hsame ▸ Function.update_eq_self sid table
      rw [htable_eq]
      exact h
  · obtain ⟨change, files', hupdate, hfile', hother⟩ :=
      updateSidIp_of_table hfile (Or.inl hsame) (htable.set hsid hip)
    refine ⟨change, files', hinit, hlookup, hupdate, ⟨_, _, hfile', htable.set hsid hip, ?_⟩, hother⟩
    intro other
    rw [AssocList.lookup_set, Function.update_apply, hlookup]

/-- Deleting a station that has the address deletes it, and nothing else changes. -/
theorem updateSidIp_delete {files : Files} {filename : Str} {table : UInt64 → Option Str} {sid : UInt64} {ip : Str}
    (h : Shows files filename table) (hip : IsAddress ip) (hsame : table sid = some ip) :
    ∃ entries change files', init files filename = .ok entries ∧ (∀ sid, entries.lookup sid = table sid) ∧
      updateSidIp files filename entries sid ip true = .ok (change, files') ∧
      Shows files' filename (Function.update table sid none) ∧
      ∀ other, other ≠ filename → other ≠ tempFile filename → files' other = files other := by
  obtain ⟨file, entries, hfile, htable, hlookup, hinit⟩ := h.init
  have hsome : (entries.lookup sid).isSome := by rw [hlookup, hsame]; rfl
  obtain ⟨change, files', hupdate, hfile', hother⟩ :=
    updateSidIp_of_table hfile (Or.inr rfl) (htable.delete hip hsome)
  refine ⟨entries, change, files', hinit, hlookup, hupdate, ⟨_, _, hfile', htable.delete hip hsome, ?_⟩, hother⟩
  intro other
  rw [AssocList.lookup_filter_ne, Function.update_apply, hlookup]

end SidManagement

namespace ProcReceiver

open SidManagement ProcRcvSettings

/-- The communication server between two registrations. `tables` is what was registered:
the address of each station, for each station list. -/
structure Registry where
  settings : ProcRcvSettings
  files : Files
  tables : Str → UInt64 → Option Str

namespace Registry

/-- The address after a registration. -/
def target (sm : send_message_mng) : Option Str :=
  if sm.ctl_flag = "delete".toList then none else some sm.ip

def step (s : Registry) (sm : send_message_mng) : Except Failure Registry :=
  (sid_update_check sm s.settings s.files).map fun c =>
    { settings := c.settings, files := c.files, tables := fun filename => Function.update (s.tables filename) sm.sid (target sm) }

/-- Each station list is read back as what was registered. -/
def Correct (s : Registry) : Prop :=
  ∀ filename ∈ s.settings.send_lists, Agrees s.files filename (s.tables filename)

/-- Settings with an entry of each vector for each network, and lists that are separate
from the temporary files. -/
structure Configured (settings : ProcRcvSettings) : Prop where
  network_num : settings.network_num = settings.send_lists.length
  socket_types : settings.socket_types.length = settings.send_lists.length
  dtls_dest_sids : settings.dtls_dest_sids.length = settings.send_lists.length
  threadFlags : settings.threadFlags.length = 10
  named : ∀ filename ∈ settings.send_lists, filename ≠ []
  separate : ∀ filename ∈ settings.send_lists, ∀ other ∈ settings.send_lists, filename ≠ tempFile other
  copy : 2 ∈ settings.socket_types → ∃ idx : Nat, settings.dtls_idx = idx ∧ idx < settings.interface_names.length ∧
    idx < settings.udp_port_numbers.length ∧ idx < settings.send_lists.length ∧ idx < settings.cs_packet_sizes.length ∧
      settings.socket_types[idx]? = some 2

/-- The list of the network at an index is rewritten, or has the address already. -/
def Writes (s : Registry) (sm : send_message_mng) (idx : Nat) : Prop :=
  ¬ s.settings.IsDtls idx ∨ s.settings.Serves sm idx

instance (s : Registry) (sm : send_message_mng) (idx : Nat) : Decidable (s.Writes sm idx) :=
  inferInstanceAs (Decidable (_ ∨ _))

/-- Two networks have one station list. -/
def Shares (s : Registry) (idx other : Nat) : Prop :=
  s.settings.send_lists[other]? = s.settings.send_lists[idx]?

/-- The address of the station in the list of a network. -/
def address (s : Registry) (sm : send_message_mng) (idx : Nat) : Option Str :=
  (s.settings.send_lists[idx]?).bind fun filename => s.tables filename sm.sid

/-- A registration of an address leaves each DTLS list with the address: the station is
there where a DTLS entry looks it up, and some network rewrites the list. -/
def Sets (s : Registry) (sm : send_message_mng) (idx : Nat) : Prop :=
  (s.settings.Serves sm idx → (s.address sm idx).isSome ∨ ∃ j < idx, s.Shares idx j ∧ ¬ s.settings.IsDtls j) ∧
    (s.settings.IsDtls idx → s.address sm idx = some sm.ip ∨ (∃ j < s.settings.send_lists.length, s.Shares idx j ∧ s.Writes sm j) ∨
      (∀ j < s.settings.send_lists.length, ¬ s.settings.Serves sm j) ∧
        ∃ l < s.settings.send_lists.length, s.Shares idx l ∧ s.settings.IsDtls l ∧
          ∀ j < s.settings.send_lists.length, s.settings.IsDtls j → j ≤ l)

/-- A deletion leaves each list without the station: there are DTLS networks only, one of
them serves the station, and each list that has the station has it with the address of the
message and for one entry. -/
def Deletes (s : Registry) (sm : send_message_mng) (idx : Nat) : Prop :=
  s.settings.IsDtls idx ∧ (∃ j < s.settings.send_lists.length, s.settings.Serves sm j) ∧
    ((s.address sm idx = some sm.ip ∧ (∃ j < s.settings.send_lists.length, s.Shares idx j ∧ s.settings.Serves sm j) ∧
        ∀ j < s.settings.send_lists.length, ∀ k < s.settings.send_lists.length, s.Shares idx j → s.Shares idx k →
          s.settings.Serves sm j → s.settings.Serves sm k → j = k) ∨
      s.address sm idx = none ∧ ∀ j < s.settings.send_lists.length, s.Shares idx j → ¬ s.settings.Serves sm j)

/-- The condition on a registration: a station id that an `int` keeps and that is not 0, an
address that can stand in a line, and a flag for each network that is told. -/
structure Registers (s : Registry) (sm : send_message_mng) : Prop where
  sid_ne : sm.sid ≠ 0
  fits : Fits sm.sid
  ip : IsAddress sm.ip
  flags : ∀ idx < s.settings.send_lists.length, s.Writes sm idx → idx < 10
  lists : ∀ idx < s.settings.send_lists.length,
    if sm.ctl_flag = "delete".toList then s.Deletes sm idx else s.Sets sm idx

/-- The table of a list after the turns of the first networks. -/
def turnTable (s : Registry) (sm : send_message_mng) (k : Nat) (filename : Str) : UInt64 → Option Str :=
  if ∃ j < k, s.settings.send_lists[j]? = some filename ∧ s.Writes sm j then
    Function.update (s.tables filename) sm.sid (target sm)
  else s.tables filename

/-- What the loop over the networks has done after the turns of the first of them. -/
structure Turn (s : Registry) (sm : send_message_mng) (k : Nat) (c : Check) : Prop where
  settings : ∃ sids flags, c.settings = progress s.settings sids flags ∧
    sids.length = s.settings.dtls_dest_sids.length ∧ flags.length = 10 ∧
      ∀ j, k ≤ j → sids[j]? = s.settings.dtls_dest_sids[j]?
  shows : ∀ filename ∈ s.settings.send_lists, Shows c.files filename (s.turnTable sm k filename)
  found : c.found_dtls_sid = true ↔ ∃ j < k, s.settings.Serves sm j
  name : (c.dtlsFileName = [] ∧ ∀ j < k, ¬ s.settings.IsDtls j) ∨
    ∃ l < k, s.settings.IsDtls l ∧ (∀ j < k, s.settings.IsDtls j → j ≤ l) ∧ s.settings.send_lists[l]? = some c.dtlsFileName

private theorem turnTable_of_writes {s : Registry} {sm : send_message_mng} {j k : Nat} {filename : Str} (hj : j < k)
    (hlist : s.settings.send_lists[j]? = some filename) (hwrites : s.Writes sm j) :
    s.turnTable sm k filename = Function.update (s.tables filename) sm.sid (target sm) :=
  if_pos ⟨j, hj, hlist, hwrites⟩

private theorem turnTable_of_not {s : Registry} {sm : send_message_mng} {k : Nat} {filename : Str}
    (h : ∀ j < k, s.settings.send_lists[j]? = some filename → ¬ s.Writes sm j) :
    s.turnTable sm k filename = s.tables filename :=
  if_neg fun ⟨j, hj, hlist, hwrites⟩ => h j hj hlist hwrites

private theorem turnTable_zero (s : Registry) (sm : send_message_mng) (filename : Str) :
    s.turnTable sm 0 filename = s.tables filename :=
  turnTable_of_not fun _ hj => absurd hj (Nat.not_lt_zero _)

/-- A turn changes no table but that of a list that is written. -/
theorem turnTable_succ_of_not {s : Registry} {sm : send_message_mng} {k : Nat} {filename : Str}
    (h : s.settings.send_lists[k]? = some filename → ¬ s.Writes sm k) :
    s.turnTable sm (k + 1) filename = s.turnTable sm k filename := by
  unfold turnTable
  refine if_congr ?_ rfl rfl
  constructor
  · rintro ⟨j, hj, hlist, hwrites⟩
    rcases Nat.lt_succ_iff_lt_or_eq.mp hj with hlt | rfl
    · exact ⟨j, hlt, hlist, hwrites⟩
    · exact absurd hwrites (h hlist)
  · rintro ⟨j, hj, hlist, hwrites⟩
    exact ⟨j, Nat.lt_succ_of_lt hj, hlist, hwrites⟩

/-- A second writing of a table changes nothing. -/
theorem update_turnTable (s : Registry) (sm : send_message_mng) (k : Nat) (filename : Str) :
    Function.update (s.turnTable sm k filename) sm.sid (target sm) =
      Function.update (s.tables filename) sm.sid (target sm) := by
  unfold turnTable
  split
  · exact Function.update_idem _ _ _
  · rfl

/-- Writing the list of a network keeps the invariant for every list. -/
theorem shows_of_write {s : Registry} {sm : send_message_mng} {k : Nat} {files files' : Files} {filename : Str}
    (hconf : Configured s.settings)
    (hshows : ∀ other ∈ s.settings.send_lists, Shows files other (s.turnTable sm k other))
    (hlist : s.settings.send_lists[k]? = some filename) (hwrites : s.Writes sm k)
    (hwritten : Shows files' filename (Function.update (s.turnTable sm k filename) sm.sid (target sm)))
    (hother : ∀ other, other ≠ filename → other ≠ tempFile filename → files' other = files other) :
    ∀ other ∈ s.settings.send_lists, Shows files' other (s.turnTable sm (k + 1) other) := by
  intro other hmem
  have hfilename := List.mem_of_getElem? hlist
  by_cases heq : other = filename
  · rw [heq, turnTable_of_writes (Nat.lt_succ_self k) hlist hwrites, ← update_turnTable s sm k]
    exact hwritten
  · have hne : s.settings.send_lists[k]? = some other → ¬ s.Writes sm k := by
      intro hk
      exact absurd (Option.some.inj (hk.symm.trans hlist)) heq
    rw [turnTable_succ_of_not hne]
    exact (hshows other hmem).congr (hother other heq (hconf.separate other hmem filename hfilename))

/-- The flag of a network that is told is there. -/
theorem writeTable_ok {sm : send_message_mng} {k : Nat} {c : Check} {delete_flg : Bool}
    {filename : Str} {entries : List (UInt64 × Str)} {change : Int} {files' : Files}
    (hflags : c.settings.threadFlags.length = 10) (hk : k < 10)
    (hupdate : updateSidIp c.files filename entries sm.sid sm.ip delete_flg = .ok (change, files')) :
    writeTable sm delete_flg k filename entries c =
      .ok { c with
        files := files'
        settings := { c.settings with threadFlags := c.settings.threadFlags.set k true } } := by
  have hlt : k < c.settings.threadFlags.length := hflags ▸ hk
  simp [writeTable, hupdate, setFlag, hlt, bind, Except.bind, pure, Except.pure]

private theorem serves_exists_succ {s : Registry} {sm : send_message_mng} {k : Nat} (h : ¬ s.settings.Serves sm k) :
    (∃ j < k + 1, s.settings.Serves sm j) ↔ ∃ j < k, s.settings.Serves sm j := by
  constructor
  · rintro ⟨j, hj, hserves⟩
    rcases Nat.lt_succ_iff_lt_or_eq.mp hj with hlt | rfl
    · exact ⟨j, hlt, hserves⟩
    · exact absurd hserves h
  · rintro ⟨j, hj, hserves⟩
    exact ⟨j, Nat.lt_succ_of_lt hj, hserves⟩

/-- A network that is not DTLS keeps the name of the last DTLS list. -/
theorem name_of_not_dtls {s : Registry} {k : Nat} {name : Str} (hdtls : ¬ s.settings.IsDtls k)
    (h : (name = [] ∧ ∀ j < k, ¬ s.settings.IsDtls j) ∨
      ∃ l < k, s.settings.IsDtls l ∧ (∀ j < k, s.settings.IsDtls j → j ≤ l) ∧ s.settings.send_lists[l]? = some name) :
    (name = [] ∧ ∀ j < k + 1, ¬ s.settings.IsDtls j) ∨
      ∃ l < k + 1, s.settings.IsDtls l ∧ (∀ j < k + 1, s.settings.IsDtls j → j ≤ l) ∧ s.settings.send_lists[l]? = some name := by
  rcases h with ⟨hname, hall⟩ | ⟨l, hl, hdtls', hlast, hname⟩
  · refine Or.inl ⟨hname, fun j hj => ?_⟩
    rcases Nat.lt_succ_iff_lt_or_eq.mp hj with hlt | rfl
    · exact hall j hlt
    · exact hdtls
  · refine Or.inr ⟨l, Nat.lt_succ_of_lt hl, hdtls', fun j hj hj' => ?_, hname⟩
    rcases Nat.lt_succ_iff_lt_or_eq.mp hj with hlt | rfl
    · exact hlast j hlt hj'
    · exact absurd hj' hdtls

private theorem name_of_dtls {s : Registry} {k : Nat} {name : Str} (hdtls : s.settings.IsDtls k)
    (hname : s.settings.send_lists[k]? = some name) :
    ∃ l < k + 1, s.settings.IsDtls l ∧ (∀ j < k + 1, s.settings.IsDtls j → j ≤ l) ∧ s.settings.send_lists[l]? = some name :=
  ⟨k, Nat.lt_succ_self k, hdtls, fun _ hj _ => Nat.le_of_lt_succ hj, hname⟩

private theorem checkNetwork_of_ne {sm : send_message_mng} {c : Check} {k : Nat} {filename : Str}
    {entries : List (UInt64 × Str)} {socket_type : Int} (hlist : c.settings.send_lists[k]? = some filename)
    (hinit : init c.files filename = .ok entries) (htype : c.settings.socket_types[k]? = some socket_type)
    (hne : socket_type ≠ 2) : checkNetwork sm c k = writeTable sm false k filename entries c := by
  simp only [checkNetwork, subscript_of_getElem? hlist, subscript_of_getElem? htype, hinit, hne, if_false, bind,
    Except.bind]

private theorem checkNetwork_of_dtls {sm : send_message_mng} {c : Check} {k : Nat} {filename : Str}
    {entries : List (UInt64 × Str)} {dest_sid : UInt64} (hlist : c.settings.send_lists[k]? = some filename)
    (hinit : init c.files filename = .ok entries) (htype : c.settings.socket_types[k]? = some 2)
    (hdest : c.settings.dtls_dest_sids[k]? = some dest_sid) (hne : dest_sid ≠ sm.sid) :
    checkNetwork sm c k = .ok { c with dtlsFileName := filename } := by
  simp only [checkNetwork, subscript_of_getElem? hlist, subscript_of_getElem? htype, subscript_of_getElem? hdest,
    hinit, hne, if_true, if_false, bind, Except.bind, pure, Except.pure]

/-- At a network by DTLS that is meant for the station, the sender is stopped and its file is
written if the address is a new one. -/
private theorem checkNetwork_of_serves {sm : send_message_mng} {c : Check} {k : Nat} {filename current_ip : Str}
    {entries : List (UInt64 × Str)} (hlist : c.settings.send_lists[k]? = some filename)
    (hinit : init c.files filename = .ok entries) (htype : c.settings.socket_types[k]? = some 2)
    (hdest : c.settings.dtls_dest_sids[k]? = some sm.sid) (hlookup : entries.lookup sm.sid = some current_ip) :
    checkNetwork sm c k =
      if current_ip ≠ sm.ip then
        writeTable sm false k filename entries
          (stopSender k { c with found_dtls_sid := true, update_dtls_sid := true, dtlsFileName := filename })
      else if sm.ctl_flag = "delete".toList then
        writeTable sm true k filename entries
          (stopSender k { c with found_dtls_sid := true, dtlsFileName := filename })
      else .ok { c with found_dtls_sid := true, dtlsFileName := filename } := by
  simp only [checkNetwork, subscript_of_getElem? hlist, subscript_of_getElem? htype, subscript_of_getElem? hdest,
    hinit, sid2ip, hlookup, if_true, bind, Except.bind, pure, Except.pure]

/-- The turn of a network that is not DTLS. -/
theorem turn_of_not_dtls {s : Registry} {sm : send_message_mng} {k : Nat} {c : Check} (hconf : Configured s.settings)
    (hregisters : s.Registers sm) (hk : k < s.settings.send_lists.length) (hdtls : ¬ s.settings.IsDtls k)
    (h : s.Turn sm k c) : ∃ c', checkNetwork sm c k = .ok c' ∧ s.Turn sm (k + 1) c' := by
  obtain ⟨sids, flags, hsettings, hsids, hflags, hkeep⟩ := h.settings
  have hwrites : s.Writes sm k := Or.inl hdtls
  have hserves : ¬ s.settings.Serves sm k := fun hserves => hdtls hserves.1
  have hlist : s.settings.send_lists[k]? = some s.settings.send_lists[k] := List.getElem?_eq_getElem hk
  have hk' : k < s.settings.socket_types.length := hconf.socket_types ▸ hk
  have htype : s.settings.socket_types[k]? = some s.settings.socket_types[k] := List.getElem?_eq_getElem hk'
  have hne : s.settings.socket_types[k] ≠ 2 := fun heq => hdtls (htype.trans (congrArg some heq))
  have htarget : target sm = some sm.ip := by
    refine if_neg fun hdelete => ?_
    have hlists := hregisters.lists k hk
    rw [if_pos hdelete] at hlists
    exact hdtls hlists.1
  obtain ⟨entries, change, files', hinit, -, hupdate, hwritten, hother⟩ :=
    updateSidIp_set (h.shows _ (List.getElem_mem hk)) hregisters.fits hregisters.ip
  obtain ⟨settings, files, stopped, found, update, name⟩ := c
  obtain rfl := hsettings
  refine ⟨⟨progress s.settings sids (flags.set k true), files', stopped, found, update, name⟩, ?_, ?_⟩
  · rw [checkNetwork_of_ne hlist hinit htype hne]
    exact writeTable_ok hflags (hregisters.flags k hk hwrites) hupdate
  · refine ⟨⟨sids, flags.set k true, rfl, hsids, ?_, ?_⟩, ?_, ?_, name_of_not_dtls hdtls h.name⟩
    · rw [List.length_set, hflags]
    · exact fun j hj => hkeep j (Nat.le_of_succ_le hj)
    · exact shows_of_write hconf h.shows hlist hwrites (htarget ▸ hwritten) hother
    · exact h.found.trans (serves_exists_succ hserves).symm

/-- The turn of a DTLS entry of another station. -/
theorem turn_of_dtls {s : Registry} {sm : send_message_mng} {k : Nat} {c : Check} (hconf : Configured s.settings)
    (hk : k < s.settings.send_lists.length) (hdtls : s.settings.IsDtls k) (hserves : ¬ s.settings.Serves sm k)
    (h : s.Turn sm k c) : ∃ c', checkNetwork sm c k = .ok c' ∧ s.Turn sm (k + 1) c' := by
  obtain ⟨sids, flags, hsettings, hsids, hflags, hkeep⟩ := h.settings
  have hlist : s.settings.send_lists[k]? = some s.settings.send_lists[k] := List.getElem?_eq_getElem hk
  have hk' : k < s.settings.dtls_dest_sids.length := hconf.dtls_dest_sids ▸ hk
  have hdest : s.settings.dtls_dest_sids[k]? = some s.settings.dtls_dest_sids[k] := List.getElem?_eq_getElem hk'
  have hne : s.settings.dtls_dest_sids[k] ≠ sm.sid := fun heq => hserves ⟨hdtls, hdest.trans (congrArg some heq)⟩
  have hwrites : ¬ s.Writes sm k := by
    rintro (hnot | hyes)
    · exact hnot hdtls
    · exact hserves hyes
  obtain ⟨file, entries, -, -, -, hinit⟩ := (h.shows _ (List.getElem_mem hk)).init
  obtain ⟨settings, files, stopped, found, update, name⟩ := c
  obtain rfl := hsettings
  refine ⟨⟨progress s.settings sids flags, files, stopped, found, update, s.settings.send_lists[k]⟩, ?_, ?_⟩
  · exact checkNetwork_of_dtls hlist hinit hdtls ((hkeep k (Nat.le_refl k)).trans hdest) hne
  · refine ⟨⟨sids, flags, rfl, hsids, hflags, fun j hj => hkeep j (Nat.le_of_succ_le hj)⟩, ?_, ?_, ?_⟩
    · intro filename hmem
      rw [turnTable_succ_of_not fun _ => hwrites]
      exact h.shows filename hmem
    · exact h.found.trans (serves_exists_succ hserves).symm
    · exact Or.inr (name_of_dtls hdtls hlist)

/-- The table a DTLS entry of the station finds: the station is there, and where it is to
be deleted, with the address of the message. -/
theorem turnTable_of_serves {s : Registry} {sm : send_message_mng} {k : Nat} (hregisters : s.Registers sm)
    (hk : k < s.settings.send_lists.length) (hserves : s.settings.Serves sm k) :
    ∃ current_ip, s.turnTable sm k s.settings.send_lists[k] sm.sid = some current_ip ∧
      (sm.ctl_flag = "delete".toList → current_ip = sm.ip) := by
  have hlist : s.settings.send_lists[k]? = some s.settings.send_lists[k] := List.getElem?_eq_getElem hk
  have haddress : s.address sm k = s.tables s.settings.send_lists[k] sm.sid := by
    rw [address, hlist]
    rfl
  have hlists := hregisters.lists k hk
  by_cases hdelete : sm.ctl_flag = "delete".toList
  · rw [if_pos hdelete] at hlists
    obtain ⟨-, -, ⟨hip, -, hone⟩ | ⟨-, hnone⟩⟩ := hlists
    · refine ⟨sm.ip, ?_, fun _ => rfl⟩
      rw [turnTable_of_not, ← haddress, hip]
      intro j hj hshares hwrites
      have hj' : j < s.settings.send_lists.length := hj.trans hk
      have hdelete_j := hregisters.lists j hj'
      rw [if_pos hdelete] at hdelete_j
      have hserves_j : s.settings.Serves sm j := hwrites.resolve_left (not_not_intro hdelete_j.1)
      exact absurd (hone j hj' k hk (hshares.trans hlist.symm) rfl hserves_j hserves) (Nat.ne_of_lt hj)
    · exact absurd hserves (hnone k hk rfl)
  · rw [if_neg hdelete] at hlists
    have htarget : target sm = some sm.ip := if_neg hdelete
    by_cases hwritten : ∃ j < k, s.settings.send_lists[j]? = some s.settings.send_lists[k] ∧ s.Writes sm j
    · obtain ⟨j, hj, hlist_j, hwrites⟩ := hwritten
      refine ⟨sm.ip, ?_, fun hyes => absurd hyes hdelete⟩
      rw [turnTable_of_writes hj hlist_j hwrites, Function.update_self, htarget]
    · rcases hlists.1 hserves with hsome | ⟨j, hj, hshares, hdtls⟩
      · obtain ⟨current_ip, hcurrent⟩ := Option.isSome_iff_exists.mp hsome
        refine ⟨current_ip, ?_, fun hyes => absurd hyes hdelete⟩
        rw [turnTable_of_not fun j hj hlist_j hwrites => hwritten ⟨j, hj, hlist_j, hwrites⟩, ← haddress, hcurrent]
      · exact absurd ⟨j, hj, hshares.trans hlist, Or.inl hdtls⟩ hwritten

/-- The turn of the DTLS entry of the station. -/
theorem turn_of_serves {s : Registry} {sm : send_message_mng} {k : Nat} {c : Check} (hconf : Configured s.settings)
    (hregisters : s.Registers sm) (hk : k < s.settings.send_lists.length) (hserves : s.settings.Serves sm k)
    (h : s.Turn sm k c) : ∃ c', checkNetwork sm c k = .ok c' ∧ s.Turn sm (k + 1) c' := by
  obtain ⟨sids, flags, hsettings, hsids, hflags, hkeep⟩ := h.settings
  have hwrites : s.Writes sm k := Or.inr hserves
  have hk10 := hregisters.flags k hk hwrites
  have hlist : s.settings.send_lists[k]? = some s.settings.send_lists[k] := List.getElem?_eq_getElem hk
  have hdest : sids[k]? = some sm.sid := (hkeep k (Nat.le_refl k)).trans hserves.2
  have hshows := h.shows _ (List.getElem_mem hk)
  have hname := name_of_dtls hserves.1 hlist
  have hfound : (true = true) ↔ ∃ j < k + 1, s.settings.Serves sm j := iff_of_true rfl ⟨k, Nat.lt_succ_self k, hserves⟩
  have hsids' : ((sids.set k 0).length = s.settings.dtls_dest_sids.length) := by rw [List.length_set, hsids]
  have hflags' : (flags.set k true).length = 10 := by rw [List.length_set, hflags]
  have hkeep' : ∀ j, k + 1 ≤ j → (sids.set k 0)[j]? = s.settings.dtls_dest_sids[j]? := by
    intro j hj
    rw [List.getElem?_set_ne (Nat.ne_of_lt hj)]
    exact hkeep j (Nat.le_of_succ_le hj)
  obtain ⟨current_ip, hcurrent, hdelete_ip⟩ := turnTable_of_serves hregisters hk hserves
  obtain ⟨settings, files, stopped, found, update, name⟩ := c
  obtain rfl := hsettings
  by_cases hsame : current_ip = sm.ip
  · rw [hsame] at hcurrent
    by_cases hdelete : sm.ctl_flag = "delete".toList
    · have htarget : target sm = none := if_pos hdelete
      obtain ⟨entries, change, files', hinit, hlookup, hupdate, hwritten, hother⟩ :=
        updateSidIp_delete hshows hregisters.ip hcurrent
      refine ⟨⟨progress s.settings (sids.set k 0) (flags.set k true), files', stopped ++ [k], true, update, s.settings.send_lists[k]⟩, ?_,
        ⟨_, _, rfl, hsids', hflags', hkeep'⟩, ?_, hfound, Or.inr hname⟩
      · rw [checkNetwork_of_serves hlist hinit hserves.1 hdest ((hlookup _).trans hcurrent),
          if_neg (not_not_intro rfl), if_pos hdelete]
        exact writeTable_ok hflags hk10 hupdate
      · exact shows_of_write hconf h.shows hlist hwrites (htarget ▸ hwritten) hother
    · have htarget : target sm = some sm.ip := if_neg hdelete
      obtain ⟨file, entries, -, -, hlookup, hinit⟩ := hshows.init
      refine ⟨⟨progress s.settings sids flags, files, stopped, true, update, s.settings.send_lists[k]⟩, ?_,
        ⟨_, _, rfl, hsids, hflags, fun j hj => hkeep j (Nat.le_of_succ_le hj)⟩, ?_, hfound, Or.inr hname⟩
      · rw [checkNetwork_of_serves hlist hinit hserves.1 hdest ((hlookup _).trans hcurrent),
          if_neg (not_not_intro rfl), if_neg hdelete]
      · refine shows_of_write hconf h.shows hlist hwrites ?_ fun _ _ _ => rfl
        rw [htarget, ← hcurrent, Function.update_eq_self]
        exact hshows
  · have hdelete : sm.ctl_flag ≠ "delete".toList := fun hyes => hsame (hdelete_ip hyes)
    have htarget : target sm = some sm.ip := if_neg hdelete
    obtain ⟨entries, change, files', hinit, hlookup, hupdate, hwritten, hother⟩ :=
      updateSidIp_set hshows hregisters.fits hregisters.ip
    refine ⟨⟨progress s.settings (sids.set k 0) (flags.set k true), files', stopped ++ [k], true, true, s.settings.send_lists[k]⟩, ?_,
      ⟨_, _, rfl, hsids', hflags', hkeep'⟩, ?_, hfound, Or.inr hname⟩
    · rw [checkNetwork_of_serves hlist hinit hserves.1 hdest ((hlookup _).trans hcurrent), if_pos hsame]
      exact writeTable_ok hflags hk10 hupdate
    · exact shows_of_write hconf h.shows hlist hwrites (htarget ▸ hwritten) hother

/-- The loop over the networks succeeds. -/
theorem exists_turn {s : Registry} {sm : send_message_mng} (hconf : Configured s.settings) (hregisters : s.Registers sm)
    (htables : ∀ filename ∈ s.settings.send_lists, Shows s.files filename (s.tables filename)) :
    ∃ c, (List.range s.settings.send_lists.length).foldlM (checkNetwork sm) ⟨s.settings, s.files, [], false, false, []⟩ =
      .ok c ∧ s.Turn sm s.settings.send_lists.length c := by
  refine Except.foldlM_range_ok (P := s.Turn sm) ?_ ?_
  · refine ⟨⟨_, _, rfl, rfl, hconf.threadFlags, fun _ _ => rfl⟩, ?_, ?_, Or.inl ⟨rfl, fun j hj => ?_⟩⟩
    · intro filename hmem
      rw [turnTable_zero]
      exact htables filename hmem
    · simp
    · exact absurd hj (Nat.not_lt_zero j)
  · intro k hk c hturn
    by_cases hdtls : s.settings.IsDtls k
    · by_cases hserves : s.settings.Serves sm k
      · exact turn_of_serves hconf hregisters hk hserves hturn
      · exact turn_of_dtls hconf hk hdtls hserves hturn
    · exact turn_of_not_dtls hconf hregisters hk hdtls hturn

/-- Where a list was not rewritten, it is that of the last DTLS network and the station is
new to all of them, or it had what was registered before. -/
theorem written_or_same {s : Registry} {sm : send_message_mng}
    (hregisters : s.Registers sm) {filename : Str} (hmem : filename ∈ s.settings.send_lists) :
    s.turnTable sm s.settings.send_lists.length filename = Function.update (s.tables filename) sm.sid (target sm) ∨
      target sm = some sm.ip ∧ (∀ j < s.settings.send_lists.length, ¬ s.settings.Serves sm j) ∧
        ∃ l < s.settings.send_lists.length, s.settings.IsDtls l ∧ s.settings.send_lists[l]? = some filename ∧
          ∀ j < s.settings.send_lists.length, s.settings.IsDtls j → j ≤ l := by
  obtain ⟨idx, hidx, rfl⟩ := List.getElem_of_mem hmem
  have hlist : s.settings.send_lists[idx]? = some s.settings.send_lists[idx] := List.getElem?_eq_getElem hidx
  have haddress : s.address sm idx = s.tables s.settings.send_lists[idx] sm.sid := by
    rw [address, hlist]
    rfl
  have hlists := hregisters.lists idx hidx
  by_cases hwritten : ∃ j < s.settings.send_lists.length,
      s.settings.send_lists[j]? = some s.settings.send_lists[idx] ∧ s.Writes sm j
  · obtain ⟨j, hj, hlist_j, hwrites⟩ := hwritten
    exact Or.inl (turnTable_of_writes hj hlist_j hwrites)
  · have hsame : s.turnTable sm s.settings.send_lists.length s.settings.send_lists[idx] =
        s.tables s.settings.send_lists[idx] :=
      turnTable_of_not fun j hj hlist_j hwrites => hwritten ⟨j, hj, hlist_j, hwrites⟩
    have hregistered : s.address sm idx = target sm →
        s.tables s.settings.send_lists[idx] =
          Function.update (s.tables s.settings.send_lists[idx]) sm.sid (target sm) := by
      intro heq
      rw [← heq, haddress, Function.update_eq_self]
    by_cases hdelete : sm.ctl_flag = "delete".toList
    · rw [if_pos hdelete] at hlists
      have htarget : target sm = none := if_pos hdelete
      obtain ⟨-, -, ⟨-, ⟨j, hj, hshares, hserves⟩, -⟩ | ⟨hnone, -⟩⟩ := hlists
      · exact absurd ⟨j, hj, hshares.trans hlist, Or.inr hserves⟩ hwritten
      · exact Or.inl (hsame.trans (hregistered (hnone.trans htarget.symm)))
    · rw [if_neg hdelete] at hlists
      have htarget : target sm = some sm.ip := if_neg hdelete
      have hdtls : s.settings.IsDtls idx := by
        by_contra hnot
        exact hwritten ⟨idx, hidx, hlist, Or.inl hnot⟩
      rcases hlists.2 hdtls with hip | ⟨j, hj, hshares, hwrites⟩ | ⟨hnone, l, hl, hshares, hdtls_l, hlast⟩
      · exact Or.inl (hsame.trans (hregistered (hip.trans htarget.symm)))
      · exact absurd ⟨j, hj, hshares.trans hlist, hwrites⟩ hwritten
      · exact Or.inr ⟨htarget, hnone, l, hl, hdtls_l, hshares.trans hlist, hlast⟩

/-- After the loop the station is added to the last DTLS list where no DTLS network serves
it, and every list shows what was registered. -/
theorem addStation_ok {s : Registry} {sm : send_message_mng} {c : Check} (hconf : Configured s.settings)
    (hregisters : s.Registers sm) (hturn : s.Turn sm s.settings.send_lists.length c) (hname : c.dtlsFileName ≠ []) :
    ∃ files', addStation sm c = .ok files' ∧ ∀ filename ∈ s.settings.send_lists,
      Shows files' filename (Function.update (s.tables filename) sm.sid (target sm)) := by
  obtain ⟨l, hl, hdtls, hlast, hlist⟩ := hturn.name.resolve_left fun h => hname h.1
  have hmem_l := List.mem_of_getElem? hlist
  by_cases hfound : c.found_dtls_sid = true
  · refine ⟨c.files, if_pos hfound, fun filename hmem => ?_⟩
    obtain ⟨j, hj, hserves⟩ := hturn.found.mp hfound
    rcases written_or_same hregisters hmem with hwritten | ⟨-, hnone, -⟩
    · exact hwritten ▸ hturn.shows filename hmem
    · exact absurd hserves (hnone j hj)
  · have hset : target sm = some sm.ip := by
      refine if_neg fun hdelete => ?_
      have hlists := hregisters.lists l hl
      rw [if_pos hdelete] at hlists
      exact hfound (hturn.found.mpr hlists.2.1)
    obtain ⟨entries, change, files', hinit, -, hupdate, hwritten, hother⟩ :=
      updateSidIp_set (hturn.shows _ hmem_l) hregisters.fits hregisters.ip
    refine ⟨files', ?_, fun filename hmem => ?_⟩
    · simp [addStation, hfound, hinit, hupdate, bind, Except.bind, pure, Except.pure]
    · by_cases heq : filename = c.dtlsFileName
      · rw [heq, ← update_turnTable s sm s.settings.send_lists.length, hset]
        exact hwritten
      · refine Shows.congr ?_ (hother filename heq (hconf.separate filename hmem _ hmem_l))
        rcases written_or_same hregisters hmem with hwritten' | ⟨-, -, l', hl', hdtls', hlist', hlast'⟩
        · exact hwritten' ▸ hturn.shows filename hmem
        · have hll : l' = l := Nat.le_antisymm (hlast l' hl' hdtls') (hlast' l hl hdtls)
          rw [hll, hlist] at hlist'
          exact absurd (Option.some.inj hlist').symm heq

/-- Settings stay configured when stations and flags change and their numbers do not. -/
private theorem configured_progress {settings : ProcRcvSettings} (h : Configured settings) {sids : List UInt64}
    {flags : List Bool} (hsids : sids.length = settings.dtls_dest_sids.length) (hflags : flags.length = 10) :
    Configured (progress settings sids flags) where
  network_num := h.network_num
  socket_types := h.socket_types
  dtls_dest_sids := hsids.trans h.dtls_dest_sids
  threadFlags := hflags
  named := h.named
  separate := h.separate
  copy := h.copy

/-- An added network has one of the station lists that are there. -/
theorem addNetwork_ok {settings : ProcRcvSettings} (h : Configured settings) (hdtls : 2 ∈ settings.socket_types)
    (sm : send_message_mng) :
    ∃ settings', addNetwork sm settings = .ok settings' ∧ Configured settings' ∧
      ∀ filename ∈ settings'.send_lists, filename ∈ settings.send_lists := by
  obtain ⟨idx, hidx, hinterface, hport, hlist, hpacket, htype⟩ := h.copy hdtls
  have htype' : idx < settings.socket_types.length := h.socket_types ▸ hlist
  have hmem : settings.send_lists[idx] ∈ settings.send_lists := List.getElem_mem hlist
  have hsub : ∀ filename ∈ settings.send_lists ++ [settings.send_lists[idx]], filename ∈ settings.send_lists := by
    intro filename hfilename
    rcases List.mem_append.mp hfilename with hold | hnew
    · exact hold
    · exact List.mem_singleton.mp hnew ▸ hmem
  refine ⟨{ settings with
    interface_names := settings.interface_names ++ [settings.interface_names[idx]]
    udp_port_numbers := settings.udp_port_numbers ++ [settings.udp_port_numbers[idx]]
    send_lists := settings.send_lists ++ [settings.send_lists[idx]]
    socket_types := settings.socket_types ++ [2]
    cs_packet_sizes := settings.cs_packet_sizes ++ [settings.cs_packet_sizes[idx]]
    dtls_dest_sids := settings.dtls_dest_sids ++ [sm.sid]
    network_num := settings.network_num + 1 }, ?_, ?_, hsub⟩
  · simp only [addNetwork, set_dtls_conf_copy, hidx, subscript_of_getElem? (List.getElem?_eq_getElem hinterface),
      subscript_of_getElem? (List.getElem?_eq_getElem hport), subscript_of_getElem? (List.getElem?_eq_getElem hlist),
      subscript_of_getElem? (List.getElem?_eq_getElem hpacket), subscript_of_getElem? htype, bind, Except.bind, pure,
      Except.pure]
  · have hnum := h.network_num
    have htypes := h.socket_types
    have hsids := h.dtls_dest_sids
    have hlt {α : Type} {v : List α} (a : α) (hv : idx < v.length) : idx < (v ++ [a]).length := by
      rw [List.length_append]
      exact Nat.lt_add_right _ hv
    refine ⟨?_, ?_, ?_, h.threadFlags, ?_, ?_, fun _ => ⟨idx, hidx, hlt _ hinterface, hlt _ hport, hlt _ hlist,
      hlt _ hpacket, ?_⟩⟩
    · simp [hnum]
    · simp [htypes]
    · simp [hsids]
    · exact fun filename hfilename => h.named filename (hsub filename hfilename)
    · exact fun filename hfilename other hother =>
        h.separate filename (hsub filename hfilename) other (hsub other hother)
    · exact (List.getElem?_append_left htype').trans htype

/-- One registration: the call returns, and every list shows what was registered. -/
theorem step_ok {s : Registry} {sm : send_message_mng} (hconf : Configured s.settings)
    (htables : ∀ filename ∈ s.settings.send_lists, Shows s.files filename (s.tables filename))
    (hregisters : s.Registers sm) :
    ∃ s', step s sm = .ok s' ∧ Configured s'.settings ∧
      ∀ filename ∈ s'.settings.send_lists, Shows s'.files filename (s'.tables filename) := by
  obtain ⟨c, hloop, hturn⟩ := exists_turn hconf hregisters htables
  obtain ⟨sids, flags, hsettings, hsids, hflags, -⟩ := hturn.settings
  have hconf' := configured_progress hconf hsids hflags
  rw [← hsettings] at hconf'
  have hlists : c.settings.send_lists = s.settings.send_lists := by rw [hsettings]; rfl
  have hinvalid : ¬ (sm.sid = 0 ∨ sm.ip = []) := by
    rintro (hzero | hempty)
    · exact hregisters.sid_ne hzero
    · exact hregisters.ip.1 hempty
  have hnum : s.settings.network_num.toNat = s.settings.send_lists.length := by
    rw [hconf.network_num, Int.toNat_natCast]
  unfold step sid_update_check
  rw [if_neg hinvalid, hnum, hloop]
  by_cases hname : c.dtlsFileName = []
  · refine ⟨⟨c.settings, c.files, fun filename => Function.update (s.tables filename) sm.sid (target sm)⟩, ?_, hconf', ?_⟩
    · simp [hname, bind, Except.bind, pure, Except.pure, Except.map]
    · intro filename hmem
      rw [hlists] at hmem
      rcases written_or_same hregisters hmem with hwritten | ⟨-, -, l, hl, hdtls, hlist, -⟩
      · have hshows := hturn.shows filename hmem
        rwa [hwritten] at hshows
      · rcases hturn.name with ⟨-, hnone⟩ | ⟨l', hl', -, -, hlist'⟩
        · exact absurd hdtls (hnone l hl)
        · exact absurd hname (hconf.named _ (List.mem_of_getElem? hlist'))
  · obtain ⟨files', hadd, hshows⟩ := addStation_ok hconf hregisters hturn hname
    by_cases hnew : c.found_dtls_sid = false ∨ c.update_dtls_sid = true
    · obtain ⟨l, -, hdtls, -⟩ := hturn.name.resolve_left fun h => hname h.1
      have hdtls' : 2 ∈ c.settings.socket_types := by
        rw [hsettings]
        exact List.mem_of_getElem? hdtls
      obtain ⟨settings', hnetwork, hconf'', hsub⟩ := addNetwork_ok hconf' hdtls' sm
      refine ⟨⟨settings', files', fun filename => Function.update (s.tables filename) sm.sid (target sm)⟩, ?_, hconf'', ?_⟩
      · simp [hname, hadd, hnew, hnetwork, bind, Except.bind, pure, Except.pure, Except.map]
      · exact fun filename hmem => hshows filename (hlists ▸ hsub filename hmem)
    · refine ⟨⟨c.settings, files', fun filename => Function.update (s.tables filename) sm.sid (target sm)⟩, ?_, hconf', ?_⟩
      · simp [hname, hadd, hnew, bind, Except.bind, pure, Except.pure, Except.map]
      · exact fun filename hmem => hshows filename (hlists ▸ hmem)

/-- After every registration of a run that meets the condition, each station list is read
back as what was registered, and no call ends with an exception. -/
theorem correct_of_registers {s : Registry} (hconf : Configured s.settings)
    (htables : ∀ filename ∈ s.settings.send_lists, Shows s.files filename (s.tables filename))
    {messages : List send_message_mng} (h : Along step Registers s messages) :
    Throughout step (fun _ => True) Correct s messages := by
  refine Throughout.imp (P := fun s => Configured s.settings ∧
    ∀ filename ∈ s.settings.send_lists, Shows s.files filename (s.tables filename)) ?_
      (Throughout.of_along ?_ ?_ ⟨hconf, htables⟩ h)
  · exact fun s hs filename hmem => (hs.2 filename hmem).agrees
  · rintro s sm s' ⟨hs, hs'⟩ hregisters hstep
    obtain ⟨t, ht, hprop⟩ := step_ok hs hs' hregisters
    obtain rfl := Except.ok.inj (ht.symm.trans hstep)
    exact hprop
  · rintro s sm e ⟨hs, hs'⟩ hregisters hstep
    obtain ⟨t, ht, -⟩ := step_ok hs hs' hregisters
    rw [ht] at hstep
    cases hstep

/-- One network that is not DTLS, with one station in its list. -/
def oneNetwork : Registry where
  settings :=
    { network_num := 1
      interface_names := ["eth0".toList]
      udp_port_numbers := ["55555".toList]
      send_lists := ["send.csv".toList]
      socket_types := [0]
      cs_packet_sizes := [1442]
      socket_priorities := [-1]
      dtls_dest_sids := [0]
      udp_etm_aes_keys := [[]] }
  files := fun filename => List.lookup filename [("send.csv".toList, "5,10.0.0.5\n".toList)]
  tables := fun _ sid => List.lookup sid [(5, "10.0.0.5".toList)]

private theorem not_isDtls_oneNetwork (idx : Nat) : ¬ oneNetwork.settings.IsDtls idx := by
  intro h
  have hmem : 2 ∈ oneNetwork.settings.socket_types := List.mem_of_getElem? h
  exact absurd hmem (by decide)

private theorem configured_oneNetwork : Configured oneNetwork.settings where
  network_num := rfl
  socket_types := rfl
  dtls_dest_sids := rfl
  threadFlags := rfl
  named := by decide
  separate := by decide
  copy := fun hdtls => absurd hdtls (by decide)

private theorem shows_oneNetwork : ∀ filename ∈ oneNetwork.settings.send_lists,
    Shows oneNetwork.files filename (oneNetwork.tables filename) := by
  intro filename hmem
  obtain rfl := List.mem_singleton.mp hmem
  refine ⟨"5,10.0.0.5\n".toList, [(5, "10.0.0.5".toList)], rfl, ⟨?_, by decide, by decide⟩, fun _ => rfl⟩
  exact .cons ⟨"5".toList, rfl, by decide, List.all_eq_true.mp (by decide), rfl, by decide, by decide⟩ .nil

/-- A new station registers at a network with one table, and is in the file and the sender's
list afterwards. -/
theorem correct_of_registers_oneNetwork :
    Throughout step (fun _ => True) Correct oneNetwork [⟨7, "10.0.0.7".toList, []⟩] := by
  refine correct_of_registers configured_oneNetwork shows_oneNetwork (Along.cons ?_ fun _ _ => trivial)
  refine ⟨by decide, by decide, ⟨by decide, by decide, by decide⟩, ?_, ?_⟩
  · intro idx hidx _
    exact hidx.trans (by decide)
  · intro idx _
    rw [if_neg (by decide)]
    exact ⟨fun hserves => absurd hserves.1 (not_isDtls_oneNetwork idx), fun h => absurd h (not_isDtls_oneNetwork idx)⟩

/-- A deletion that a network which is not DTLS takes for a registration. -/
theorem delete_not_correct :
    ¬ Throughout step (fun _ => True) Correct oneNetwork [⟨5, "10.0.0.5".toList, "delete".toList⟩] := by
  intro h
  have hread : (step oneNetwork ⟨5, "10.0.0.5".toList, "delete".toList⟩).map (fun s =>
      (s.settings.send_lists, init s.files "send.csv".toList, s.tables "send.csv".toList 5)) =
        .ok (["send.csv".toList], .ok [(5, "10.0.0.5".toList)], none) := rfl
  obtain ⟨s', hstep, hs'⟩ := Except.map_eq_ok_iff.mp hread
  obtain ⟨hlists, hinit, htable⟩ : s'.settings.send_lists = ["send.csv".toList] ∧
      init s'.files "send.csv".toList = .ok [(5, "10.0.0.5".toList)] ∧ s'.tables "send.csv".toList 5 = none := by
    simpa only [Prod.mk.injEq] using hs'
  have hcorrect : Correct s' := by
    refine h.final ?_
    rw [run, hstep]
    rfl
  obtain ⟨sid_ip_map, hmap, -, hlookup⟩ := hcorrect "send.csv".toList (hlists ▸ List.mem_singleton_self _)
  obtain rfl := Except.ok.inj (hinit.symm.trans hmap)
  exact absurd ((hlookup 5).trans htable) (by decide)

end Registry

end ProcReceiver

end IS

import Dm20.Lib.Run
import Dm20.CsLib.Reassembly

open Run Slots

namespace IS

open Socket SocketUtil UnorderedMap

/-- A message and how its station cuts it into packets, where the arithmetic on
its size does not overflow. -/
structure Message where
  src : send_message_vector
  send_size : Int
  duplication_id : UInt64
  uninitialized : Nat → Char
  positive : 1 ≤ send_size - sizeof_send_message_header
  size : send_size - sizeof_send_message_header ≤ MSGSIZE
  sum : src.dm2_payload.length + (send_size - sizeof_send_message_header).toNat < 2 ^ 31

namespace Message

def division_size (m : Message) : Nat :=
  (m.send_size - sizeof_send_message_header).toNat

/-- A message that does not fit into one packet. -/
def IsCut (m : Message) : Prop :=
  m.division_size < m.src.dm2_payload.length

instance (m : Message) : Decidable m.IsCut :=
  inferInstanceAs (Decidable (_ < _))

def parts (m : Message) : List Str :=
  chunks m.division_size m.src.dm2_payload

/-- The station and the sequence number, which tell messages apart. -/
def id (m : Message) : UInt64 × UInt64 :=
  (m.src.header.src_station_id, m.duplication_id)

/-- The key of a message at the receiver. -/
def key (m : Message) : Str :=
  partsKey m.src m.duplication_id

/-- The packets that the station of a message sends. -/
def Packet (m : Message) (i : Nat) (buf : send_message) : Prop :=
  ∃ fragments, convertToSendMessage m.src m.send_size m.duplication_id m.uninitialized = .ok fragments ∧
    fragments[i]? = some buf

private theorem division_size_bounds (m : Message) : 1 ≤ m.division_size ∧ m.division_size ≤ MSGSIZE := by
  have hpositive := m.positive
  have hsize := m.size
  rw [division_size]
  omega

private theorem int_division_size (m : Message) :
    int (m.send_size - sizeof_send_message_header) = .ok m.division_size := by
  obtain ⟨hpositive, hsize⟩ := m.division_size_bounds
  have hdivision : m.send_size - sizeof_send_message_header = m.division_size := by
    rw [division_size, Int.toNat_of_nonneg (le_trans (by decide) m.positive)]
  rw [MSGSIZE] at hsize
  rw [hdivision]
  exact int_eq_ok (by omega)

private theorem length_parts_lt (m : Message) : m.parts.length < 2 ^ 31 - 1 := by
  obtain ⟨hpositive, -⟩ := m.division_size_bounds
  have hcount := count_le_length hpositive m.src.dm2_payload
  have hsum := m.sum
  rw [← division_size] at hsum
  rw [parts, length_chunks]
  omega

private theorem flatten_parts (m : Message) : m.parts.flatten = m.src.dm2_payload :=
  flatten_chunks m.division_size_bounds.1 _

/-- A message that is cut has two parts at least; one part is sent without a cut. -/
theorem IsCut.several {m : Message} (hm : m.IsCut) : 2 ≤ m.parts.length := by
  rw [parts, length_chunks]
  exact two_le_count m.division_size_bounds.1 hm

/-- The one packet of a message that fits into it. -/
theorem Packet.whole {m : Message} (hm : ¬ m.IsCut) {i : Nat} {buf : send_message} (h : m.Packet i buf) :
    buf.header.flagment_sum = 1 ∧ buf.bytes = .ok m.src.dm2_payload := by
  obtain ⟨fragments, hfragments, hi⟩ := h
  obtain ⟨-, hsize⟩ := m.division_size_bounds
  have hlength : m.src.dm2_payload.length ≤ m.division_size := Nat.le_of_not_lt hm
  rw [convertToSendMessage_whole hsize hlength m.int_division_size] at hfragments
  obtain rfl := Except.ok.inj hfragments
  obtain rfl := List.mem_singleton.mp (List.mem_of_getElem? hi)
  exact ⟨rfl, bytes_memcpy (hlength.trans hsize) rfl rfl⟩

/-- A packet of a message that is cut. -/
theorem Packet.isFragment {m : Message} (hm : m.IsCut) {i : Nat} {buf : send_message} (h : m.Packet i buf) :
    i < m.parts.length ∧ IsFragment m.parts m.key i buf := by
  obtain ⟨fragments, hfragments, hi⟩ := h
  obtain ⟨hpositive, hsize⟩ := m.division_size_bounds
  rw [convertToSendMessage_parts hpositive hsize m.sum hm m.int_division_size] at hfragments
  obtain rfl := Except.ok.inj hfragments
  obtain ⟨hlt, rfl⟩ := List.getElem?_eq_some_iff.mp hi
  rw [List.length_map, List.length_range] at hlt
  have hcount := m.length_parts_lt
  rw [parts, length_chunks] at hcount
  rw [List.getElem_map, List.getElem_range]
  refine ⟨?_, isFragment_part hsize (by omega) m.duplication_id m.uninitialized hlt⟩
  rw [parts, length_chunks]
  exact hlt

end Message

/-- The messages that some stations send. Those that are cut differ in the station
or in the sequence number. -/
structure Network where
  sent : Message → Prop
  distinct : ∀ m m', sent m → sent m' → m.IsCut → m'.IsCut → m.id = m'.id → m = m'

/-- A packet that comes, with the clock reading at it. -/
structure Arrival (network : Network) where
  now : Int
  message : Message
  sent : network.sent message
  i : Nat
  buf : send_message
  packet : message.Packet i buf

/-- A receiver: its maps, the payloads it has given, and beside them for each entry
the message of the packet that made it and the numbers of the packets that came to
it since. -/
structure Reception where
  maps : Maps := {}
  entries : Str → Option (Message × List Nat) := fun _ => none
  delivered : List Str := []

namespace Reception

variable {network : Network}

/-- The record of an entry after a packet. -/
def note (a : Arrival network) (vector : Option (List Str)) : Option (Message × List Nat) → Option (Message × List Nat)
  | none => vector.map fun _ => (a.message, [a.i])
  | some (m, done) => vector.map fun _ => (m, a.i :: done)

/-- A packet is taken in. -/
def step (memory : Nat → Bool) (s : Reception) (a : Arrival network) : Except Failure Reception :=
  match combineFragment memory a.now a.buf s.maps with
  | (.error e, _) => .error e
  | (.ok answer, maps) => .ok {
      maps
      entries :=
        if a.buf.header.flagment_sum = 1 then s.entries
        else
          let key := SocketUtil.key a.buf.header
          Function.update s.entries key (note a (maps.combination key) (s.entries key))
      delivered := (answer.map send_message_vector.dm2_payload).toList ++ s.delivered }

/-- Each payload given is that of a message somebody sent. -/
def Sound (network : Network) (s : Reception) : Prop :=
  ∀ payload ∈ s.delivered, ∃ m, network.sent m ∧ payload = m.src.dm2_payload

/-- A packet comes to an entry of its own message and not for a second time, and
where it is the last one, the size of the message in bytes does not overflow. -/
def Belongs (a : Arrival network) : Option (Message × List Nat) → Prop
  | none => True
  | some (m, done) => m.id = a.message.id ∧ a.i ∉ done ∧
      (done.length + 1 = a.message.parts.length → MSGSIZE * a.message.parts.length < 2 ^ 31)

instance (a : Arrival network) : DecidablePred (Belongs a)
  | none => inferInstanceAs (Decidable True)
  | some (_, _) => inferInstanceAs (Decidable (_ ∧ _ ∧ _))

/-- The condition on a packet that comes. -/
def Orderly (s : Reception) (a : Arrival network) : Prop :=
  a.message.IsCut → Belongs a (s.entries a.message.key)

instance (s : Reception) (a : Arrival network) : Decidable (Orderly s a) :=
  inferInstanceAs (Decidable (_ → _))

/-- What an entry holds when packets of one message came to it, each once. -/
structure Pending (network : Network) (key : Str) (vector : Option (List Str)) (m : Message)
    (done : List Nat) : Prop where
  sent : network.sent m
  isCut : m.IsCut
  key_eq : m.key = key
  nodup : done.Nodup
  lt : ∀ i ∈ done, i < m.parts.length
  missing : done.length < m.parts.length
  vector_eq : vector = some (entry m.parts (m.parts.length - done.length) done)

/-- An entry and its record agree. -/
def Agrees (network : Network) (key : Str) (vector : Option (List Str)) : Option (Message × List Nat) → Prop
  | none => vector = none
  | some (m, done) => Pending network key vector m done

structure Inv (network : Network) (s : Reception) : Prop where
  agrees : ∀ key, Agrees network key (s.maps.combination key) (s.entries key)
  sound : Sound network s

/-- Before any packet the maps are empty, so nothing is in them that was not sent. -/
theorem Inv.init (network : Network) : Inv network {} where
  agrees := fun _ => rfl
  sound := fun _ h => absurd h List.not_mem_nil

/-- Entries under other keys agree with their records as before. -/
theorem agrees_update {s : Reception} (hinv : Inv network s) {key : Str} {vector : Option (List Str)}
    {record : Option (Message × List Nat)} (h : Agrees network key vector record) (key' : Str) :
    Agrees network key' (Function.update s.maps.combination key vector key') (Function.update s.entries key record key') := by
  by_cases hkey : key' = key
  · subst hkey
    rw [Function.update_self, Function.update_self]
    exact h
  · rw [Function.update_of_ne hkey, Function.update_of_ne hkey]
    exact hinv.agrees key'

/-- The step of a packet that is answered with a new entry, or with the message. -/
theorem step_eq {memory : Nat → Bool} {s : Reception} {a : Arrival network} {answer : Option send_message_vector}
    {time : Option Int} {vector : Option (List Str)} (hsum : a.buf.header.flagment_sum ≠ 1)
    (hkey : SocketUtil.key a.buf.header = a.message.key)
    (h : combineFragment memory a.now a.buf s.maps = (.ok answer, s.maps.put a.message.key time vector)) :
    step memory s a = .ok
      { maps := s.maps.put a.message.key time vector
        entries := Function.update s.entries a.message.key (note a vector (s.entries a.message.key))
        delivered := (answer.map send_message_vector.dm2_payload).toList ++ s.delivered } := by
  rw [step, h]
  simp only [if_neg hsum, hkey, Maps.put_combination]

/-- The packet of a message that is not cut. -/
theorem step_whole (memory : Nat → Bool) {s : Reception} (hinv : Inv network s) {a : Arrival network}
    (hcut : ¬ a.message.IsCut) : ∃ s', step memory s a = .ok s' ∧ Inv network s' := by
  obtain ⟨hsum, hbytes⟩ := a.packet.whole hcut
  have hwhole := combineFragment_whole memory a.now hsum s.maps
  rw [hbytes] at hwhole
  refine ⟨{ s with delivered := a.message.src.dm2_payload :: s.delivered }, ?_, hinv.agrees, ?_⟩
  · rw [step, hwhole]
    simp only [if_pos hsum]
    rfl
  · intro payload hpayload
    obtain rfl | hpayload := List.mem_cons.mp hpayload
    · exact ⟨a.message, a.sent, rfl⟩
    · exact hinv.sound payload hpayload

/-- The first packet of a message. -/
theorem step_first (memory : Nat → Bool) {s : Reception} (hinv : Inv network s) {a : Arrival network}
    (hcut : a.message.IsCut) (hentry : s.entries a.message.key = none) :
    step memory s a = .error .bad_alloc ∨ ∃ s', step memory s a = .ok s' ∧ Inv network s' := by
  obtain ⟨hi, hbuf⟩ := a.packet.isFragment hcut
  have hnone := hinv.agrees a.message.key
  rw [hentry] at hnone
  have hfirst := combineFragment_first memory hcut.several a.message.length_parts_lt hbuf hnone a.now
  by_cases hmemory : memory (sizeof_string * (a.message.parts.length + 1)) = true
  · rw [if_pos hmemory] at hfirst
    refine .inr ⟨_, step_eq (hbuf.flagment_sum_ne hcut.several) hbuf.key_eq hfirst, agrees_update hinv ?_, hinv.sound⟩
    rw [hentry]
    exact {
      sent := a.sent
      isCut := hcut
      key_eq := rfl
      nodup := List.pairwise_singleton _ a.i
      lt := fun i h => by
        obtain rfl := List.mem_singleton.mp h
        exact hi
      missing := hcut.several
      vector_eq := rfl }
  · rw [if_neg hmemory] at hfirst
    rw [step, hfirst]
    exact .inl rfl

/-- A further packet of a message. -/
theorem step_next (memory : Nat → Bool) {s : Reception} (hinv : Inv network s) {a : Arrival network}
    (hcut : a.message.IsCut) {done : List Nat} (hentry : s.entries a.message.key = some (a.message, done))
    (hnew : a.i ∉ done) (hbytes : done.length + 1 = a.message.parts.length →
    MSGSIZE * a.message.parts.length < 2 ^ 31) :
    step memory s a = .error .bad_alloc ∨ ∃ s', step memory s a = .ok s' ∧ Inv network s' := by
  obtain ⟨hi, hbuf⟩ := a.packet.isFragment hcut
  have hpending := hinv.agrees a.message.key
  rw [hentry] at hpending
  have hlt := a.message.length_parts_lt
  have hmissing := hpending.missing
  have hne := flatten_arrived_ne_nil (ne_nil_of_mem_chunks a.message.division_size_bounds.1) hi
    (List.mem_cons_self (a := a.i) (l := done))
  have hnodup : (a.i :: done).Nodup := List.nodup_cons.mpr ⟨hnew, hpending.nodup⟩
  have hbound : ∀ i ∈ a.i :: done, i < a.message.parts.length := by
    intro i h
    obtain rfl | h := List.mem_cons.mp h
    · exact hi
    · exact hpending.lt i h
  have hnext := combineFragment_next memory hcut.several hlt hbuf (by omega) (fun h => hbytes (by omega)) hne hpending.vector_eq a.now
  by_cases hlast : done.length + 1 = a.message.parts.length
  · rw [if_pos (by omega)] at hnext
    by_cases hmemory : memory (MSGSIZE * a.message.parts.length) = true
    · rw [if_pos hmemory] at hnext
      refine .inr ⟨_, step_eq (hbuf.flagment_sum_ne hcut.several) hbuf.key_eq hnext, agrees_update hinv ?_, ?_⟩
      · rw [hentry]
        rfl
      · intro payload hpayload
        obtain rfl | hpayload := List.mem_cons.mp hpayload
        · refine ⟨a.message, a.sent, ?_⟩
          rw [arrived_of_forall (forall_mem_of_length hnodup hbound hlast), a.message.flatten_parts]
        · exact hinv.sound payload hpayload
    · rw [if_neg hmemory] at hnext
      rw [step, hnext]
      exact .inl rfl
  · rw [if_neg (by omega)] at hnext
    refine .inr ⟨_, step_eq (hbuf.flagment_sum_ne hcut.several) hbuf.key_eq hnext, agrees_update hinv ?_, hinv.sound⟩
    rw [hentry]
    exact {
      sent := a.sent
      isCut := hcut
      key_eq := rfl
      nodup := hnodup
      lt := hbound
      missing := by
        rw [List.length_cons]
        omega
      vector_eq := by
        rw [List.length_cons]
        congr 2
        omega }

/-- What a packet that meets the condition does. -/
theorem step_cases (memory : Nat → Bool) {s : Reception} (hinv : Inv network s) {a : Arrival network}
    (ha : Orderly s a) :
    step memory s a = .error .bad_alloc ∨ ∃ s', step memory s a = .ok s' ∧ Inv network s' := by
  by_cases hcut : a.message.IsCut
  · have hbelongs := ha hcut
    cases hentry : s.entries a.message.key with
    | none => exact step_first memory hinv hcut hentry
    | some record =>
      obtain ⟨m, done⟩ := record
      have hpending := hinv.agrees a.message.key
      rw [hentry] at hbelongs hpending
      obtain ⟨hid, hnew, hbytes⟩ := hbelongs
      obtain rfl := network.distinct m a.message hpending.sent a.sent hpending.isCut hcut hid
      exact step_next memory hinv hcut hentry hnew hbytes
  · exact .inr (step_whole memory hinv hcut)

/-- Whatever packets come, lost, doubled and mixed: where each packet of a message
that is cut finds no entry under its key or one of its own message that it has not
come to before, only messages that were sent are given. -/
theorem onlySent_of_orderly (memory : Nat → Bool) (network : Network) (arrivals : List (Arrival network))
    (h : Along (step memory) Orderly {} arrivals) :
    Throughout (step memory) (· ≠ .bad_alloc) (Sound network) {} arrivals := by
  have hinv : Throughout (step memory) (· ≠ .bad_alloc) (Inv network) {} arrivals := by
    refine Throughout.of_along ?_ ?_ (Inv.init network) h
    · intro s a s' hs ha hstep
      obtain herror | ⟨t, ht, hinv⟩ := step_cases memory hs ha
      · rw [herror] at hstep
        cases hstep
      · obtain rfl := Except.ok.inj (ht.symm.trans hstep)
        exact hinv
    · intro s a e hs ha hstep
      obtain herror | ⟨t, ht, -⟩ := step_cases memory hs ha
      · obtain rfl := Except.error.inj (herror.symm.trans hstep)
        exact fun hne => hne rfl
      · rw [ht] at hstep
        cases hstep
  exact hinv.imp fun s hs => hs.sound

section ThreeBytes

/-- A message of three bytes in packets of two. -/
def threeBytes : Message where
  src := { header := {}, dm2_payload := "abc".toList }
  send_size := 170
  duplication_id := 7
  uninitialized := fun _ => ' '
  positive := by decide
  size := by decide
  sum := by decide

def threeBytesNetwork : Network where
  sent := fun m => m = threeBytes
  distinct := fun _ _ hm hm' _ _ _ => hm.trans hm'.symm

def threeBytesArrival (i : Fin 2) : Arrival threeBytesNetwork where
  now := 0
  message := threeBytes
  sent := rfl
  i := i
  buf := part threeBytes.src 2 7 threeBytes.uninitialized i
  packet := by
    have hparts := convertToSendMessage_parts (by decide) (by decide) threeBytes.sum (by decide)
      threeBytes.int_division_size threeBytes.duplication_id threeBytes.uninitialized
    refine ⟨_, hparts, ?_⟩
    rw [List.getElem?_map, List.getElem?_range (by exact i.isLt)]
    rfl

/-- The second packet of a message arrives before the first one, and the message is handed on as
it was sent. -/
theorem onlySent_of_orderly_outOfOrder :
    Throughout (step fun _ => true) (· ≠ .bad_alloc) (Sound threeBytesNetwork) {}
      [threeBytesArrival 1, threeBytesArrival 0] :=
  onlySent_of_orderly (fun _ => true) threeBytesNetwork [threeBytesArrival 1, threeBytesArrival 0] (by decide +kernel)

/-- A packet that comes twice stands in for the one that is missing. -/
theorem doubled_not_onlySent :
    ¬ ∀ (memory : Nat → Bool) (network : Network) (arrivals : List (Arrival network)),
      Throughout (step memory) (· ≠ .bad_alloc) (Sound network) {} arrivals := by
  intro h
  have hall := h (fun _ => true) threeBytesNetwork [threeBytesArrival 0, threeBytesArrival 0]
  cases hrun : run (step fun _ => true) {} [threeBytesArrival 0, threeBytesArrival 0] with
  | error e =>
    have hok : (run (step fun _ => true) {} [threeBytesArrival 0, threeBytesArrival 0]).isOk = true := by decide +kernel
    rw [hrun] at hok
    cases hok
  | ok s =>
    have hdelivered : ((run (step fun _ => true) {} [threeBytesArrival 0, threeBytesArrival 0]).map delivered).toOption =
        some ["ab".toList] := by decide +kernel
    rw [hrun] at hdelivered
    have hmem : "ab".toList ∈ s.delivered := by
      rw [Option.some.inj hdelivered]
      exact List.mem_singleton.mpr rfl
    obtain ⟨m, rfl, hpayload⟩ := hall.final hrun _ hmem
    exact absurd hpayload (by decide)

end ThreeBytes

end Reception

end IS

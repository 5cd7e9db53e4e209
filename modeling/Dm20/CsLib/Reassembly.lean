import Dm20.Lib.Except
import Dm20.CsLib.SocketUtil

open Slots

namespace IS

/-- A packet holds a part of a message of several parts. -/
structure IsFragment (parts : List Str) (key : Str) (i : Nat) (buf : send_message) : Prop where
  part : ∃ part, parts[i]? = some part ∧ buf.bytes = .ok part
  flagment_sum : buf.header.flagment_sum.toInt = parts.length
  flagment_offset : buf.header.flagment_offset.toInt = i
  key_eq : SocketUtil.key buf.header = key

/-- A fragment of several states another sum than 1, which stands for a whole message. -/
theorem IsFragment.flagment_sum_ne {parts : List Str} {key : Str} {i : Nat} {buf : send_message}
    (hbuf : IsFragment parts key i buf) (hseveral : 2 ≤ parts.length) : buf.header.flagment_sum ≠ 1 := by
  intro h
  have hone := hbuf.flagment_sum
  rw [h] at hone
  have hlength : (parts.length : Int) = 1 := hone.symm
  omega

/-- A number of parts that the packets of a message can be counted by, and for
which memory is granted. -/
structure Countable (memory : Nat → Bool) (n : Nat) : Prop where
  several : 2 ≤ n
  bytes : MSGSIZE * n < 2 ^ 31
  vector : memory (sizeof_string * (n + 1)) = true
  text : memory (MSGSIZE * n) = true

/-- Fewer than 33555 packets are countable, since the size of their message is an `int`. -/
theorem Countable.lt {memory : Nat → Bool} {n : Nat} (h : Countable memory n) : n < 33555 := by
  have hbytes := h.bytes
  rw [MSGSIZE] at hbytes
  omega

/-- The maps with the time and the entry of one key. -/
def Maps.put (maps : Maps) (key : Str) (time : Option Int) (vector : Option (List Str)) : Maps where
  receive_time := Function.update maps.receive_time key time
  combination := Function.update maps.combination key vector

@[simp] theorem Maps.put_put (maps : Maps) (key : Str) (time time' : Option Int) (vector vector' : Option (List Str)) :
    (maps.put key time vector).put key time' vector' = maps.put key time' vector' := by
  simp only [put, Function.update_idem]

@[simp] theorem Maps.put_combination (maps : Maps) (key : Str) (time : Option Int) (vector : Option (List Str)) :
    (maps.put key time vector).combination key = vector :=
  Function.update_self ..

/-- A key without entries is not there. -/
theorem Maps.put_none {maps : Maps} {key : Str} (htime : maps.receive_time key = none)
    (hvector : maps.combination key = none) : maps.put key none none = maps := by
  have htime' := Function.update_eq_self key maps.receive_time
  have hvector' := Function.update_eq_self key maps.combination
  rw [htime] at htime'
  rw [hvector] at hvector'
  rw [put, htime', hvector']

namespace UnorderedMap

private theorem int_succ {i : Nat} (hi : i < 2 ^ 31 - 1) : int ((i : Int) + 1) = .ok ((i + 1 : Nat) : Int) := by
  rw [Int.natCast_succ]
  exact int_eq_ok (by omega)

private theorem atPos_natCast {α : Type} {v : List α} {i : Nat} (hi : i < v.length) : atPos v i = .ok i :=
  if_pos ⟨Int.natCast_nonneg i, Int.ofNat_lt.mpr hi⟩

/-- The entry of a message: the number of missing packets and the parts that are there. -/
def entry (parts : List Str) (missing : Int) (done : List Nat) : List Str :=
  to_string_int missing :: arrived parts done

private theorem set_entry {parts : List Str} {i : Nat} {part : Str} (hpart : parts[i]? = some part) (missing : Int)
    (done : List Nat) : (entry parts missing done).set (i + 1) part = entry parts missing (i :: done) := by
  rw [entry, List.set_cons_succ, set_arrived hpart]
  rfl

/-- The first packet of a message makes its entry, where there is memory for it. -/
theorem insertVector_eq (memory : Nat → Bool) {parts : List Str} (hlt : parts.length < 2 ^ 31 - 1) {i : Nat}
    {part : Str} (hpart : parts[i]? = some part) (m : UnorderedMap Str (List Str)) (key : Str) :
    m.UnorderedMapInsertVectorPlusSize memory key parts.length i part =
      if memory (sizeof_string * (parts.length + 1)) then
        .ok (Function.update m key (some (entry parts (parts.length - 1) [i])))
      else .error .bad_alloc := by
  obtain ⟨hi, -⟩ := List.getElem?_eq_some_iff.mp hpart
  have hsize := int_succ (i := parts.length) (by omega)
  have htotal : int ((parts.length : Int) - 1) = .ok ((parts.length : Int) - 1) := int_eq_ok (by omega)
  have hplace := int_succ (i := i) (by omega)
  have hfirst : atPos (List.replicate (parts.length + 1) ([] : Str)) 0 = .ok 0 := atPos_natCast (by simp)
  have hdata : (List.replicate (parts.length + 1) ([] : Str)).set 0 (to_string_int (parts.length - 1)) =
      entry parts (parts.length - 1) [] := by
    rw [entry, arrived_nil, List.replicate_succ, List.set_cons_zero]
  have hindex : atPos (entry parts (parts.length - 1) []) ((i + 1 : Nat) : Int) = .ok (i + 1) :=
    atPos_natCast (by simpa [entry] using hi)
  cases hmemory : memory (sizeof_string * (parts.length + 1)) with
  | true =>
    simp only [UnorderedMapInsertVectorPlusSize, hsize, htotal, hplace, bind, Except.bind, pure, Except.pure,
      Int.toNat_natCast, hmemory, hfirst, hdata, hindex, set_entry hpart]
    rfl
  | false =>
    simp only [UnorderedMapInsertVectorPlusSize, hsize, bind, Except.bind, Int.toNat_natCast, hmemory]
    rfl

/-- A further packet puts its part in and counts one missing packet less. -/
theorem updateVector_eq {parts : List Str} {missing : Int} (hmissing : 1 ≤ missing ∧ missing < 2 ^ 31) {i : Nat}
    {part : Str} (hpart : parts[i]? = some part) (hi : i < 2 ^ 31 - 1) {done : List Nat}
    {m : UnorderedMap Str (List Str)}
    {key : Str} (hm : m key = some (entry parts missing done)) :
    m.UnorderedMapUpdateVectorValueThenDecrease key i part =
      (.ok (), Function.update m key (some (entry parts (missing - 1) (i :: done)))) := by
  obtain ⟨hlt, -⟩ := List.getElem?_eq_some_iff.mp hpart
  have htotal : stoi (to_string_int missing) = .ok (Int32.ofInt missing) := stoi_to_string_int (by omega)
  have hcount : int ((Int32.ofInt missing).toInt - 1) = .ok (missing - 1) := by
    rw [Int32.toInt_ofInt_of_le (by omega) (by omega)]
    exact int_eq_ok (by omega)
  have hplace := int_succ (i := i) (by omega)
  have hindex : atPos (to_string_int (missing - 1) :: arrived parts done) ((i + 1 : Nat) : Int) = .ok (i + 1) :=
    atPos_natCast (by simpa using hlt)
  have hset := set_entry hpart (missing - 1) done
  simp only [UnorderedMapUpdateVectorValueThenDecrease, hm, Option.getD_some, entry, htotal, hcount, hplace, bind,
    Except.bind, hindex] at hset ⊢
  rw [hset]

/-- The entry is taken out when no packet is missing, where there is memory for
the text. -/
theorem combine_eq (memory : Nat → Bool) {parts : List Str} {n : Nat} {missing : Int}
    (hn : missing = 0 → MSGSIZE * n < 2 ^ 31) {done : List Nat} {m : UnorderedMap Str (List Str)} {key : Str}
    (hm : m key = some (entry parts missing done)) :
    m.UnorderedMapVectorCombineAndDeletePlusSize memory key n =
      if missing = 0 then
        if memory (MSGSIZE * n) then (.ok (arrived parts done).flatten, Function.update m key none)
        else (.error .bad_alloc, m)
      else (.ok [], m) := by
  have hzero : to_string_int missing = "0".toList ↔ missing = 0 := by
    rw [show "0".toList = to_string_int 0 from rfl]
    exact to_string_int_injective.eq_iff
  simp only [UnorderedMapVectorCombineAndDeletePlusSize, hm, entry, hzero]
  by_cases h : missing = 0
  · have hbytes : int (MSGSIZE * n) = .ok ((MSGSIZE * n : Nat) : Int) := by
      have hlt := hn h
      rw [← Int.natCast_mul]
      exact int_eq_ok (by omega)
    subst h
    rw [if_pos rfl, if_pos rfl, hbytes]
    simp only [Int.toNat_natCast]
    rw [if_neg (by omega)]
    by_cases hmemory : memory (MSGSIZE * n) = true
    · rw [if_neg (by simp [hmemory]), if_pos hmemory]
      rfl
    · rw [if_pos (by simp [hmemory]), if_neg hmemory]
  · rw [if_neg h, if_neg h]

end UnorderedMap

namespace SocketUtil

open UnorderedMap

theorem noteTime_eq (receive_time : UnorderedMap Str Int) (key : Str) (now : Int) :
    noteTime receive_time key now = Function.update receive_time key (some now) := by
  rw [noteTime, UnorderedMapUpdate, UnorderedMapInsert]
  by_cases h : (receive_time key).isSome = true
  · rw [if_pos h]
  · rw [if_neg h, if_neg h]

/-- A packet that is a whole message passes the maps by, and is handed on as it stands. -/
theorem combineFragment_whole (memory : Nat → Bool) (now : Int) {buf : send_message}
    (hsum : buf.header.flagment_sum = 1) (maps : Maps) :
    combineFragment memory now buf maps =
      (buf.bytes.map fun dm2_payload => some { header := buf.header, dm2_payload }, maps) :=
  if_pos hsum

/-- The first packet of a message that comes. -/
theorem combineFragment_first (memory : Nat → Bool) {parts : List Str} (hseveral : 2 ≤ parts.length)
    (hlt : parts.length < 2 ^ 31 - 1) {key : Str} {i : Nat} {buf : send_message} (hbuf : IsFragment parts key i buf)
    {maps : Maps} (hmaps : maps.combination key = none) (now : Int) :
    combineFragment memory now buf maps =
      if memory (sizeof_string * (parts.length + 1)) then
        (.ok none, maps.put key (some now) (some (entry parts (parts.length - 1) [i])))
      else (.error .bad_alloc, maps.put key (some now) none) := by
  obtain ⟨part, hpart, hbytes⟩ := hbuf.part
  have hexist : maps.combination.UnorderedMapKeyExistVector key = false := by
    rw [UnorderedMapKeyExistVector, hmaps]
    rfl
  have hinsert := insertVector_eq memory hlt hpart maps.combination key
  have hsame : Function.update maps.combination key none = maps.combination := by
    rw [← hmaps, Function.update_eq_self]
  rw [combineFragment, if_neg (hbuf.flagment_sum_ne hseveral)]
  simp only [hbuf.key_eq, hexist, hbytes, hbuf.flagment_sum, hbuf.flagment_offset, noteTime_eq, bind,
    Except.bind, hinsert]
  cases memory (sizeof_string * (parts.length + 1)) with
  | true => rfl
  | false => exact congrArg (fun m => (Except.error Failure.bad_alloc, Maps.mk _ m)) hsame.symm

/-- A further packet of a message. The message is given when no packet is missing,
where there is memory for it. -/
theorem combineFragment_next (memory : Nat → Bool) {parts : List Str} (hseveral : 2 ≤ parts.length)
    (hlt : parts.length < 2 ^ 31 - 1) {key : Str} {i : Nat} {buf : send_message} (hbuf : IsFragment parts key i buf)
    {missing : Int} {done : List Nat} (hmissing : 1 ≤ missing ∧ missing < 2 ^ 31)
    (hbytes : missing = 1 → MSGSIZE * parts.length < 2 ^ 31) (hne : (arrived parts (i :: done)).flatten ≠ [])
    {maps : Maps} (hmaps : maps.combination key = some (entry parts missing done)) (now : Int) :
    combineFragment memory now buf maps =
      if missing = 1 then
        if memory (MSGSIZE * parts.length) then
          (.ok (some
            { header := { buf.header with flagment_offset := 0, flagment_sum := 1 }
              dm2_payload := (arrived parts (i :: done)).flatten }), maps.put key none none)
        else (.error .bad_alloc, maps.put key (some now) (some (entry parts 0 (i :: done))))
      else (.ok none, maps.put key (some now) (some (entry parts (missing - 1) (i :: done)))) := by
  obtain ⟨part, hpart, hvalue⟩ := hbuf.part
  obtain ⟨hi, -⟩ := List.getElem?_eq_some_iff.mp hpart
  have hexist : maps.combination.UnorderedMapKeyExistVector key = true := by
    rw [UnorderedMapKeyExistVector, hmaps]
    rfl
  have hupdate := updateVector_eq hmissing hpart (by omega) hmaps
  have hcombine := combine_eq memory (fun h => hbytes (by omega))
    (Function.update_self key (some (entry parts (missing - 1) (i :: done))) maps.combination)
  rw [combineFragment, if_neg (hbuf.flagment_sum_ne hseveral)]
  simp only [hbuf.key_eq, hexist, if_true, hvalue, hbuf.flagment_sum, hbuf.flagment_offset, noteTime_eq,
    hupdate, hcombine]
  by_cases hlast : missing = 1
  · subst hlast
    rw [if_pos (by omega), if_pos rfl]
    cases memory (MSGSIZE * parts.length) with
    | true =>
      simp only [if_true, if_pos hne, UnorderedMapErase, Function.update_idem]
      rfl
    | false => rfl
  · rw [if_neg (by omega), if_neg hlast]
    rfl

/-- The answers to packets that come one after the other, each with the clock
reading at it, and the maps after them. -/
def deliver (memory : Nat → Bool) : Maps → List (Int × send_message) →
    List (Except Failure (Option send_message_vector)) × Maps
  | maps, [] => ([], maps)
  | maps, (now, buf) :: rest =>
    let (answer, maps) := combineFragment memory now buf maps
    let (answers, maps) := deliver memory maps rest
    (answer :: answers, maps)

/-- The text of what has arrived is empty only where nothing has: the code tells the two apart
by the empty text. -/
theorem flatten_arrived_ne_nil {parts : List Str} (hparts : ∀ part ∈ parts, part ≠ []) {i : Nat} (hi : i < parts.length)
    {done : List Nat} (hmem : i ∈ done) : (arrived parts done).flatten ≠ [] := by
  intro h
  have hpart : (arrived parts done)[i]? = some parts[i] := by
    rw [getElem?_arrived, List.getElem?_eq_getElem hi, Option.map_some, if_pos hmem]
  have hnil := List.flatten_eq_nil_iff.mp h parts[i] (List.mem_of_getElem? hpart)
  exact hparts _ (List.getElem_mem hi) hnil

/-- The missing packets of a message in any order: the last one completes it. -/
theorem deliver_rest {memory : Nat → Bool} {parts : List Str} (hcount : Countable memory parts.length)
    (hparts : ∀ part ∈ parts, part ≠ []) {key : Str} {order : List (Int × send_message)} {is done : List Nat}
    (horder : List.Forall₂ (fun p i => IsFragment parts key i p.2) order is) (hne : order ≠ []) (hdone : done ≠ [])
    (hperm : (done ++ is).Perm (List.range parts.length)) (maps : Maps) (time : Option Int) :
    ∃ p ∈ order, deliver memory (maps.put key time (some (entry parts (parts.length - done.length) done))) order =
      (List.replicate (order.length - 1) (.ok none) ++ [.ok (some
        { header := { p.2.header with flagment_offset := 0, flagment_sum := 1 }
          dm2_payload := parts.flatten })], maps.put key none none) := by
  induction horder generalizing done time with
  | nil => exact absurd rfl hne
  | @cons p i order is hp horder ih =>
    have hlength := hperm.length_eq
    rw [List.length_append, List.length_cons, List.length_range] at hlength
    have hpositive := List.length_pos_of_ne_nil hdone
    have hlt := hcount.lt
    have hperm' : (i :: done ++ is).Perm (List.range parts.length) := List.perm_middle.symm.trans hperm
    have hi : i < parts.length := List.mem_range.mp (hperm'.mem_iff.mp (by simp))
    have hvector := maps.put_combination key time (some (entry parts (parts.length - done.length) done))
    have hnext := combineFragment_next memory hcount.several (by omega) hp (by omega) (fun _ => hcount.bytes)
      (flatten_arrived_ne_nil hparts hi List.mem_cons_self) hvector p.1
    rw [if_pos hcount.text] at hnext
    rw [deliver, hnext]
    cases horder with
    | nil =>
      have hall : arrived parts (i :: done) = parts := by
        refine arrived_of_forall fun j hj => ?_
        have hmem := hperm'.mem_iff.mpr (List.mem_range.mpr hj)
        simpa using hmem
      rw [List.length_nil] at hlength
      rw [if_pos (by omega), hall, Maps.put_put]
      exact ⟨p, List.mem_cons_self, rfl⟩
    | @cons p' i' order is hp' horder =>
      rw [List.length_cons] at hlength
      rw [if_neg (by omega), Maps.put_put]
      obtain ⟨q, hq, hdeliver⟩ := ih (by simp) (by simp) hperm' (some p.1)
      have hmissing : (parts.length : Int) - done.length - 1 = parts.length - (i :: done).length := by
        rw [List.length_cons]
        omega
      rw [hmissing]
      simp only [hdeliver]
      exact ⟨q, List.mem_cons_of_mem p hq, rfl⟩

/-- All packets of a message in any order. -/
theorem deliver_all {memory : Nat → Bool} {parts : List Str} (hcount : Countable memory parts.length)
    (hparts : ∀ part ∈ parts, part ≠ []) {key : Str} {order : List (Int × send_message)} {is : List Nat}
    (horder : List.Forall₂ (fun p i => IsFragment parts key i p.2) order is)
    (hperm : is.Perm (List.range parts.length)) {maps : Maps} (htime : maps.receive_time key = none)
    (hvector : maps.combination key = none) :
    ∃ p ∈ order, deliver memory maps order =
      (List.replicate (order.length - 1) (.ok none) ++ [.ok (some
        { header := { p.2.header with flagment_offset := 0, flagment_sum := 1 }
          dm2_payload := parts.flatten })], maps) := by
  have hlength := hperm.length_eq
  rw [List.length_range] at hlength
  have hseveral := hcount.several
  cases horder with
  | nil => simp at hlength; omega
  | @cons p i order is hp horder =>
    rw [List.length_cons] at hlength
    have hne : order ≠ [] := by
      rintro rfl
      have hnil := horder.length_eq
      simp at hnil
      omega
    obtain ⟨q, hq, hdeliver⟩ := deliver_rest hcount hparts horder hne (List.cons_ne_nil i []) hperm maps (some p.1)
    have hlt := hcount.lt
    rw [deliver, combineFragment_first memory hseveral (by omega) hp hvector, if_pos hcount.vector]
    have hmissing : (parts.length : Int) - 1 = parts.length - [i].length := rfl
    rw [hmissing]
    simp only [hdeliver]
    refine ⟨q, List.mem_cons_of_mem p hq, ?_⟩
    obtain ⟨n, hn⟩ : ∃ n, order.length = n + 1 := ⟨order.length - 1, by have := List.length_pos_of_ne_nil hne; omega⟩
    rw [Maps.put_none htime hvector, List.length_cons, hn]
    rfl

end SocketUtil

namespace Socket

open SocketUtil

/-- The `int` arithmetic on a payload and its parts does not overflow, at the
sender or at the receiver. -/
structure FitsInt (payload_size division_size : Nat) : Prop where
  sum : payload_size + division_size < 2 ^ 31
  reserve : division_size < payload_size → MSGSIZE * ((payload_size + division_size - 1) / division_size) < 2 ^ 31

/-- The packet with one part of a message that has no overflow. -/
def part (src : send_message_vector) (division_size : Nat) (duplication_id : UInt64) (uninitialized : Nat → Char)
    (i : Nat) : send_message where
  header :=
    { src.header with
      payload_size := UInt16.ofNat (chunk division_size src.dm2_payload i).length
      flagment_sum := Int32.ofInt (count division_size src.dm2_payload)
      flagment_offset := Int32.ofNat i
      flagment_duplication_check_id := duplication_id }
  dm2_payload := memcpy uninitialized (chunk division_size src.dm2_payload i)

/-- The bytes that were copied to the front of a payload array are read back. -/
theorem range_map_memcpy (dm2_payload : Nat → Char) (s : Str) :
    (List.range s.length).map (memcpy dm2_payload s) = s := by
  apply List.ext_getElem
  · simp
  · intro i _ hi
    simp [memcpy, List.getD_eq_getElem?_getD, List.getElem?_eq_getElem hi]

/-- Within the sizes that a payload may have, the code's packet is the part of the payload at
its place: no number wraps around. -/
private theorem fragment_eq {src : send_message_vector} {division_size : Nat} (hdivision : 1 ≤ division_size)
    (hsize : division_size ≤ MSGSIZE) (hsum : src.dm2_payload.length + division_size < 2 ^ 31) (duplication_id : UInt64)
    (uninitialized : Nat → Char) {i : Nat} (hi : i < count division_size src.dm2_payload) :
    fragment src src.dm2_payload.length division_size (count division_size src.dm2_payload) duplication_id uninitialized i =
      .ok (part src division_size duplication_id uninitialized i) := by
  have hlt := mul_lt_length hi
  have hoffset : int ((division_size : Int) * i) = .ok ((division_size * i : Nat) : Int) := by
    rw [← Int.natCast_mul]
    exact int_eq_ok (by omega)
  have hrest : int ((src.dm2_payload.length : Int) - (division_size * i : Nat)) =
      .ok ((src.dm2_payload.length - division_size * i : Nat) : Int) := by
    rw [← Int.ofNat_sub hlt.le]
    exact int_eq_ok (by omega)
  have hmin : min (division_size : Int) (src.dm2_payload.length - division_size * i : Nat) =
      ((chunk division_size src.dm2_payload i).length : Int) := by
    rw [length_chunk]
    exact (Nat.cast_min ..).symm
  have hbound : (chunk division_size src.dm2_payload i).length ≤ MSGSIZE := by
    rw [length_chunk]
    omega
  have hpart : (src.dm2_payload.drop (division_size * i)).take (chunk division_size src.dm2_payload i).length =
      chunk division_size src.dm2_payload i := by
    rw [length_chunk, List.take_eq_take_min, chunk, List.take_eq_take_min (i := division_size), List.length_drop]
    congr 1
    omega
  rw [fragment, hoffset]
  simp only [bind, Except.bind, hrest, hmin]
  rw [if_neg (by omega)]
  simp only [Int.toNat_natCast, hpart]
  rfl

/-- A length below 2³¹ is unchanged by the conversion to `int`. -/
theorem bmod_length {n : Nat} (hn : n < 2 ^ 31) : (n : Int).bmod (2 ^ 32) = n :=
  Int.bmod_eq_of_le (by omega) (by omega)

/-- The packet with a whole message. -/
def whole (src : send_message_vector) (uninitialized : Nat → Char) : send_message where
  header :=
    { src.header with
      payload_size := UInt16.ofNat src.dm2_payload.length
      flagment_offset := 0
      flagment_sum := 1 }
  dm2_payload := memcpy uninitialized src.dm2_payload

/-- A message that fits into one packet and its array. -/
theorem convertToSendMessage_fits {src : send_message_vector} {division_size : Nat}
    (hsize : src.dm2_payload.length ≤ MSGSIZE) (hlength : src.dm2_payload.length ≤ division_size) {send_size : Int}
    (hdivision : int (send_size - sizeof_send_message_header) = .ok division_size) (duplication_id : UInt64)
    (uninitialized : Nat → Char) :
    convertToSendMessage src send_size duplication_id uninitialized = .ok [whole src uninitialized] := by
  have hpayload : (src.dm2_payload.length : Int).bmod (2 ^ 32) = src.dm2_payload.length := by
    rw [MSGSIZE] at hsize
    exact bmod_length (by omega)
  rw [convertToSendMessage, hdivision, hpayload]
  simp only [bind, Except.bind]
  rw [if_pos (Int.ofNat_le.mpr hlength), if_neg (by omega)]
  simp only [Int.toNat_natCast, List.take_length]
  rfl

/-- A payload within the division size is sent as one packet, which states the sum 1. -/
theorem convertToSendMessage_whole {src : send_message_vector} {division_size : Nat} (hsize : division_size ≤ MSGSIZE)
    (hlength : src.dm2_payload.length ≤ division_size) {send_size : Int}
    (hdivision : int (send_size - sizeof_send_message_header) = .ok division_size) (duplication_id : UInt64)
    (uninitialized : Nat → Char) :
    convertToSendMessage src send_size duplication_id uninitialized = .ok [whole src uninitialized] :=
  convertToSendMessage_fits (hlength.trans hsize) hlength hdivision duplication_id uninitialized

/-- A message that is cut into parts. -/
theorem convertToSendMessage_parts {src : send_message_vector} {division_size : Nat} (hpositive : 1 ≤ division_size)
    (hsize : division_size ≤ MSGSIZE) (hsum : src.dm2_payload.length + division_size < 2 ^ 31)
    (hlength : division_size < src.dm2_payload.length) {send_size : Int}
    (hdivision : int (send_size - sizeof_send_message_header) = .ok division_size) (duplication_id : UInt64)
    (uninitialized : Nat → Char) :
    convertToSendMessage src send_size duplication_id uninitialized = .ok
      ((List.range (count division_size src.dm2_payload)).map (part src division_size duplication_id uninitialized)) := by
  have hpayload := bmod_length (n := src.dm2_payload.length) (by omega)
  have htotal : int ((src.dm2_payload.length : Int) + division_size) =
      .ok ((src.dm2_payload.length + division_size : Nat) : Int) := by
    rw [← Int.natCast_add]
    exact int_eq_ok (by omega)
  have hlast : int (((src.dm2_payload.length + division_size : Nat) : Int) - 1) =
      .ok ((src.dm2_payload.length + division_size - 1 : Nat) : Int) := by
    rw [Int.natCast_sub (by omega)]
    exact int_eq_ok (by omega)
  have hcount : (((src.dm2_payload.length + division_size - 1 : Nat) : Int).tdiv division_size) =
      (count division_size src.dm2_payload : Int) := by
    rw [count, Int.ofNat_tdiv]
  rw [convertToSendMessage, hdivision, hpayload]
  simp only [bind, Except.bind]
  rw [if_neg (by omega), htotal]
  simp only [hlast, hcount, Int.toNat_natCast]
  rw [if_neg (by omega)]
  refine Except.mapM_eq_map fun i hi => ?_
  exact fragment_eq hpositive hsize hsum duplication_id uninitialized (List.mem_range.mp hi)

/-- What was copied into the buffer of a packet is read back from it, whatever the buffer held. -/
theorem bytes_memcpy {buf : send_message} {s : Str} {uninitialized : Nat → Char} (hs : s.length ≤ MSGSIZE)
    (hsize : buf.header.payload_size = UInt16.ofNat s.length) (hpayload : buf.dm2_payload = memcpy uninitialized s) :
    buf.bytes = .ok s := by
  have hnat : buf.header.payload_size.toNat = s.length := by
    rw [MSGSIZE] at hs
    rw [hsize]
    exact UInt16.toNat_ofNat_of_lt' (by simp only [UInt16.size]; omega)
  rw [send_message.bytes, hnat, if_pos hs, hpayload, range_map_memcpy]

/-- The key of all packets of a message that is cut into parts. -/
def partsKey (src : send_message_vector) (duplication_id : UInt64) : Str :=
  SocketUtil.key { src.header with flagment_duplication_check_id := duplication_id }

/-- With memory for every size of an `int`, a payload whose size fits has a number of packets
that can be counted. -/
private theorem countable_of_fitsInt {memory : Nat → Bool} (hmemory : ∀ bytes < 2 ^ 31, memory bytes = true)
    {src : send_message_vector} {division_size : Nat} (hpositive : 1 ≤ division_size)
    (hfits : FitsInt src.dm2_payload.length division_size) (hlength : division_size < src.dm2_payload.length) :
    Countable memory (chunks division_size src.dm2_payload).length := by
  have hbytes := hfits.reserve hlength
  rw [← count] at hbytes
  rw [length_chunks]
  have hlt : count division_size src.dm2_payload < 33555 := by
    rw [MSGSIZE] at hbytes
    omega
  refine ⟨two_le_count hpositive hlength, hbytes, hmemory _ ?_, hmemory _ hbytes⟩
  rw [sizeof_string]
  omega

/-- The packets that a message is divided into are fragments of its chunks, in their order. -/
theorem isFragment_part {src : send_message_vector} {division_size : Nat} (hsize : division_size ≤ MSGSIZE)
    (hcount : count division_size src.dm2_payload < 2 ^ 31) (duplication_id : UInt64) (uninitialized : Nat → Char)
    {i : Nat} (hi : i < count division_size src.dm2_payload) :
    IsFragment (chunks division_size src.dm2_payload) (partsKey src duplication_id) i
      (part src division_size duplication_id uninitialized i) where
  part := by
    have hbound : (chunk division_size src.dm2_payload i).length ≤ MSGSIZE := by
      rw [length_chunk]
      omega
    refine ⟨chunk division_size src.dm2_payload i, ?_, bytes_memcpy hbound rfl rfl⟩
    rw [chunks, List.getElem?_map, List.getElem?_range hi]
    rfl
  flagment_sum := by
    rw [length_chunks]
    exact Int32.toInt_ofInt_of_le (by omega) (by omega)
  flagment_offset := Int32.toInt_ofNat_of_lt (by omega)
  key_eq := rfl

/-- Two headers of packets of one message: they are equal apart from the size of
the payload and the fields that number the parts. -/
def SameMessage (header header' : send_message_header) : Prop :=
  header =
    { header' with
      payload_size := header.payload_size
      flagment_sum := header.flagment_sum
      flagment_offset := header.flagment_offset
      flagment_duplication_check_id := header.flagment_duplication_check_id }

/-- The packets of a message are taken in, in any order: each one but the last is
answered with false, the last one with the message, and no entry stays behind. -/
theorem deliver_convertToSendMessage {memory : Nat → Bool} (hmemory : ∀ bytes < 2 ^ 31, memory bytes = true)
    (src : send_message_vector) {send_size : Int} (hpositive : 1 ≤ send_size - sizeof_send_message_header)
    (hsize : send_size - sizeof_send_message_header ≤ MSGSIZE)
    (hfits : FitsInt src.dm2_payload.length (send_size - sizeof_send_message_header).toNat) (duplication_id : UInt64)
    (uninitialized : Nat → Char) :
    ∃ fragments, convertToSendMessage src send_size duplication_id uninitialized = .ok fragments ∧
      ∀ order : List (Int × send_message), (order.map Prod.snd).Perm fragments → ∀ maps : Maps,
        (∀ buf ∈ fragments, maps.receive_time (key buf.header) = none ∧ maps.combination (key buf.header) = none) →
        ∃ header, SameMessage header src.header ∧ deliver memory maps order =
          (List.replicate (order.length - 1) (.ok none) ++ [.ok (some { header, dm2_payload := src.dm2_payload })],
            maps) := by
  obtain ⟨division_size, hdivision⟩ : ∃ n : Nat, send_size - sizeof_send_message_header = n :=
    ⟨(send_size - sizeof_send_message_header).toNat, by omega⟩
  rw [hdivision] at hpositive hsize hfits
  rw [Int.toNat_natCast] at hfits
  have hint : int (send_size - sizeof_send_message_header) = .ok division_size := by
    rw [MSGSIZE] at hsize
    rw [hdivision]
    exact int_eq_ok (by omega)
  by_cases hlength : src.dm2_payload.length ≤ division_size
  · refine ⟨_, convertToSendMessage_whole (by omega) hlength hint duplication_id uninitialized, ?_⟩
    intro order hperm maps _
    obtain ⟨⟨now, buf⟩, rfl⟩ : ∃ p, order = [p] := by
      have hone := hperm.length_eq
      rw [List.length_map] at hone
      exact List.length_eq_one_iff.mp hone
    obtain rfl : buf = whole src uninitialized := by simpa using hperm.mem_iff (a := buf)
    have hbytes : (whole src uninitialized).bytes = .ok src.dm2_payload := bytes_memcpy (by omega) rfl rfl
    refine ⟨(whole src uninitialized).header, rfl, ?_⟩
    rw [deliver, combineFragment_whole memory now rfl maps, hbytes]
    rfl
  · have hparts := countable_of_fitsInt hmemory (by omega) hfits (by omega)
    have hcount := hparts.lt
    rw [length_chunks] at hcount
    refine ⟨_, convertToSendMessage_parts (by omega) (by omega) hfits.sum (by omega) hint duplication_id uninitialized, ?_⟩
    intro order hperm maps hmaps
    have hall : List.Forall₂ (fun buf i => IsFragment (chunks division_size src.dm2_payload) (partsKey src duplication_id) i buf)
        ((List.range (count division_size src.dm2_payload)).map (part src division_size duplication_id uninitialized))
        (List.range (count division_size src.dm2_payload)) := by
      rw [List.forall₂_map_left_iff, List.forall₂_same]
      exact fun i hi => isFragment_part (by omega) (by omega) duplication_id uninitialized (List.mem_range.mp hi)
    obtain ⟨is, his, hrange⟩ := List.perm_comp_forall₂ hperm hall
    rw [List.forall₂_map_left_iff] at his
    rw [← length_chunks] at hrange
    have hfirst : part src division_size duplication_id uninitialized 0 ∈
        (List.range (count division_size src.dm2_payload)).map (part src division_size duplication_id uninitialized) := by
      have hseveral := hparts.several
      rw [length_chunks] at hseveral
      exact List.mem_map_of_mem (List.mem_range.mpr (by omega))
    obtain ⟨htime, hvector⟩ := hmaps _ hfirst
    obtain ⟨p, hp, hdeliver⟩ := deliver_all hparts (ne_nil_of_mem_chunks (by omega)) his hrange htime hvector
    obtain ⟨i, -, hi⟩ := List.mem_map.mp (hperm.mem_iff.mp (List.mem_map_of_mem hp))
    rw [flatten_chunks (by omega)] at hdeliver
    refine ⟨_, ?_, hdeliver⟩
    rw [← hi]
    rfl

/-- A payload of three bytes in small packets comes out of the maps again, in whatever order its
packets arrive. -/
theorem deliver_convertToSendMessage_threeBytes :
    ∃ fragments, convertToSendMessage { header := {}, dm2_payload := "abc".toList } 170 7 (fun _ => ' ') =
      .ok fragments ∧
      ∀ order : List (Int × send_message), (order.map Prod.snd).Perm fragments → ∀ maps : Maps,
        (∀ buf ∈ fragments, maps.receive_time (key buf.header) = none ∧ maps.combination (key buf.header) = none) →
        ∃ header, SameMessage header {} ∧ deliver (fun _ => true) maps order =
          (List.replicate (order.length - 1) (.ok none) ++ [.ok (some { header, dm2_payload := "abc".toList })], maps) :=
  deliver_convertToSendMessage (fun _ _ => rfl) _ (by decide) (by decide) ⟨by decide, by decide⟩ 7 _

end Socket

end IS

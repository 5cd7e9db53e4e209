import Dm20.CsLib.AnyPacket

open Run

namespace IS

open SocketUtil UnorderedMap

/-- How far a call that takes a packet in has come: its next operation on one of the
maps, or its answer. -/
inductive Phase where
  | done (answer : Option send_message_vector)
  | updateTime (buf : send_message)
  | insertTime (buf : send_message)
  | keyExist (buf : send_message)
  | update (buf : send_message)
  | combine (buf : send_message)
  | eraseTime (buf : send_message) (combined_payload : Str)
  | insertVector (buf : send_message)

namespace Phase

/-- The call for a packet up to its first operation on a map. -/
def start (buf : send_message) : Except Failure Phase :=
  if buf.header.flagment_sum = 1 then
    buf.bytes.map fun dm2_payload => .done (some { header := buf.header, dm2_payload })
  else .ok (.updateTime buf)

/-- One operation on a map, and the call up to the next one. -/
def next (memory : Nat → Bool) (now : Int) : Phase → Maps → Except Failure (Phase × Maps)
  | .done answer, maps => .ok (.done answer, maps)
  | .updateTime buf, maps =>
    match maps.receive_time.UnorderedMapUpdate (key buf.header) now with
    | .ok receive_time => .ok (.keyExist buf, { maps with receive_time })
    | .error _ => .ok (.insertTime buf, maps)
  | .insertTime buf, maps =>
    .ok (.keyExist buf, { maps with receive_time := maps.receive_time.UnorderedMapInsert (key buf.header) now })
  | .keyExist buf, maps =>
    .ok (if maps.combination.UnorderedMapKeyExistVector (key buf.header) then .update buf else .insertVector buf, maps)
  | .update buf, maps =>
    match buf.bytes with
    | .error e => .error e
    | .ok value =>
      match maps.combination.UnorderedMapUpdateVectorValueThenDecrease (key buf.header) buf.header.flagment_offset.toInt
          value with
      | (.error .out_of_range, combination) => .ok (.done none, { maps with combination })
      | (.error e, _) => .error e
      | (.ok _, combination) => .ok (.combine buf, { maps with combination })
  | .combine buf, maps =>
    match maps.combination.UnorderedMapVectorCombineAndDeletePlusSize memory (key buf.header)
        buf.header.flagment_sum.toInt with
    | (.error e, _) => .error e
    | (.ok combined_payload, combination) =>
      .ok (if combined_payload ≠ [] then .eraseTime buf combined_payload else .done none, { maps with combination })
  | .eraseTime buf combined_payload, maps =>
    .ok (.done (some
        { header := { buf.header with flagment_offset := 0, flagment_sum := 1 }
          dm2_payload := combined_payload }),
      { maps with receive_time := maps.receive_time.UnorderedMapErase (key buf.header) })
  | .insertVector buf, maps =>
    match buf.bytes >>= maps.combination.UnorderedMapInsertVectorPlusSize memory (key buf.header)
        buf.header.flagment_sum.toInt buf.header.flagment_offset.toInt with
    | .ok combination => .ok (.done none, { maps with combination })
    | .error .out_of_range => .ok (.done none, maps)
    | .error e => .error e

/-- The packet of a call that is in progress. -/
def packet : Phase → Option send_message
  | .done _ => none
  | .updateTime buf | .insertTime buf | .keyExist buf | .update buf | .combine buf | .eraseTime buf _
  | .insertVector buf => some buf

/-- The operations of a call that nothing comes between. -/
def calls (memory : Nat → Bool) (now : Int) : Nat → Phase → Maps → Except Failure (Phase × Maps)
  | 0, phase, maps => .ok (phase, maps)
  | n + 1, phase, maps => do
    let (phase, maps) ← next memory now phase maps
    calls memory now n phase maps

private theorem calls_done (memory : Nat → Bool) (now : Int) (n : Nat) (answer : Option send_message_vector)
    (maps : Maps) :
    calls memory now n (.done answer) maps = .ok (.done answer, maps) := by
  induction n with
  | zero => rfl
  | succ n ih => exact ih

private theorem calls_succ {memory : Nat → Bool} {now : Int} {phase phase' : Phase} {maps maps' : Maps}
    (h : next memory now phase maps = .ok (phase', maps')) (n : Nat) :
    calls memory now (n + 1) phase maps = calls memory now n phase' maps' := by
  rw [calls, h]
  rfl

private theorem calls_error {memory : Nat → Bool} {now : Int} {phase : Phase} {maps : Maps} {e : Failure}
    (h : next memory now phase maps = .error e) (n : Nat) : calls memory now (n + 1) phase maps = .error e := by
  rw [calls, h]
  rfl

/-- The clock reading is noted in one or two operations. -/
theorem calls_updateTime (memory : Nat → Bool) (now : Int) (buf : send_message) (maps : Maps) :
    ∃ n, calls memory now 6 (.updateTime buf) maps = calls memory now (n + 4) (.keyExist buf)
      { maps with receive_time := noteTime maps.receive_time (key buf.header) now } := by
  rw [noteTime]
  cases hupdate : maps.receive_time.UnorderedMapUpdate (key buf.header) now with
  | ok receive_time =>
    refine ⟨1, calls_succ ?_ 5⟩
    rw [next, hupdate]
  | error e =>
    refine ⟨0, (@calls_succ memory now (.updateTime buf) (.insertTime buf) maps maps ?_ 5).trans (calls_succ rfl 4)⟩
    rw [next, hupdate]

/-- A call comes to its answer in six operations at most, and they do together what
the call does. -/
theorem calls_start (memory : Nat → Bool) (now : Int) (buf : send_message) (maps : Maps) :
    (start buf >>= fun phase => calls memory now 6 phase maps) =
      match combineFragment memory now buf maps with
      | (.error e, _) => .error e
      | (.ok answer, maps) => .ok (.done answer, maps) := by
  by_cases hsum : buf.header.flagment_sum = 1
  · rw [start, if_pos hsum, combineFragment_whole memory now hsum]
    cases buf.bytes with
    | error e => rfl
    | ok payload => rfl
  · obtain ⟨n, hn⟩ := calls_updateTime memory now buf maps
    rw [start, if_neg hsum, combineFragment, if_neg hsum]
    show calls memory now 6 (.updateTime buf) maps = _
    rw [hn, calls_succ rfl]
    dsimp only
    by_cases hexist : maps.combination.UnorderedMapKeyExistVector (key buf.header) = true
    · rw [if_pos hexist, if_pos hexist]
      cases hbytes : buf.bytes with
      | error e => exact calls_error (by rw [next, hbytes]) _
      | ok value =>
        dsimp only
        rcases hupdate : maps.combination.UnorderedMapUpdateVectorValueThenDecrease (key buf.header)
          buf.header.flagment_offset.toInt value with ⟨result, combination⟩
        cases result with
        | error e =>
          cases e with
          | out_of_range =>
            rw [@calls_succ _ _ _ (.done none)]
            · exact calls_done ..
            · simp only [next, hbytes, hupdate]
          | invalid_argument => exact calls_error (by simp only [next, hbytes, hupdate]) _
          | length_error => exact calls_error (by simp only [next, hbytes, hupdate]) _
          | bad_alloc => exact calls_error (by simp only [next, hbytes, hupdate]) _
          | undefined => exact calls_error (by simp only [next, hbytes, hupdate]) _
        | ok _ =>
          rw [@calls_succ _ _ _ (.combine buf) _ ⟨noteTime maps.receive_time (key buf.header) now, combination⟩]
          · dsimp only
            rcases hcombine : combination.UnorderedMapVectorCombineAndDeletePlusSize memory (key buf.header)
              buf.header.flagment_sum.toInt with ⟨result, combination'⟩
            cases result with
            | error e => exact calls_error (by simp only [next, hcombine]) _
            | ok combined_payload =>
              rw [calls_succ (by simp only [next, hcombine]; rfl)]
              dsimp only
              by_cases hpayload : combined_payload ≠ []
              · rw [if_pos hpayload, if_pos hpayload, calls_succ rfl, calls_done]
              · rw [if_neg hpayload, if_neg hpayload, calls_done]
          · simp only [next, hbytes, hupdate]
    · rw [if_neg hexist, if_neg hexist]
      cases hinsert : buf.bytes >>= maps.combination.UnorderedMapInsertVectorPlusSize memory (key buf.header)
          buf.header.flagment_sum.toInt buf.header.flagment_offset.toInt with
      | ok combination =>
        rw [calls_succ (by simp only [next, hinsert]; rfl)]
        exact calls_done ..
      | error e =>
        cases e with
        | out_of_range =>
          rw [calls_succ (by simp only [next, hinsert]; rfl)]
          exact calls_done ..
        | invalid_argument => exact calls_error (by simp only [next, hinsert]) _
        | length_error => exact calls_error (by simp only [next, hinsert]) _
        | bad_alloc => exact calls_error (by simp only [next, hinsert]) _
        | undefined => exact calls_error (by simp only [next, hinsert]) _

/-- What a call in progress knows of the entries under its key. -/
def Fits (maps : Maps) : Phase → Prop
  | .keyExist buf => (maps.receive_time (key buf.header)).isSome = true
  | .insertVector buf =>
    (maps.receive_time (key buf.header)).isSome = true ∧ maps.combination (key buf.header) = none
  | .update buf => maps.combination (key buf.header) ≠ none
  | .eraseTime buf _ => maps.combination (key buf.header) = none
  | _ => True

end Phase

/-- Where the cleaner stands: before which operation on one of the maps. -/
inductive Cleaner where
  | oldKey
  | eraseVector (key : Str)
  | eraseTime (key : Str)

/-- The maps with the two threads that use them, and beside them for each key the
number of packets that the packet which last made an entry under it stated. -/
structure Shared where
  maps : Maps := {}
  receiver : Phase := .done none
  cleaner : Cleaner := .oldKey
  sums : Str → Int := fun _ => 0

/-- What can happen next: a packet comes, the receiver or the cleaner does its next
operation, or the cleaner finds a key that is older than the limit. -/
inductive Event where
  | receive (buf : send_message)
  | receiver (now : Int)
  | oldKey (now : Int) (key : Str)
  | cleaner

namespace Shared

/-- A key is noted with a clock reading before the limit. -/
def IsOld (combination_map_clear_time : Int) (s : Shared) (now : Int) (key : Str) : Bool :=
  match s.maps.receive_time key with
  | some time => decide (time < now - combination_map_clear_time)
  | none => false

/-- The numbers of packets after an operation of the receiver. -/
def noteSum (s : Shared) : Str → Int :=
  match s.receiver.packet with
  | some buf =>
    if s.maps.combination (key buf.header) = none then
      Function.update s.sums (key buf.header) buf.header.flagment_sum.toInt
    else s.sums
  | none => s.sums

/-- What happens; an event that is not due changes nothing. -/
def step (memory : Nat → Bool) (combination_map_clear_time : Int) (s : Shared) : Event → Except Failure Shared
  | .receive buf =>
    match s.receiver with
    | .done _ => (Phase.start buf).map fun receiver => { s with receiver }
    | _ => .ok s
  | .receiver now =>
    (s.receiver.next memory now s.maps).map fun (receiver, maps) => { s with receiver, maps, sums := s.noteSum }
  | .oldKey now key =>
    match s.cleaner with
    | .oldKey =>
      if s.IsOld combination_map_clear_time now key ∧ key ≠ "0".toList then .ok { s with cleaner := .eraseVector key }
      else .ok s
    | _ => .ok s
  | .cleaner =>
    match s.cleaner with
    | .oldKey => .ok s
    | .eraseVector key =>
      .ok { s with
        maps := { s.maps with combination := s.maps.combination.UnorderedMapErase key }
        cleaner := .eraseTime key }
    | .eraseTime key =>
      .ok { s with
        maps := { s.maps with receive_time := s.maps.receive_time.UnorderedMapErase key }
        cleaner := .oldKey }

/-- An entry has a clock reading noted beside it, and one place more than its message
has packets. -/
structure Kept (s : Shared) (key : Str) (vector : List Str) : Prop where
  noted : (s.maps.receive_time key).isSome = true
  length : (vector.length : Int) = s.sums key + 1
  ne_nil : vector ≠ []

/-- Whenever no call is in progress, every entry is kept. -/
def Consistent (s : Shared) : Prop :=
  s.receiver.packet = none → ∀ key vector, s.maps.combination key = some vector → Kept s key vector

/-- The condition on the cleaner: it takes an entry out when no call is about to update
it, and the clock reading of a key when there is no entry under the key and no call
that has noted the reading is about to make one. -/
def Orderly (s : Shared) : Event → Prop
  | .cleaner =>
    match s.cleaner with
    | .oldKey => True
    | .eraseVector k => ∀ buf, s.receiver = .update buf → key buf.header ≠ k
    | .eraseTime k => s.maps.combination k = none ∧
        ∀ buf, s.receiver = .keyExist buf ∨ s.receiver = .insertVector buf → key buf.header ≠ k
  | _ => True

instance (s : Shared) (k : Str) : Decidable (∀ buf, s.receiver = .update buf → key buf.header ≠ k) :=
  match h : s.receiver with
  | .update buf => decidable_of_iff (key buf.header ≠ k) (by simp)
  | .done _ | .updateTime _ | .insertTime _ | .keyExist _ | .combine _ | .eraseTime _ _ | .insertVector _ =>
    .isTrue (by simp)

instance (s : Shared) (k : Str) :
    Decidable (∀ buf, s.receiver = .keyExist buf ∨ s.receiver = .insertVector buf → key buf.header ≠ k) :=
  match h : s.receiver with
  | .keyExist buf | .insertVector buf => decidable_of_iff (key buf.header ≠ k) (by simp)
  | .done _ | .updateTime _ | .insertTime _ | .update _ | .combine _ | .eraseTime _ _ => .isTrue (by simp)

instance (s : Shared) : ∀ event, Decidable (Orderly s event)
  | .cleaner =>
    match h : s.cleaner with
    | .oldKey => .isTrue (by simp only [Orderly, h])
    | .eraseVector k =>
      decidable_of_iff (∀ buf, s.receiver = .update buf → key buf.header ≠ k) (by simp only [Orderly, h])
    | .eraseTime k =>
      decidable_of_iff (s.maps.combination k = none ∧
        ∀ buf, s.receiver = .keyExist buf ∨ s.receiver = .insertVector buf → key buf.header ≠ k)
        (by simp only [Orderly, h])
  | .receive _ | .receiver _ | .oldKey _ _ => .isTrue trivial

/-- What every state of an orderly run keeps. -/
structure Inv (s : Shared) : Prop where
  kept : ∀ key vector, s.maps.combination key = some vector → Kept s key vector
  fits : s.receiver.Fits s.maps

/-- The maps are empty at first and neither thread is at work. -/
theorem Inv.init : Inv {} where
  kept _ _ h := by cases h
  fits := trivial

section Steps

variable {s : Shared}

/-- The numbers of packets of the entries that are there stay. -/
theorem noteSum_of_some {k : Str} {vector : List Str} (h : s.maps.combination k = some vector) : s.noteSum k =
    s.sums k := by
  rw [noteSum]
  cases s.receiver.packet with
  | none => rfl
  | some buf =>
    dsimp only
    by_cases hnone : s.maps.combination (key buf.header) = none
    · have hk : k ≠ key buf.header := by
        rintro rfl
        rw [h] at hnone
        cases hnone
      rw [if_pos hnone]
      exact Function.update_of_ne hk _ _
    · rw [if_neg hnone]

/-- The number of packets of a new entry is the one its packet states. -/
theorem noteSum_of_none {buf : send_message} (hbuf : s.receiver.packet = some buf)
    (h : s.maps.combination (key buf.header) = none) : s.noteSum (key buf.header) = buf.header.flagment_sum.toInt := by
  simp only [noteSum, hbuf, if_pos h]
  exact Function.update_self ..

/-- An operation of the receiver leaves an entry in its places, and its clock reading
noted. -/
theorem Kept.receiver {k : Str} {vector vector' : List Str} (hkept : Kept s k vector)
    (hvector : s.maps.combination k = some vector) (hlength : vector'.length = vector.length) {receiver : Phase}
    {maps : Maps} (htime : (maps.receive_time k).isSome = true) :
    Kept { s with receiver, maps, sums := s.noteSum } k vector' where
  noted := htime
  length := by
    show (vector'.length : Int) = s.noteSum k + 1
    rw [noteSum_of_some hvector, hlength]
    exact hkept.length
  ne_nil := by
    apply List.ne_nil_of_length_pos
    rw [hlength]
    exact List.length_pos_of_ne_nil hkept.ne_nil

private theorem isSome_update_self (m : UnorderedMap Str Int) (k : Str) (now : Int) :
    (Function.update m k (some now) k).isSome = true := by
  rw [Function.update_self]
  rfl

private theorem isSome_update {m : UnorderedMap Str Int} {k : Str} (hk : (m k).isSome = true) (k' : Str) (now : Int) :
    (Function.update m k' (some now) k).isSome = true := by
  by_cases h : k = k'
  · rw [h]
    exact isSome_update_self m k' now
  · rw [Function.update_of_ne h]
    exact hk

/-- An operation of the receiver on the clock readings. -/
theorem Inv.of_time (hinv : Inv s) {receive_time : UnorderedMap Str Int} {receiver : Phase}
    (htime : ∀ k, (s.maps.receive_time k).isSome = true → (receive_time k).isSome = true)
    (hfits : receiver.Fits { s.maps with receive_time }) :
    Inv { s with receiver, maps := { s.maps with receive_time }, sums := s.noteSum } where
  kept k vector h := (hinv.kept k vector h).receiver h rfl (htime k (hinv.kept k vector h).noted)
  fits := hfits

/-- The clock reading of an entry is renewed, and its packets stay as they are. -/
theorem Inv.updateTime (hinv : Inv s) {buf : send_message} {now : Int} {receive_time : UnorderedMap Str Int}
    (h : s.maps.receive_time.UnorderedMapUpdate (key buf.header) now = .ok receive_time) :
    Inv { s with receiver := .keyExist buf, maps := { s.maps with receive_time }, sums := s.noteSum } := by
  rw [UnorderedMapUpdate] at h
  split at h
  · obtain rfl := Except.ok.inj h
    exact hinv.of_time (fun k hk => isSome_update hk _ now) (isSome_update_self _ _ now)
  · cases h

/-- A clock reading is noted for a key without packets; the entry follows it. -/
theorem Inv.insertTime (hinv : Inv s) (buf : send_message) (now : Int) :
    Inv { s with
      receiver := .keyExist buf
      maps := { s.maps with receive_time := s.maps.receive_time.UnorderedMapInsert (key buf.header) now }
      sums := s.noteSum } := by
  rw [UnorderedMapInsert]
  split
  · next hsome => exact hinv.of_time (fun _ hk => hk) hsome
  · exact hinv.of_time (fun k hk => isSome_update hk _ now) (isSome_update_self _ _ now)

/-- An entry is changed in its places, made or taken out. -/
theorem Inv.of_vector (hinv : Inv s) (k : Str) {entry : Option (List Str)} {receiver : Phase}
    (hentry : ∀ vector, entry = some vector → Kept { s with sums := s.noteSum } k vector)
    (hfits : receiver.Fits { s.maps with combination := Function.update s.maps.combination k entry }) :
    Inv { s with
      receiver
      maps := { s.maps with combination := Function.update s.maps.combination k entry }
      sums := s.noteSum } where
  kept k' vector h := by
    by_cases hk : k' = k
    · subst hk
      have hkept := hentry vector ((Function.update_self k' entry s.maps.combination).symm.trans h)
      exact ⟨hkept.noted, hkept.length, hkept.ne_nil⟩
    · have h' : s.maps.combination k' = some vector :=
        (Function.update_of_ne hk entry s.maps.combination).symm.trans h
      exact (hinv.kept k' vector h').receiver h' rfl (hinv.kept k' vector h').noted
  fits := hfits

/-- The clock readings of the entries outlive that of a key without an entry. -/
theorem Inv.isSome_erase (hinv : Inv s) {k k' : Str} {vector : List Str} (hk : s.maps.combination k = none)
    (hvector : s.maps.combination k' = some vector) :
    (s.maps.receive_time.UnorderedMapErase k k').isSome = true := by
  have hne : k' ≠ k := by
    rintro rfl
    rw [hk] at hvector
    cases hvector
  rw [UnorderedMapErase, Function.update_of_ne hne]
  exact (hinv.kept k' vector hvector).noted

/-- The look-up of an entry, whose key has just been noted. -/
theorem Inv.keyExist (hinv : Inv s) {buf : send_message}
    (hnoted : (s.maps.receive_time (key buf.header)).isSome = true) :
    Inv { s with
      receiver :=
        if s.maps.combination.UnorderedMapKeyExistVector (key buf.header) then .update buf else .insertVector buf
      sums := s.noteSum } := by
  refine hinv.of_time (fun _ hk => hk) ?_
  rw [UnorderedMapKeyExistVector]
  cases hvector : s.maps.combination (key buf.header) with
  | none => exact ⟨hnoted, hvector⟩
  | some vector =>
    show s.maps.combination (key buf.header) ≠ none
    rw [hvector]
    exact Option.some_ne_none vector

/-- The update of an entry, which is there, leaves it in its places. -/
theorem Inv.update (hinv : Inv s) {memory : Nat → Bool} {now : Int} {buf : send_message} {receiver : Phase}
    {maps : Maps} (hentry : s.maps.combination (key buf.header) ≠ none)
    (h : Phase.next memory now (.update buf) s.maps = .ok (receiver, maps)) :
    Inv { s with receiver, maps, sums := s.noteSum } := by
  obtain ⟨vector, hvector⟩ := Option.ne_none_iff_exists'.mp hentry
  rw [Phase.next] at h
  split at h
  · cases h
  · next value hvalue =>
    obtain ⟨vector', hupdate, hlength⟩ :=
      updateVector_cases s.maps.combination (key buf.header) buf.header.flagment_offset.toInt value
    rw [hvector, Option.getD_some] at hlength
    have hkept : ∀ v, some vector' = some v → Kept { s with sums := s.noteSum } (key buf.header) v := by
      intro v hv
      obtain rfl := Option.some.inj hv
      exact (hinv.kept _ vector hvector).receiver hvector hlength (hinv.kept _ vector hvector).noted
    split at h
    · next hresult =>
      rw [hresult] at hupdate
      obtain ⟨rfl, rfl⟩ := Prod.mk.inj (Except.ok.inj h)
      obtain rfl := hupdate
      exact hinv.of_vector (key buf.header) hkept trivial
    · cases h
    · next hresult =>
      rw [hresult] at hupdate
      obtain ⟨rfl, rfl⟩ := Prod.mk.inj (Except.ok.inj h)
      obtain rfl := hupdate
      exact hinv.of_vector (key buf.header) hkept trivial

/-- The packets of an entry are put together: it stays, or is taken out. -/
theorem Inv.combine (hinv : Inv s) {memory : Nat → Bool} {now : Int} {buf : send_message} {receiver : Phase}
    {maps : Maps} (h : Phase.next memory now (.combine buf) s.maps = .ok (receiver, maps)) :
    Inv { s with receiver, maps, sums := s.noteSum } := by
  rw [Phase.next] at h
  split at h
  · cases h
  · next combined_payload combination hresult =>
    obtain ⟨rfl, rfl⟩ := Prod.mk.inj (Except.ok.inj h)
    have hcases := combine_cases memory s.maps.combination (key buf.header) buf.header.flagment_sum.toInt
    rw [hresult] at hcases
    have hfits : Phase.Fits { s.maps with combination }
        (if combined_payload ≠ [] then .eraseTime buf combined_payload else .done none) := by
      split
      · next hne => exact combine_ne_nil hresult hne
      · trivial
    obtain rfl | rfl := hcases
    · exact hinv.of_time (fun _ hk => hk) hfits
    · exact hinv.of_vector (key buf.header) (fun _ hv => by cases hv) hfits

/-- A new entry has a place for each packet that its message states. -/
theorem Inv.insertVector (hinv : Inv s) {memory : Nat → Bool} {now : Int} {buf : send_message} {receiver : Phase}
    {maps : Maps} (hreceiver : s.receiver = .insertVector buf)
    (hnoted : (s.maps.receive_time (key buf.header)).isSome = true) (hnone : s.maps.combination (key buf.header) = none)
    (h : Phase.next memory now (.insertVector buf) s.maps = .ok (receiver, maps)) :
    Inv { s with receiver, maps, sums := s.noteSum } := by
  rw [Phase.next] at h
  split at h
  · next combination hresult =>
    obtain ⟨rfl, rfl⟩ := Prod.mk.inj (Except.ok.inj h)
    obtain ⟨value, -, hinsert⟩ := Except.bind_eq_ok_iff.mp hresult
    obtain ⟨vector, rfl, hlength, hne⟩ := insertVector_cases hinsert
    refine hinv.of_vector (key buf.header) (fun v hv => ?_) trivial
    obtain rfl := Option.some.inj hv
    refine ⟨hnoted, ?_, hne⟩
    show (vector.length : Int) = s.noteSum (key buf.header) + 1
    rw [noteSum_of_none (by rw [hreceiver]; rfl) hnone]
    exact hlength
  · obtain ⟨rfl, rfl⟩ := Prod.mk.inj (Except.ok.inj h)
    exact hinv.of_time (fun _ hk => hk) trivial
  · cases h

/-- An operation of the receiver. -/
theorem Inv.receiver (hinv : Inv s) {memory : Nat → Bool} {now : Int} {receiver : Phase} {maps : Maps}
    (h : s.receiver.next memory now s.maps = .ok (receiver, maps)) :
    Inv { s with receiver, maps, sums := s.noteSum } := by
  have hfits := hinv.fits
  cases hreceiver : s.receiver with
  | done answer =>
    rw [hreceiver] at h
    obtain ⟨rfl, rfl⟩ := Prod.mk.inj (Except.ok.inj h)
    exact hinv.of_time (fun _ hk => hk) trivial
  | updateTime buf =>
    rw [hreceiver, Phase.next] at h
    split at h
    · next htime =>
      obtain ⟨rfl, rfl⟩ := Prod.mk.inj (Except.ok.inj h)
      exact hinv.updateTime htime
    · obtain ⟨rfl, rfl⟩ := Prod.mk.inj (Except.ok.inj h)
      exact hinv.of_time (fun _ hk => hk) trivial
  | insertTime buf =>
    rw [hreceiver] at h
    obtain ⟨rfl, rfl⟩ := Prod.mk.inj (Except.ok.inj h)
    exact hinv.insertTime buf now
  | keyExist buf =>
    rw [hreceiver] at h hfits
    obtain ⟨rfl, rfl⟩ := Prod.mk.inj (Except.ok.inj h)
    exact hinv.keyExist hfits
  | update buf =>
    rw [hreceiver] at h hfits
    exact hinv.update hfits h
  | combine buf =>
    rw [hreceiver] at h
    exact hinv.combine h
  | eraseTime buf combined_payload =>
    rw [hreceiver] at h hfits
    obtain ⟨rfl, rfl⟩ := Prod.mk.inj (Except.ok.inj h)
    exact ⟨fun k vector hvector => (hinv.kept k vector hvector).receiver hvector rfl (hinv.isSome_erase hfits hvector),
      trivial⟩
  | insertVector buf =>
    rw [hreceiver] at h hfits
    exact hinv.insertVector hreceiver hfits.1 hfits.2 h

/-- The cleaner takes an entry out. -/
theorem Inv.eraseVector (hinv : Inv s) {k : Str} (hupdate : ∀ buf, s.receiver = .update buf → key buf.header ≠ k)
    (cleaner : Cleaner) :
    Inv { s with maps := { s.maps with combination := s.maps.combination.UnorderedMapErase k }, cleaner } where
  kept k' vector h := by
    have herase : Function.update s.maps.combination k none k' = some vector := h
    have hne : k' ≠ k := by
      rintro rfl
      rw [Function.update_self] at herase
      cases herase
    have h' : s.maps.combination k' = some vector := by
      rw [Function.update_of_ne hne] at herase
      exact herase
    have hkept := hinv.kept k' vector h'
    exact ⟨hkept.noted, hkept.length, hkept.ne_nil⟩
  fits := by
    have hfits := hinv.fits
    have hnone : ∀ {k' : Str}, s.maps.combination k' = none → s.maps.combination.UnorderedMapErase k k' = none := by
      intro k' hk'
      rw [UnorderedMapErase]
      by_cases hk : k' = k
      · rw [hk, Function.update_self]
      · rw [Function.update_of_ne hk, hk']
    show s.receiver.Fits _
    cases hreceiver : s.receiver with
    | done answer => trivial
    | updateTime buf => trivial
    | insertTime buf => trivial
    | combine buf => trivial
    | keyExist buf =>
      rw [hreceiver] at hfits
      exact hfits
    | update buf =>
      rw [hreceiver] at hfits
      show Function.update s.maps.combination k none (key buf.header) ≠ none
      rw [Function.update_of_ne (hupdate buf hreceiver)]
      exact hfits
    | eraseTime buf text =>
      rw [hreceiver] at hfits
      exact hnone hfits
    | insertVector buf =>
      rw [hreceiver] at hfits
      exact ⟨hfits.1, hnone hfits.2⟩

/-- The cleaner takes a clock reading out. -/
theorem Inv.eraseTime (hinv : Inv s) {k : Str} (hk : s.maps.combination k = none)
    (hnoted : ∀ buf, s.receiver = .keyExist buf ∨ s.receiver = .insertVector buf → key buf.header ≠ k)
    (cleaner : Cleaner) :
    Inv { s with maps := { s.maps with receive_time := s.maps.receive_time.UnorderedMapErase k }, cleaner } where
  kept k' vector h :=
    ⟨hinv.isSome_erase hk h, (hinv.kept k' vector h).length, (hinv.kept k' vector h).ne_nil⟩
  fits := by
    have hfits := hinv.fits
    have hsome : ∀ {k' : Str}, k' ≠ k → (s.maps.receive_time k').isSome = true →
        (s.maps.receive_time.UnorderedMapErase k k').isSome = true := by
      intro k' hne hk'
      rw [UnorderedMapErase, Function.update_of_ne hne]
      exact hk'
    show s.receiver.Fits _
    cases hreceiver : s.receiver with
    | done answer => trivial
    | updateTime buf => trivial
    | insertTime buf => trivial
    | combine buf => trivial
    | keyExist buf =>
      rw [hreceiver] at hfits
      exact hsome (hnoted buf (.inl hreceiver)) hfits
    | update buf =>
      rw [hreceiver] at hfits
      exact hfits
    | eraseTime buf text =>
      rw [hreceiver] at hfits
      exact hfits
    | insertVector buf =>
      rw [hreceiver] at hfits
      exact ⟨hsome (hnoted buf (.inr hreceiver)) hfits.1, hfits.2⟩

/-- The start of a call, or nothing, leaves everything in the maps as it was. -/
theorem Inv.of_fits (hinv : Inv s) {receiver : Phase} (hfits : receiver.Fits s.maps) (cleaner : Cleaner) :
    Inv { s with receiver, cleaner } where
  kept k vector h := ⟨(hinv.kept k vector h).noted, (hinv.kept k vector h).length, (hinv.kept k vector h).ne_nil⟩
  fits := hfits

private theorem fits_start {buf : send_message} {receiver : Phase} (h : Phase.start buf = .ok receiver) (maps : Maps) :
    receiver.Fits maps := by
  rw [Phase.start] at h
  split at h
  · obtain ⟨payload, -, rfl⟩ := Except.map_eq_ok_iff.mp h
    trivial
  · obtain rfl := Except.ok.inj h
    trivial

/-- An operation of either thread keeps each entry with its clock reading and with as many
places as the first packet stated, if the cleaner takes out no entry that the receiver is about
to use. -/
theorem Inv.step {memory : Nat → Bool} {combination_map_clear_time : Int} (hinv : Inv s) {event : Event}
    (hevent : Orderly s event) {s' : Shared} (h : s.step memory combination_map_clear_time event = .ok s') :
    Inv s' := by
  cases event with
  | receive buf =>
    rw [Shared.step] at h
    split at h
    · obtain ⟨receiver, hreceiver, rfl⟩ := Except.map_eq_ok_iff.mp h
      exact hinv.of_fits (fits_start hreceiver s.maps) s.cleaner
    · obtain rfl := Except.ok.inj h
      exact hinv
  | receiver now =>
    obtain ⟨⟨receiver, maps⟩, hnext, rfl⟩ := Except.map_eq_ok_iff.mp h
    exact hinv.receiver hnext
  | oldKey now k =>
    rw [Shared.step] at h
    split at h
    · split at h
      · obtain rfl := Except.ok.inj h
        exact hinv.of_fits hinv.fits _
      · obtain rfl := Except.ok.inj h
        exact hinv
    · obtain rfl := Except.ok.inj h
      exact hinv
  | cleaner =>
    cases hcleaner : s.cleaner with
    | oldKey =>
      simp only [Shared.step, hcleaner] at h
      obtain rfl := Except.ok.inj h
      exact hinv
    | eraseVector k =>
      simp only [Shared.step, hcleaner] at h
      simp only [Orderly, hcleaner] at hevent
      obtain rfl := Except.ok.inj h
      exact hinv.eraseVector hevent _
    | eraseTime k =>
      simp only [Shared.step, hcleaner] at h
      simp only [Orderly, hcleaner] at hevent
      obtain rfl := Except.ok.inj h
      exact hinv.eraseTime hevent.1 hevent.2 _

end Steps

/-- In every interleaving where the cleaner keeps to the condition, each entry has a
clock reading, so that it is purged in the end, and a place for each packet. -/
theorem consistent_of_orderly (memory : Nat → Bool) (combination_map_clear_time : Int) (events : List Event)
    (h : Along (step memory combination_map_clear_time) Orderly {} events) :
    Throughout (step memory combination_map_clear_time) (fun _ => False) Consistent {} events := by
  have hinv : Throughout (step memory combination_map_clear_time) (fun _ => False) Inv {} events :=
    Throughout.of_along (fun s event s' hs hevent hstep => hs.step hevent hstep) (fun _ _ _ _ _ _ hfalse => hfalse)
      Inv.init h
  exact hinv.imp fun s hs _ k vector => hs.kept k vector

section TwoPackets

/-- The packets of a message of two. -/
def ofTwo (flagment_offset : Int32) : send_message where
  header := { payload_size := 3, flagment_sum := 2, flagment_offset }
  dm2_payload := fun _ => 'a'

/-- A call for a packet that nothing comes between. -/
def call (now : Int) (buf : send_message) : List Event :=
  .receive buf :: List.replicate 6 (.receiver now)

/-- The cleaner finds the key of a first packet and erases it when the call for the
second packet has begun. -/
def purged : List Event :=
  call 0 (ofTwo 0) ++ [.oldKey 200 (key (ofTwo 0).header), .receive (ofTwo 1), .cleaner, .cleaner] ++
    List.replicate 6 (.receiver 300)

/-- The cleaner erases a first packet while the second one is being received, and the maps stay
consistent, since the erasure is over before the receiver looks at the entry. -/
theorem consistent_of_orderly_purged :
    Throughout (step (fun _ => true) 100) (fun _ => False) Consistent {} purged :=
  consistent_of_orderly (fun _ => true) 100 purged (by decide +kernel)

/-- The cleaner finds the key of a first packet, and the second packet comes between its
two operations on the key. -/
def betweenErasures : List Event :=
  call 0 (ofTwo 0) ++ [.oldKey 200 (key (ofTwo 0).header), .cleaner] ++ call 200 (ofTwo 1) ++ [.cleaner]

/-- An entry stays behind that is never purged. -/
theorem betweenErasures_not_consistent :
    ¬ ∀ (memory : Nat → Bool) (combination_map_clear_time : Int) (events : List Event),
      Throughout (step memory combination_map_clear_time) (fun _ => False) Consistent {} events := by
  intro h
  have hall := h (fun _ => true) 100 betweenErasures
  have hfinal : ((run (step (fun _ => true) 100) {} betweenErasures).map fun s => (s.receiver.packet.isNone,
      (s.maps.combination (key (ofTwo 0).header)).isSome,
        (s.maps.receive_time (key (ofTwo 0).header)).isSome)).toOption =
      some (true, true, false) := by decide +kernel
  cases hrun : run (step (fun _ => true) 100) {} betweenErasures with
  | error e =>
    rw [hrun] at hfinal
    cases hfinal
  | ok s =>
    rw [hrun] at hfinal
    obtain ⟨hidle, hentry⟩ := Prod.mk.inj (Option.some.inj hfinal)
    obtain ⟨hsome, htime⟩ := Prod.mk.inj hentry
    obtain ⟨vector, hvector⟩ := Option.isSome_iff_exists.mp hsome
    have hkept := hall.final hrun (Option.isNone_iff_eq_none.mp hidle) _ vector hvector
    rw [hkept.noted] at htime
    cases htime

end TwoPackets

end Shared

end IS

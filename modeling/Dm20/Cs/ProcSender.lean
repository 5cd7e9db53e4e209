import Dm20.CsLib.SocketUtil
import Dm20.Lib.Run

open Run

namespace IS

namespace ProcSender

open UnorderedMap

/-- The key of a message: the decimal digits of its station and of its duplication
check id, one after the other. -/
def key (cdata : send_message_vector) : Str :=
  to_string_nat cdata.header.src_station_id.toNat ++ to_string_nat cdata.header.duplication_check_id.toNat

/-- Whether a message is a duplicate. One that is not is put into the map. -/
def duplicate_receive_check (cdata : send_message_vector) (now : Int) (duplicate_check_map : UnorderedMap Str Int) :
    Bool × UnorderedMap Str Int :=
  if duplicate_check_map.UnorderedMapKeyExist (key cdata) then (true, duplicate_check_map)
  else (false, duplicate_check_map.UnorderedMapInsert (key cdata) now)

/-- The two numbers of a message. -/
def identity (cdata : send_message_vector) : UInt64 × UInt64 :=
  (cdata.header.src_station_id, cdata.header.duplication_check_id)

/-- The map that the two threads share, and the message that has been looked for and is
not inserted yet. `accepted` are the messages that were not suppressed and whose entries
have not been purged since. -/
structure Receiver where
  sid_sq_id_received_time_map : UnorderedMap Str Int := fun _ => none
  pending : Option send_message_vector := none
  accepted : List send_message_vector := []

/-- The operations on the map: a message is looked for, it is inserted with the time that
was read before, and what is old is purged. -/
inductive Event where
  | keyExist (cdata : send_message_vector)
  | insert (time : Int)
  | eraseOldTime (now : Int)

namespace Receiver

/-- Whether a message that is looked for is suppressed. -/
def suppresses (s : Receiver) (cdata : send_message_vector) : Bool :=
  s.sid_sq_id_received_time_map.UnorderedMapKeyExist (key cdata)

/-- The sender looks for a message when the one before has been inserted. -/
def step (dual_map_clear_time : Int) (s : Receiver) : Event → Except Empty Receiver
  | .keyExist cdata =>
    .ok (if s.pending.isNone ∧ !s.suppresses cdata then { s with pending := some cdata } else s)
  | .insert time =>
    match s.pending with
    | none => .ok s
    | some cdata =>
      .ok {
        sid_sq_id_received_time_map := s.sid_sq_id_received_time_map.UnorderedMapInsert (key cdata) time
        pending := none
        accepted := s.accepted ++ [cdata] }
  | .eraseOldTime now =>
    let map := s.sid_sq_id_received_time_map.UnorderedMapEraseOldTime dual_map_clear_time now
    .ok { s with
      sid_sq_id_received_time_map := map
      accepted := s.accepted.filter fun cdata => map.UnorderedMapKeyExist (key cdata) }

/-- The check of a message that nothing comes between is that of the source. -/
theorem run_check (dual_map_clear_time now : Int) (s : Receiver) (cdata : send_message_vector)
    (hpending : s.pending = none) :
    (run (step dual_map_clear_time) s [.keyExist cdata, .insert now]).map (·.sid_sq_id_received_time_map) =
      .ok (duplicate_receive_check cdata now s.sid_sq_id_received_time_map).2 := by
  by_cases hexist : s.sid_sq_id_received_time_map.UnorderedMapKeyExist (key cdata) = true
  · simp [run, step, suppresses, hpending, duplicate_receive_check, hexist, Except.map]
  · simp [run, step, suppresses, hpending, duplicate_receive_check, hexist, Except.map]

/-- A correct operation: a message is suppressed exactly where one with the
same two numbers is accepted, and what is not older than the clear time is not purged. -/
def Exact (dual_map_clear_time : Int) (s : Receiver) : Event → Prop
  | .keyExist cdata => s.pending = none → (s.suppresses cdata = true ↔ identity cdata ∈ s.accepted.map identity)
  | .insert _ => True
  | .eraseOldTime now => ∀ k time, s.sid_sq_id_received_time_map k = some time → now - time < dual_map_clear_time →
      s.sid_sq_id_received_time_map.UnorderedMapEraseOldTime dual_map_clear_time now k = some time

/-- The condition on an operation: no accepted message with other numbers has the digits
of the message that is looked for. -/
def Separate (s : Receiver) : Event → Prop
  | .keyExist cdata => s.pending = none → ∀ m ∈ s.accepted, key m = key cdata → identity m = identity cdata
  | .insert _ => True
  | .eraseOldTime _ => True

/-- The entries of the map are those of the accepted messages, one for each; the message
that is not inserted yet has none. -/
structure Inv (s : Receiver) : Prop where
  isSome_iff : ∀ k, (s.sid_sq_id_received_time_map k).isSome = true ↔ ∃ m ∈ s.accepted, key m = k
  injective : ∀ m ∈ s.accepted, ∀ m' ∈ s.accepted, key m = key m' → identity m = identity m'
  pending : ∀ cdata, s.pending = some cdata → ∀ m ∈ s.accepted, key m ≠ key cdata

/-- Before any message nothing is in the map and nothing is accepted. -/
theorem Inv.init : Inv {} where
  isSome_iff := fun k => by simp
  injective := fun m hm => absurd hm List.not_mem_nil
  pending := fun _ h => by cases h

/-- The map suppresses a message exactly where an accepted one has the same key. The key joins
the digits of the two numbers, so this says nothing of the numbers yet. -/
theorem Inv.suppresses_iff {s : Receiver} (h : Inv s) (cdata : send_message_vector) :
    s.suppresses cdata = true ↔ ∃ m ∈ s.accepted, key m = key cdata :=
  h.isSome_iff (key cdata)

/-- Each operation keeps the entries those of the accepted messages. A purge takes the message
of an entry out of the accepted ones together with the entry. -/
theorem Inv.step {dual_map_clear_time : Int} {s s' : Receiver} {event : Event} (h : Inv s)
    (hstep : step dual_map_clear_time s event = .ok s') : Inv s' := by
  cases event with
  | keyExist cdata =>
    obtain rfl := Except.ok.inj hstep
    split
    · next hfree =>
      refine ⟨h.isSome_iff, h.injective, ?_⟩
      intro cdata' hcdata m hm hkey
      obtain rfl := Option.some.inj hcdata
      have hsuppressed := (h.suppresses_iff cdata).mpr ⟨m, hm, hkey⟩
      simp [hsuppressed] at hfree
    · exact h
  | insert time =>
    cases hpending : s.pending with
    | none =>
      simp only [Receiver.step, hpending] at hstep
      exact Except.ok.inj hstep ▸ h
    | some cdata =>
      simp only [Receiver.step, hpending] at hstep
      obtain rfl := Except.ok.inj hstep
      have hnew := h.pending cdata hpending
      have hnone : s.sid_sq_id_received_time_map (key cdata) = none := by
        rw [← Option.not_isSome_iff_eq_none, h.isSome_iff]
        rintro ⟨m, hm, hkey⟩
        exact hnew m hm hkey
      refine ⟨fun k => ?_, fun m hm m' hm' hkey => ?_, fun _ hcdata => by cases hcdata⟩
      · simp only [UnorderedMapInsert, hnone, Option.isSome_none, Bool.false_eq_true, if_false, List.mem_append,
          List.mem_singleton, or_and_right, exists_or, exists_eq_left]
        by_cases hk : k = key cdata
        · subst hk
          simp
        · simp only [Function.update_of_ne hk, h.isSome_iff, Ne.symm hk, or_false]
      · simp only [List.mem_append, List.mem_singleton] at hm hm'
        obtain hm | rfl := hm
        · obtain hm' | rfl := hm'
          · exact h.injective m hm m' hm' hkey
          · exact absurd hkey (hnew m hm)
        · obtain hm' | rfl := hm'
          · exact absurd hkey.symm (hnew m' hm')
          · rfl
  | eraseOldTime now =>
    obtain rfl := Except.ok.inj hstep
    refine ⟨fun k => ?_, fun m hm m' hm' => ?_, fun cdata hcdata m hm => ?_⟩
    · constructor
      · intro hk
        obtain ⟨m, hm, rfl⟩ := (h.isSome_iff k).mp (Option.isSome_of_isSome_filter _ _ hk)
        exact ⟨m, List.mem_filter.mpr ⟨hm, hk⟩, rfl⟩
      · rintro ⟨m, hm, rfl⟩
        exact (List.mem_filter.mp hm).2
    · exact h.injective m (List.mem_of_mem_filter hm) m' (List.mem_of_mem_filter hm')
    · exact h.pending cdata hcdata m (List.mem_of_mem_filter hm)

/-- What is not older than the clear time stays. -/
theorem exact_eraseOldTime (dual_map_clear_time : Int) (s : Receiver) (now : Int) :
    Exact dual_map_clear_time s (.eraseOldTime now) := by
  intro k time htime hyoung
  have hkeep : ¬ time < now - dual_map_clear_time := by omega
  simp [UnorderedMapEraseOldTime, htime, hkeep]

/-- An operation is exact under the invariant just if no accepted message with other numbers has
the same key. -/
theorem Inv.exact_iff {dual_map_clear_time : Int} {s : Receiver} (h : Inv s) (event : Event) :
    Exact dual_map_clear_time s event ↔ Separate s event := by
  cases event with
  | keyExist cdata =>
    simp only [Exact, Separate, h.suppresses_iff, List.mem_map]
    refine forall_congr' fun _ => ?_
    constructor
    · intro hexact m hm hkey
      obtain ⟨m', hm', hid⟩ := hexact.mp ⟨m, hm, hkey⟩
      have hkey' : key m' = key cdata := by
        simp only [identity, Prod.mk.injEq] at hid
        rw [key, key, hid.1, hid.2]
      exact (h.injective m hm m' hm' (hkey.trans hkey'.symm)).trans hid
    · intro hseparate
      constructor
      · rintro ⟨m, hm, hkey⟩
        exact ⟨m, hm, hseparate m hm hkey⟩
      · rintro ⟨m, hm, hid⟩
        refine ⟨m, hm, ?_⟩
        simp only [identity, Prod.mk.injEq] at hid
        rw [key, key, hid.1, hid.2]
  | insert time => exact Iff.rfl
  | eraseOldTime now => exact iff_of_true (exact_eraseOldTime dual_map_clear_time s now) trivial

/-- In a run the suppression is exact at every operation exactly where no message has the
digits of an accepted one with other numbers. -/
theorem exact_iff_separate (dual_map_clear_time : Int) (events : List Event) :
    Along (step dual_map_clear_time) (Exact dual_map_clear_time) {} events ↔
      Along (step dual_map_clear_time) Separate {} events := by
  have hall : ∀ s : Receiver, Inv s →
      (Along (step dual_map_clear_time) (Exact dual_map_clear_time) s events ↔
        Along (step dual_map_clear_time) Separate s events) := by
    induction events with
    | nil => exact fun _ _ => Iff.rfl
    | cons event events ih =>
      intro s hs
      simp only [Along]
      refine and_congr (hs.exact_iff event) ?_
      cases hstep : step dual_map_clear_time s event with
      | error e => exact Iff.rfl
      | ok s' => exact ih s' (hs.step hstep)
  exact hall {} Inv.init

/-- Stations whose numbers have as many digits as each other are told apart. -/
theorem identity_eq_of_key_eq {cdata cdata' : send_message_vector}
    (hdigits : (to_string_nat cdata.header.src_station_id.toNat).length =
      (to_string_nat cdata'.header.src_station_id.toNat).length)
    (hkey : key cdata = key cdata') : identity cdata = identity cdata' := by
  obtain ⟨hstation, hid⟩ := List.append_inj hkey hdigits
  have hstation' := UInt64.toNat_inj.mp (to_string_nat_injective hstation)
  have hid' := UInt64.toNat_inj.mp (to_string_nat_injective hid)
  rw [identity, identity, hstation', hid']

/-- Where all stations have numbers of `n` digits, the suppression is exact. -/
theorem exact_of_digits (dual_map_clear_time : Int) (n : Nat) {events : List Event}
    (hdigits : ∀ cdata, .keyExist cdata ∈ events → (to_string_nat cdata.header.src_station_id.toNat).length = n) :
    Along (step dual_map_clear_time) (Exact dual_map_clear_time) {} events := by
  let D (cdata : send_message_vector) : Prop := (to_string_nat cdata.header.src_station_id.toNat).length = n
  have hall : ∀ s : Receiver, (∀ m ∈ s.accepted, D m) → (∀ cdata, s.pending = some cdata → D cdata) →
      Along (step dual_map_clear_time) Separate s events := by
    induction events with
    | nil => exact fun _ _ _ => trivial
    | cons event events ih =>
      intro s haccepted hpending
      have hrest := ih fun cdata hmem => hdigits cdata (List.mem_cons_of_mem _ hmem)
      cases event with
      | keyExist cdata =>
        have hcdata : D cdata := hdigits cdata List.mem_cons_self
        refine ⟨fun _ m hm hkey => identity_eq_of_key_eq ((haccepted m hm).trans hcdata.symm) hkey, ?_⟩
        simp only [step]
        split
        · refine hrest _ haccepted fun cdata' hcdata' => ?_
          obtain rfl := Option.some.inj hcdata'
          exact hcdata
        · exact hrest s haccepted hpending
      | insert time =>
        refine ⟨trivial, ?_⟩
        cases hnew : s.pending with
        | none =>
          simp only [step, hnew]
          exact hrest s haccepted hpending
        | some cdata =>
          simp only [step, hnew]
          refine hrest _ (fun m hm => ?_) (fun _ h => by cases h)
          obtain hm | hm := List.mem_append.mp hm
          · exact haccepted m hm
          · obtain rfl := List.mem_singleton.mp hm
            exact hpending m hnew
      | eraseOldTime now =>
        exact ⟨trivial, hrest _ (fun m hm => haccepted m (List.mem_of_mem_filter hm)) hpending⟩
  exact (exact_iff_separate dual_map_clear_time events).mpr
    (hall {} (fun _ h => absurd h List.not_mem_nil) fun _ h => by cases h)

/-- A message of a station with a duplication check id. -/
def message (src_station_id duplication_check_id : UInt64) : send_message_vector :=
  { header := { src_station_id, duplication_check_id }, dm2_payload := [] }

/-- The message 3 of station 12 is taken for the message 23 of station 1. -/
theorem collision_not_exact : ¬ ∀ dual_map_clear_time events,
    Along (step dual_map_clear_time) (Exact dual_map_clear_time) {} events := by
  intro h
  have hexact := h 100 [.keyExist (message 1 23), .insert 0, .keyExist (message 12 3)]
  have hlast := (hexact.2.2.1 rfl).mp (by decide +kernel)
  exact absurd hlast (by decide +kernel)

end Receiver

end ProcSender

end IS

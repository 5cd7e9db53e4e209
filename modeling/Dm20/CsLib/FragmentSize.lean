import Dm20.CsLib.AnyPacket

namespace IS.Socket

open Slots

/-- The packets of a message: no division by a size that is not positive, at least one byte in
each packet and no more than the packet size, and the message when they are read in order. -/
structure Safe (src : send_message_vector) (send_size : Int) (fragments : List send_message) : Prop where
  divides : src.dm2_payload.length ≤ send_size - sizeof_send_message_header ∨
    0 < send_size - sizeof_send_message_header
  nonempty : ∀ buf ∈ fragments, 1 ≤ buf.header.payload_size.toNat
  fits : ∀ buf ∈ fragments, sizeof_send_message_header + buf.header.payload_size.toNat ≤ send_size
  payload : ∃ parts, fragments.mapM send_message.bytes = .ok parts ∧ parts.flatten = src.dm2_payload

/-- A message that is not empty, a packet size beyond the header, no packet above the array, and
a sum of the sizes that an `int` holds where the message is cut. -/
def SafeSizes (send_size : Int) (length : Nat) : Prop :=
  1 ≤ length ∧ 1 ≤ send_size - sizeof_send_message_header ∧
    (length ≤ MSGSIZE ∨ send_size - sizeof_send_message_header ≤ MSGSIZE) ∧
    (length ≤ send_size - sizeof_send_message_header ∨
      length + (send_size - sizeof_send_message_header) < 2 ^ 31)

instance (send_size : Int) (length : Nat) : Decidable (SafeSizes send_size length) :=
  inferInstanceAs (Decidable (_ ∧ _ ∧ _ ∧ _))

variable {src : send_message_vector} {send_size : Int} {duplication_id : UInt64} {uninitialized : Nat → Char}

private theorem length_bytes {buf : send_message} {s : Str} (h : buf.bytes = .ok s) :
    s.length = buf.header.payload_size.toNat := by
  unfold send_message.bytes at h
  split at h
  · rw [← Except.ok.inj h, List.length_map, List.length_range]
  · cases h

private theorem ofNat_le (n : Nat) : (UInt16.ofNat n).toNat ≤ n := by
  rw [UInt16.toNat_ofNat']
  exact Nat.mod_le _ _

/-- The packets hold no more bytes than their sizes allow. -/
theorem length_flatten_le {fragments : List send_message} {parts : List Str} {size : Nat}
    (hparts : fragments.mapM send_message.bytes = .ok parts)
    (hsize : ∀ buf ∈ fragments, buf.header.payload_size.toNat ≤ size) :
    parts.flatten.length ≤ fragments.length * size := by
  have hforall := Except.mapM_eq_ok hparts
  clear hparts
  induction hforall with
  | nil => simp
  | cons hbuf _ ih =>
    rw [List.forall_mem_cons] at hsize
    have hfirst := length_bytes hbuf
    have hrest := ih hsize.2
    rw [List.flatten_cons, List.length_append, List.length_cons, Nat.add_mul, Nat.one_mul]
    omega

/-- A packet that is made states a payload within the division size, and the piece that is
copied fits into the buffer of a packet. -/
private theorem fragment_bounds {payload_size division_size fragment_num : Int} {i : Nat} {buf : send_message}
    (h : fragment src payload_size division_size fragment_num duplication_id uninitialized i = .ok buf) :
    (buf.header.payload_size.toNat : Int) ≤ division_size ∧
      min division_size (payload_size - division_size * i) ≤ MSGSIZE := by
  simp only [fragment, Except.bind_eq_ok_iff] at h
  obtain ⟨offset, hoffset, rest, hrest, h⟩ := h
  obtain ⟨hint, -⟩ | ⟨hint, -⟩ := int_cases (division_size * i)
  · obtain rfl := Except.ok.inj (hint.symm.trans hoffset)
    obtain ⟨hint', -⟩ | ⟨hint', -⟩ := int_cases (payload_size - division_size * i)
    · obtain rfl := Except.ok.inj (hint'.symm.trans hrest)
      split at h
      · cases h
      · next hsize =>
        have hbuf := Except.ok.inj h
        have hle := ofNat_le (min division_size (payload_size - division_size * i)).toNat
        rw [← hbuf]
        refine ⟨?_, by omega⟩
        simp only
        omega
    · rw [hint'] at hrest
      cases hrest
  · rw [hint] at hoffset
    cases hoffset

/-- What must be true of the sizes when no step is undefined. -/
theorem convertToSendMessage_cases {fragments : List send_message}
    (h : convertToSendMessage src send_size duplication_id uninitialized = .ok fragments) :
    let division_size := send_size - sizeof_send_message_header
    let payload_size := (src.dm2_payload.length : Int).bmod (2 ^ 32)
    (payload_size ≤ division_size ∧ 0 ≤ payload_size ∧ payload_size ≤ MSGSIZE ∧ ∃ buf, fragments = [buf] ∧
      buf.header.payload_size = UInt16.ofNat payload_size.toNat) ∨
    (division_size < payload_size ∧ payload_size + division_size < 2 ^ 31 ∧
      (List.range ((payload_size + division_size - 1).tdiv division_size).toNat).mapM
        (fragment src payload_size division_size ((payload_size + division_size - 1).tdiv division_size) duplication_id
          uninitialized) = .ok fragments) := by
  intro division_size payload_size
  simp only [convertToSendMessage, Except.bind_eq_ok_iff] at h
  obtain ⟨size, hsize, h⟩ := h
  obtain ⟨hint, -⟩ | ⟨hint, -⟩ := int_cases (send_size - sizeof_send_message_header)
  · obtain rfl := Except.ok.inj (hint.symm.trans hsize)
    split at h
    · next hle =>
      split at h
      · cases h
      · next hbound =>
        exact .inl ⟨hle, by omega, by omega, _, (Except.ok.inj h).symm, rfl⟩
    · next hlt =>
      simp only [Except.bind_eq_ok_iff] at h
      obtain ⟨sum, hsum, last, hlast, h⟩ := h
      obtain ⟨hint', hrange⟩ | ⟨hint', -⟩ := int_cases (payload_size + division_size)
      · obtain rfl := Except.ok.inj (hint'.symm.trans hsum)
        obtain ⟨hint'', -⟩ | ⟨hint'', -⟩ := int_cases (payload_size + division_size - 1)
        · obtain rfl := Except.ok.inj (hint''.symm.trans hlast)
          split at h
          · cases h
          · exact .inr ⟨by omega, hrange.2, h⟩
        · rw [hint''] at hlast
          cases hlast
      · rw [hint'] at hsum
        cases hsum
  · rw [hint] at hsize
    cases hsize

private theorem bmod_le (n : Nat) : (n : Int).bmod (2 ^ 32) ≤ n := by
  rw [Int.bmod_def]
  split <;> omega

/-- The packets are safe only with sizes that are. -/
theorem sized_of_safe {fragments : List send_message}
    (h : convertToSendMessage src send_size duplication_id uninitialized = .ok fragments)
    (hsafe : Safe src send_size fragments) : SafeSizes send_size src.dm2_payload.length := by
  obtain ⟨parts, hparts, hflatten⟩ := hsafe.payload
  have hbmod := bmod_le src.dm2_payload.length
  obtain ⟨hle, hpos, hbound, buf, rfl, hsize⟩ | ⟨hlt, hsum, hfragments⟩ := convertToSendMessage_cases h
  · have hnonempty := hsafe.nonempty buf List.mem_cons_self
    have hshort : buf.header.payload_size.toNat ≤ ((src.dm2_payload.length : Int).bmod (2 ^ 32)).toNat :=
      hsize ▸ ofNat_le _
    have hlength := length_flatten_le hparts (List.forall_mem_singleton.mpr hshort)
    rw [hflatten, List.length_singleton, Nat.one_mul] at hlength
    exact ⟨by omega, by omega, .inl (by omega), .inl (by omega)⟩
  · have hdivision : 0 < send_size - sizeof_send_message_header := by
      rcases hsafe.divides with hle | hpos
      · omega
      · exact hpos
    obtain ⟨d, hd⟩ := Int.eq_ofNat_of_zero_le hdivision.le
    obtain ⟨p, hp⟩ : ∃ p : Nat, (src.dm2_payload.length : Int).bmod (2 ^ 32) = p :=
      Int.eq_ofNat_of_zero_le (by omega)
    rw [hd, hp] at hfragments
    rw [hd] at hdivision hlt hsum
    rw [hp] at hlt hsum hbmod
    have hcount : (((p : Int) + d - 1).tdiv d).toNat = (p + d - 1) / d := by
      rw [show (p : Int) + d - 1 = ((p + d - 1 : Nat) : Int) by omega, ← Int.ofNat_tdiv, Int.toNat_natCast]
    rw [hcount] at hfragments
    have hall := Except.mapM_eq_ok hfragments
    have hnumber : fragments.length = (p + d - 1) / d := by
      rw [← hall.length_eq, List.length_range]
    have hshort : ∀ buf ∈ fragments, buf.header.payload_size.toNat ≤ d := by
      intro buf hbuf
      obtain ⟨i, -, hi⟩ := Except.exists_of_mem_mapM hfragments hbuf
      exact Int.ofNat_le.mp (fragment_bounds hi).1
    have hlength := length_flatten_le hparts hshort
    have hmul := Nat.div_mul_le_self (p + d - 1) d
    rw [hflatten, hnumber] at hlength
    have hwhole : p = src.dm2_payload.length := by
      have hint : (src.dm2_payload.length : Int).bmod (2 ^ 32) = src.dm2_payload.length :=
        bmod_length (by omega)
      omega
    have hfirst : d ≤ MSGSIZE := by
      have hone : 1 ≤ (p + d - 1) / d := (Nat.one_le_div_iff (by omega)).mpr (by omega)
      obtain ⟨k, hk⟩ := Nat.exists_eq_add_of_le' hone
      rw [hk, List.range_succ_eq_map] at hall
      cases hall with
      | cons hzero _ =>
        have hbound := (fragment_bounds hzero).2
        rw [Nat.cast_zero, Int.mul_zero, Int.sub_zero] at hbound
        omega
    exact ⟨by omega, by omega, .inr (by omega), .inr (by omega)⟩

private theorem mapM_bytes_map {α : Type} {xs : List α} {buf : α → send_message} {part : α → Str}
    (h : ∀ x ∈ xs, (buf x).bytes = .ok (part x)) : (xs.map buf).mapM send_message.bytes = .ok (xs.map part) := by
  rw [List.mapM_map]
  exact Except.mapM_eq_map h

/-- The packets of a message of a size that fits. -/
theorem safe_of_sized (h : SafeSizes send_size src.dm2_payload.length) (hrange : send_size < 2 ^ 31)
    (duplication_id : UInt64) (uninitialized : Nat → Char) :
    ∃ fragments, convertToSendMessage src send_size duplication_id uninitialized = .ok fragments ∧
      Safe src send_size fragments := by
  obtain ⟨hlength, hpositive, harray, hsum⟩ := h
  obtain ⟨d, hd⟩ := Int.eq_ofNat_of_zero_le (Int.le_trans Int.one_nonneg hpositive)
  have hdivision : int (send_size - sizeof_send_message_header) = .ok d := by
    rw [← hd]
    exact int_eq_ok (by rw [sizeof_send_message_header] at *; omega)
  rw [hd] at hpositive harray hsum
  by_cases hwhole : src.dm2_payload.length ≤ d
  · have hsize : src.dm2_payload.length ≤ MSGSIZE := by
      rcases harray with hle | hle
      · exact hle
      · omega
    have hpayload : (UInt16.ofNat src.dm2_payload.length).toNat = src.dm2_payload.length := by
      rw [MSGSIZE] at hsize
      exact UInt16.toNat_ofNat_of_lt' (by simp only [UInt16.size]; omega)
    refine ⟨[whole src uninitialized], convertToSendMessage_fits hsize hwhole hdivision duplication_id uninitialized,
      .inl (by omega), ?_, ?_, [src.dm2_payload], ?_, List.flatten_singleton⟩
    · exact List.forall_mem_singleton.mpr (hpayload.symm ▸ hlength)
    · refine List.forall_mem_singleton.mpr ?_
      have hheader : (whole src uninitialized).header.payload_size.toNat = src.dm2_payload.length := hpayload
      omega
    · have hbytes : (whole src uninitialized).bytes = .ok src.dm2_payload := bytes_memcpy hsize rfl rfl
      have hpackets : (([()].map fun _ => whole src uninitialized).mapM send_message.bytes) =
          .ok ([()].map fun _ => src.dm2_payload) := mapM_bytes_map fun _ _ => hbytes
      exact hpackets
  · have hcut : d ≤ MSGSIZE := by omega
    have hlast : src.dm2_payload.length + d < 2 ^ 31 := by omega
    have hpart : ∀ i, (chunk d src.dm2_payload i).length ≤ d := fun i => by
      rw [length_chunk]
      omega
    have hheader : ∀ i, (part src d duplication_id uninitialized i).header.payload_size.toNat =
        (chunk d src.dm2_payload i).length := fun i => by
      have hle := hpart i
      rw [MSGSIZE] at hcut
      exact UInt16.toNat_ofNat_of_lt' (by simp only [UInt16.size]; omega)
    refine ⟨_, convertToSendMessage_parts (by omega) hcut hlast (by omega) hdivision duplication_id uninitialized,
      .inr (by omega), ?_, ?_, chunks d src.dm2_payload, ?_, flatten_chunks (by omega) _⟩
    · intro buf hbuf
      obtain ⟨i, hi, rfl⟩ := List.mem_map.mp hbuf
      rw [hheader]
      exact List.length_pos_iff.mpr (chunk_ne_nil (by omega) (List.mem_range.mp hi))
    · intro buf hbuf
      obtain ⟨i, -, rfl⟩ := List.mem_map.mp hbuf
      have hle := hpart i
      rw [hheader]
      omega
    · exact mapM_bytes_map fun i _ => bytes_memcpy ((hpart i).trans hcut) rfl rfl

/-- For every packet size that a configuration can have and every message, the packets are
safe just where the sizes are. -/
theorem safe_iff_sized (src : send_message_vector) (send_size : Int32) (duplication_id : UInt64)
    (uninitialized : Nat → Char) :
    (∃ fragments, convertToSendMessage src send_size.toInt duplication_id uninitialized = .ok fragments ∧
      Safe src send_size.toInt fragments) ↔ SafeSizes send_size.toInt src.dm2_payload.length := by
  constructor
  · rintro ⟨fragments, h, hsafe⟩
    exact sized_of_safe h hsafe
  · intro h
    exact safe_of_sized h send_size.toInt_lt duplication_id uninitialized

/-- A packet size that is just the header. -/
theorem headerOnly_not_safe : ¬ ∃ fragments, convertToSendMessage { header := {}, dm2_payload := "abc".toList }
    (168 : Int32).toInt 7 (fun _ => ' ') = .ok fragments ∧
      Safe { header := {}, dm2_payload := "abc".toList } (168 : Int32).toInt fragments := by
  rintro ⟨fragments, -, hsafe⟩
  have hdivides := hsafe.divides
  revert hdivides
  decide

end IS.Socket

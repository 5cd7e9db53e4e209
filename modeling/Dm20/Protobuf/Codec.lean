import Dm20.Lib.Except
import Dm20.Protobuf.Header

open Bytes

namespace IS

private theorem substr_of_isPrefix {s a b : Str} (hs : (a ++ b).IsPrefix s) {pos : Nat} (hpos : pos = a.length)
    {n : Int}
    (hn : n = b.length) : substr s pos n = .ok b := by
  obtain ⟨c, rfl⟩ := hs
  subst hpos hn
  rw [substr, if_pos (by simp), if_neg (by omega), List.append_assoc, List.drop_left, Int.toNat_natCast, List.take_left]

/-- A field is read back from the place where it was written, whatever stands behind it. -/
theorem memcpy_of_isPrefix {s a b : Str} (hs : (a ++ b).IsPrefix s) {pos n : Nat} (hpos : pos = a.length)
    (hn : n = b.length) : memcpy s pos n = .ok b := by
  obtain ⟨c, rfl⟩ := hs
  subst hpos hn
  rw [memcpy, if_pos (by simp; omega), List.append_assoc, List.append_assoc, List.drop_left, List.take_left]

private theorem ntohl_htonl (n : UInt32) : ntohl (htonl n) = n := by
  rw [ntohl, htonl, ofBigEndian_bigEndian, Nat.mod_eq_of_lt (by exact n.toNat_lt)]
  exact UInt32.ofNat_toNat

@[simp] theorem length_htonl (n : UInt32) : (htonl n).length = 4 :=
  length_bigEndian 4 n.toNat

private theorem ofBigEndian_singleton (n : Nat) : ofBigEndian [toChar n] = n % 256 := by
  rw [ofBigEndian, ofLittleEndian]
  simp [ofChar_toChar]

namespace ProtobufParser

/-- The layout of a header: the flag, two digits for the length of the table name,
the name, three numbers of four bytes with two of one byte between them, and the
session key. -/
def layout (digits tableName : Str) (payload_size mngId : UInt32) (fragment_index total_fragments : Nat)
    (key_length : UInt32) (key : Str) : Str :=
  ['3'] ++ digits ++ tableName ++ htonl payload_size ++ htonl mngId ++ [toChar fragment_index] ++ [toChar total_fragments] ++
    htonl key_length ++ key

private theorem createHeader_eq (mngId : UInt32) (tableName serializedStr : Str) (fragmentIndex totalFragments : Int16)
    (key : Str) :
    createHeader mngId tableName serializedStr fragmentIndex totalFragments key =
      layout (setw 2 (to_string_nat tableName.length)) tableName (UInt32.ofNat serializedStr.length) mngId
        fragmentIndex.toUInt16.toNat totalFragments.toUInt16.toNat (UInt32.ofNat key.length) key :=
  rfl

/-- A header of the layout is read back. -/
theorem getProtobufHeaderInfo_layout {digits tableName : Str} {n : Int32} (hdigits : digits.length = 2)
    (hn : stoi digits = .ok n) (hname : n.toInt = tableName.length) (payload_size mngId : UInt32)
    (fragment_index total_fragments : Nat) {key_length : UInt32} {key : Str}
    (hkey : key_length.toInt32.toInt = key.length)
    (rest : Str) :
    getProtobufHeaderInfo
        (layout digits tableName payload_size mngId fragment_index total_fragments key_length key ++ rest) = .ok {
      header := {
        flag := '3'
        table_name_length := n
        table_name := tableName
        payload_size := payload_size.toInt32
        mngId
        fragment_index := UInt8.ofNat fragment_index
        total_fragments := UInt8.ofNat total_fragments
        key_length := key_length.toInt32
        key }
      headerSize := Int32.ofNat (17 + tableName.length + key.length) } := by
  obtain ⟨s, hs⟩ : ∃ s, layout digits tableName payload_size mngId fragment_index total_fragments key_length key ++ rest = s :=
    ⟨_, rfl⟩
  have hflag : s = '3' :: s.tail := by
    rw [← hs]
    rfl
  have hbyte : ∀ n, UInt8.ofNat (ofBigEndian [toChar n]) = UInt8.ofNat n := fun n => by
    rw [ofBigEndian_singleton]
    exact UInt8.toNat_inj.mp (by simp)
  -- The parts of the header in turn, each with what stands before it.
  have hp8 : (layout digits tableName payload_size mngId fragment_index total_fragments key_length key).IsPrefix s :=
    ⟨rest, hs⟩
  have hp7 := (List.prefix_append _ key).trans hp8
  have hp6 := (List.prefix_append _ (htonl key_length)).trans hp7
  have hp5 := (List.prefix_append _ [toChar total_fragments]).trans hp6
  have hp4 := (List.prefix_append _ [toChar fragment_index]).trans hp5
  have hp3 := (List.prefix_append _ (htonl mngId)).trans hp4
  have hp2 := (List.prefix_append _ (htonl payload_size)).trans hp3
  have hp1 := (List.prefix_append _ tableName).trans hp2
  have hlength : substr s 1 2 = .ok digits := substr_of_isPrefix hp1 rfl (by rw [hdigits]; rfl)
  have hname' : substr s 3 n.toInt = .ok tableName := substr_of_isPrefix hp2 (by simp [hdigits]) hname
  have hsize : memcpy s (3 + tableName.length) 4 = .ok (htonl payload_size) :=
    memcpy_of_isPrefix hp3 (by simp [hdigits]; omega) (by simp)
  have hid : memcpy s (3 + tableName.length + 4) 4 = .ok (htonl mngId) :=
    memcpy_of_isPrefix hp4 (by simp [hdigits]; omega) (by simp)
  have hindex : memcpy s (3 + tableName.length + 4 + 4) 1 = .ok [toChar fragment_index] :=
    memcpy_of_isPrefix hp5 (by simp [hdigits]; omega) rfl
  have htotal : memcpy s (3 + tableName.length + 4 + 4 + 1) 1 = .ok [toChar total_fragments] :=
    memcpy_of_isPrefix hp6 (by simp [hdigits]; omega) rfl
  have hkeyLength : memcpy s (3 + tableName.length + 4 + 4 + 1 + 1) 4 = .ok (htonl key_length) :=
    memcpy_of_isPrefix hp7 (by simp [hdigits]; omega) (by simp)
  have hkey' : substr s (3 + tableName.length + 4 + 4 + 1 + 1 + 4) key_length.toInt32.toInt = .ok key :=
    substr_of_isPrefix hp8 (by simp [hdigits]; omega) hkey
  have hpos : 3 + tableName.length + 4 + 4 + 1 + 1 + 4 + key.length = 17 + tableName.length + key.length := by omega
  rw [hs, getProtobufHeaderInfo.eq_def, hflag]
  simp only [← hflag, if_true, hlength, hn, Except.mapError, bind, Except.bind, hname', hsize, hid, hindex, htotal,
    hkeyLength, ntohl_htonl, hkey', hbyte, hpos]
  rfl

/-- Two digits are enough for a length below a hundred. -/
theorem setw_two : ∀ n < 100, (setw 2 (to_string_nat n)).length = 2 ∧
    stoi (setw 2 (to_string_nat n)) = .ok (Int32.ofNat n) := by
  decide +kernel

/-- A length as an `int` is negative or what is left of it in 32 bits. -/
theorem toInt_ofNat_cases (n : Nat) :
    (Int32.ofNat n).toInt < 0 ∨ ((Int32.ofNat n).toInt = (n % 2 ^ 32 : Nat) ∧ n % 2 ^ 32 < 2 ^ 31) := by
  have hvalue : (Int32.ofNat n).toInt = if (n % 2 ^ 32 : Nat) < (2 ^ 32 + 1) / 2 then ((n % 2 ^ 32 : Nat) : Int)
      else (n % 2 ^ 32 : Nat) - 2 ^ 32 := by
    rw [Int32.toInt_ofNat', Int.bmod_def, ← Int.natCast_mod]
    simp only [Int32.size]
    norm_cast
  rw [hvalue]
  split
  · exact .inr ⟨rfl, by omega⟩
  · exact .inl (by omega)

/-- A number from 2³¹ on is taken for a negative one where it is read as an `int`. -/
theorem toInt_ofNat_neg {n : Nat} (hle : 2 ^ 31 ≤ n) (hlt : n < 2 ^ 32) : (Int32.ofNat n).toInt < 0 := by
  obtain hneg | ⟨-, hsmall⟩ := toInt_ofNat_cases n
  · exact hneg
  · omega

/-- A length below 2³¹ comes out of a 32 bit field as it went in. -/
theorem toInt_length {s : Str} (hs : s.length < 2 ^ 31) : (UInt32.ofNat s.length).toInt32.toInt = s.length := by
  rw [UInt32.toInt32_ofNat']
  exact Int32.toInt_ofNat_of_lt hs

private theorem toUInt8_toUInt16 (n : Nat) : UInt8.ofNat (Int16.ofNat n).toUInt16.toNat = UInt8.ofNat n := by
  apply UInt8.toNat_inj.mp
  simp

/-- The header of a piece is read back where two digits and an `int` are enough for
the lengths. -/
theorem getProtobufHeaderInfo_createHeader (mngId : UInt32) {tableName : Str} (hname : tableName.length ≤ 99)
    (serializedStr : Str) (i n : Nat) {key : Str} (hkey : key.length < 2 ^ 31) (rest : Str) :
    getProtobufHeaderInfo
        (createHeader mngId tableName serializedStr (Int16.ofNat i) (Int16.ofNat n) key ++ rest) = .ok {
      header := {
        flag := '3'
        table_name_length := Int32.ofNat tableName.length
        table_name := tableName
        payload_size := (UInt32.ofNat serializedStr.length).toInt32
        mngId
        fragment_index := UInt8.ofNat i
        total_fragments := UInt8.ofNat n
        key_length := (UInt32.ofNat key.length).toInt32
        key }
      headerSize := Int32.ofNat (17 + tableName.length + key.length) } := by
  obtain ⟨hdigits, hstoi⟩ := setw_two tableName.length (by omega)
  have hlength : (Int32.ofNat tableName.length).toInt = tableName.length := Int32.toInt_ofNat_of_lt (by omega)
  rw [createHeader_eq, getProtobufHeaderInfo_layout hdigits hstoi hlength _ _ _ _ (toInt_length hkey), toUInt8_toUInt16,
    toUInt8_toUInt16]

private theorem length_substr_le {s text : Str} {pos : Nat} {n : Nat} (h : substr s pos n = .ok text) :
    text.length ≤ n := by
  rw [substr] at h
  split at h
  · rw [if_neg (by omega)] at h
    obtain rfl := Except.ok.inj h
    rw [Int.toNat_natCast, List.length_take]
    exact Nat.min_le_left _ _
  · cases h

/-- The number in two characters. -/
theorem toInt_le_of_stoi {text : Str} (htext : text.length ≤ 2) {n : Int32} (h : stoi text = .ok n) : n.toInt ≤ 99 := by
  rw [stoi] at h
  split at h
  · cases h
  · next m hm =>
    split at h
    · next hrange =>
      obtain rfl := Except.ok.inj h
      have hlt := strtol_lt hm
      have hpow : (10 : Int) ^ text.length ≤ 10 ^ 2 := by
        exact_mod_cast Nat.pow_le_pow_right (by decide) htext
      rw [Int32.toInt_ofInt_of_le hrange.1 hrange.2]
      omega
    · cases h

/-- The table name that is read has a length of two digits. -/
theorem length_table_name_le {s : Str} {info : ProtobufHeaderInfo} (h : getProtobufHeaderInfo s = .ok info) :
    info.header.table_name.length ≤ 99 := by
  rw [getProtobufHeaderInfo.eq_def] at h
  split at h
  · cases h
  · next flag rest =>
    split at h
    · simp only [Except.bind_eq_ok_iff] at h
      obtain ⟨text, htext, n, hn, table_name, hname, payload_size, hsize, _, _, _, _, _, _, _, _, _, _, h⟩ := h
      have hresult : info.header.table_name = table_name := by
        rw [← Except.ok.inj h]
      have hstoi : stoi text = .ok n := by
        cases hstoi : stoi text with
        | error e =>
          rw [hstoi] at hn
          cases hn
        | ok m =>
          rw [hstoi] at hn
          rw [Except.ok.inj hn]
      have hle := toInt_le_of_stoi (length_substr_le htext) hstoi
      rw [hresult]
      rw [substr] at hname
      split at hname
      · next hpos =>
        by_cases hneg : n.toInt < 0
        · -- A negative length takes all of the text, and nothing is left to read.
          rw [if_pos hneg] at hname
          obtain rfl := Except.ok.inj hname
          rw [memcpy, if_neg] at hsize
          · cases hsize
          · rw [List.length_drop]
            omega
        · rw [if_neg hneg] at hname
          obtain rfl := Except.ok.inj hname
          rw [List.length_take]
          omega
      · cases hname
    · obtain rfl := Except.ok.inj h
      exact Nat.zero_le _

/-- The header has 17 bytes besides the name and the key. -/
theorem length_createHeader (mngId : UInt32) {tableName : Str} (hname : tableName.length ≤ 99) (serializedStr : Str)
    (i n : Int16) (key : Str) :
    (createHeader mngId tableName serializedStr i n key).length = 17 + tableName.length + key.length := by
  obtain ⟨hdigits, -⟩ := setw_two tableName.length (by omega)
  simp only [createHeader, List.length_append, hdigits, List.length_cons, List.length_nil, length_htonl]
  omega

/-- A header followed by its payload is read back: its fields, the length of the
payload and the place where it starts. -/
def RoundTrips (mngId : UInt32) (tableName key : Str) (i n : Nat) (payload : Str) : Prop :=
  ∃ info, getProtobufHeaderInfo
      (createHeader mngId tableName payload (Int16.ofNat i) (Int16.ofNat n) key ++ payload) = .ok info ∧
    info.header.mngId = mngId ∧ info.header.table_name = tableName ∧ info.header.key = key ∧
    info.header.fragment_index.toNat = i ∧ info.header.total_fragments.toNat = n ∧
    info.header.payload_size.toInt = payload.length ∧ 0 ≤ info.headerSize.toInt ∧
    (createHeader mngId tableName payload (Int16.ofNat i) (Int16.ofNat n) key ++ payload).drop info.headerSize.toInt.toNat =
      payload

private theorem le_length_createHeader (mngId : UInt32) (tableName serializedStr : Str) (i n : Int16) (key : Str) :
    17 + tableName.length + key.length ≤ (createHeader mngId tableName serializedStr i n key).length := by
  simp only [createHeader, setw, List.length_append, List.length_replicate, List.length_cons, List.length_nil,
    length_htonl]
  omega

/-- The header of a piece of a message is read back exactly where two digits are
enough for the length of the table name, one byte for the number of pieces, and an
`int` for the lengths of the payload and of the header. -/
theorem roundTrips_iff (mngId : UInt32) (tableName key : Str) {i n : Nat} (hi : i < n) (payload : Str) :
    RoundTrips mngId tableName key i n payload ↔
      tableName.length ≤ 99 ∧ n ≤ 255 ∧ payload.length < 2 ^ 31 ∧ 17 + tableName.length + key.length < 2 ^ 31 := by
  constructor
  · rintro ⟨info, hinfo, -, hname, -, -, htotal, hsize, hnonneg, hrest⟩
    have hle := length_table_name_le hinfo
    have hbyte := info.header.total_fragments.toNat_lt
    have hint := info.header.payload_size.toInt_lt
    have hheader := info.headerSize.toInt_lt
    have hlength := congrArg List.length hrest
    have hheaderLength := le_length_createHeader mngId tableName payload (Int16.ofNat i) (Int16.ofNat n) key
    rw [List.length_drop, List.length_append] at hlength
    rw [hname] at hle
    refine ⟨hle, by omega, by omega, by omega⟩
  · rintro ⟨hname, hn, hpayload, hheader⟩
    have hsize : (Int32.ofNat (17 + tableName.length + key.length)).toInt =
      (17 + tableName.length + key.length : Nat) :=
      Int32.toInt_ofNat_of_lt hheader
    refine ⟨_, getProtobufHeaderInfo_createHeader mngId hname payload i n (by omega) payload, rfl, rfl, rfl,
      ?_, ?_, ?_, ?_, ?_⟩
    · exact UInt8.toNat_ofNat_of_lt' (by simp only [UInt8.size]; omega)
    · exact UInt8.toNat_ofNat_of_lt' (by simp only [UInt8.size]; omega)
    · exact toInt_length hpayload
    · rw [hsize]
      exact Int.natCast_nonneg _
    · rw [hsize, Int.toNat_natCast, ← length_createHeader mngId hname payload (Int16.ofNat i) (Int16.ofNat n) key,
        List.drop_left]

/-- A header with a short table name and a short key comes back from its text. -/
theorem roundTrips_iff_ego : RoundTrips 7 "ego".toList "k".toList 0 2 "ab".toList ↔
    "ego".toList.length ≤ 99 ∧ 2 ≤ 255 ∧ "ab".toList.length < 2 ^ 31 ∧
      17 + "ego".toList.length + "k".toList.length < 2 ^ 31 :=
  roundTrips_iff 7 "ego".toList "k".toList (by decide) "ab".toList

/-- A table name of a hundred characters is not read back. -/
theorem longName_not_roundTrips : ¬ ∀ (mngId : UInt32) (tableName key : Str) (i n : Nat) (payload : Str), i < n →
    RoundTrips mngId tableName key i n payload := by
  intro h
  obtain ⟨info, hinfo, -, hname, -⟩ := h 0 (List.replicate 100 'a') [] 0 1 [] (by decide)
  have hle := length_table_name_le hinfo
  rw [hname, List.length_replicate] at hle
  omega

end ProtobufParser

end IS

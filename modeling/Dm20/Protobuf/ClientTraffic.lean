import Dm20.Lib.Run
import Dm20.Protobuf.Reordering

open Run

namespace IS

open ProtobufParser

/-- A complete header: two digits are enough for the length of the table name and an
`int` for that of the session key. -/
structure CompleteHeader where
  tableName : Str
  payload_size : UInt32
  mngId : UInt32
  fragment_index : UInt8
  total_fragments : UInt8
  key : Str
  length_tableName : tableName.length ≤ 99
  length_key : key.length < 2 ^ 31

namespace CompleteHeader

def text (header : CompleteHeader) : Str :=
  layout (setw 2 (to_string_nat header.tableName.length)) header.tableName header.payload_size header.mngId
    header.fragment_index.toNat header.total_fragments.toNat (UInt32.ofNat header.key.length) header.key

def size (header : CompleteHeader) : Nat :=
  17 + header.tableName.length + header.key.length

/-- The header of an index that is in the entry of its key, or below its own number of
fragments where there is none. -/
def Fits (header : CompleteHeader) (recvDataMap : RecvDataMap) : Prop :=
  match recvDataMap header.key with
  | some data => header.size < 2 ^ 31 ∧ header.fragment_index.toNat < data.length
  | none => header.fragment_index.toNat < header.total_fragments.toNat

@[simp] theorem length_text (header : CompleteHeader) : header.text.length = header.size := by
  obtain ⟨hdigits, -⟩ := setw_two header.tableName.length (by have := header.length_tableName; omega)
  simp only [text, layout, size, List.length_append, hdigits, List.length_cons, List.length_nil, length_htonl]
  omega

/-- The header is read back from the text that begins with it. -/
private theorem getProtobufHeaderInfo_text (header : CompleteHeader) (rest : Str) :
    getProtobufHeaderInfo (header.text ++ rest) = .ok {
      header := {
        flag := '3'
        table_name_length := Int32.ofNat header.tableName.length
        table_name := header.tableName
        payload_size := header.payload_size.toInt32
        mngId := header.mngId
        fragment_index := header.fragment_index
        total_fragments := header.total_fragments
        key_length := (UInt32.ofNat header.key.length).toInt32
        key := header.key }
      headerSize := Int32.ofNat header.size } := by
  have hname := header.length_tableName
  obtain ⟨hdigits, hstoi⟩ := setw_two header.tableName.length (by omega)
  rw [text, getProtobufHeaderInfo_layout hdigits hstoi (Int32.toInt_ofNat_of_lt (by omega)) _ _ _ _
    (toInt_length header.length_key), UInt8.ofNat_toNat, UInt8.ofNat_toNat]
  rfl

/-- The size of a complete header does not come out as 0. -/
theorem ofNat_size_ne_zero (header : CompleteHeader) : Int32.ofNat header.size ≠ 0 := by
  have hname := header.length_tableName
  have hkey := header.length_key
  intro h
  have hzero : (Int32.ofNat header.size).toInt = 0 := congrArg Int32.toInt h
  by_cases hsize : header.size < 2 ^ 31
  · have hnat : (Int32.ofNat header.size).toInt = header.size := Int32.toInt_ofNat_of_lt hsize
    rw [hnat, size] at hzero
    omega
  · have hneg := toInt_ofNat_neg (Nat.le_of_not_lt hsize) (by rw [size]; omega)
    omega

/-- A text with a complete header is taken in exactly where its index is in range. -/
theorem isOk_dataIntegration_iff (header : CompleteHeader) (rest : Str) (recvDataMap : RecvDataMap) :
    (∃ result, NetworkSource.dataIntegration (header.text ++ rest) recvDataMap = .ok result) ↔
    header.Fits recvDataMap := by
  have hname := header.length_tableName
  have hkey := header.length_key
  have hlength : header.size ≤ (header.text ++ rest).length := by
    rw [List.length_append, length_text]
    omega
  have hstep : NetworkSource.dataIntegration (header.text ++ rest) recvDataMap = _ :=
    dataIntegration_eq_integrate .networkSource (header.getProtobufHeaderInfo_text rest) header.ofNat_size_ne_zero recvDataMap
  rw [hstep, Fits]
  by_cases hsize : header.size < 2 ^ 31
  · rw [integrate_eq (Int32.toInt_ofNat_of_lt hsize) hlength]
    dsimp only
    cases recvDataMap header.key with
    | some data =>
      by_cases hi : header.fragment_index.toNat < data.length
      · simp only [hi, if_true, hsize, Except.ok.injEq, exists_eq', and_self]
      · simp only [hi, if_false, and_false, reduceCtorEq, exists_false]
    | none =>
      by_cases hi : header.fragment_index.toNat < header.total_fragments.toNat
      · simp only [hi, if_true, Except.ok.injEq, exists_eq']
      · simp only [hi, if_false, reduceCtorEq, exists_false]
  · have hneg := toInt_ofNat_neg (Nat.le_of_not_lt hsize) (by rw [size]; omega)
    rw [integrate]
    dsimp only
    cases recvDataMap header.key with
    | some data =>
      -- The size as a position is beyond the end of the text.
      simp only [if_neg (Int.not_le.mpr hneg), hsize, false_and, iff_false, not_exists]
      intro result h
      cases h
    | none =>
      by_cases hi : header.fragment_index.toNat < header.total_fragments.toNat
      · simp only [atPos_eq, List.length_replicate, hi, if_true, iff_true]
        exact ⟨_, rfl⟩
      · simp only [atPos_eq, List.length_replicate, hi, if_false, iff_false, not_exists]
        intro result h
        cases h

end CompleteHeader

/-- The parser and the step read nothing beyond a text and let no exception out, and a
text without a complete header is ignored. -/
structure Safe (recvDataMap : RecvDataMap) (buf : Str) : Prop where
  parses : ∃ info, getProtobufHeaderInfo buf = .ok info
  integrates : ∃ result, NetworkSource.dataIntegration buf recvDataMap = .ok result
  ignored : (¬ ∃ header : CompleteHeader, header.text.IsPrefix buf) →
    NetworkSource.dataIntegration buf recvDataMap = .ok ([], recvDataMap)

/-- The condition on a text: it is not empty, and with the flag of a header it begins
with a complete one of an index in range. -/
structure Orderly (recvDataMap : RecvDataMap) (buf : Str) : Prop where
  ne_nil : buf ≠ []
  complete : buf.head? = some '3' → ∃ header : CompleteHeader, header.text.IsPrefix buf ∧ header.Fits recvDataMap

private theorem getProtobufHeaderInfo_of_ne {buf : Str} (hne : buf ≠ []) (hflag : buf.head? ≠ some '3') :
    getProtobufHeaderInfo buf = .ok {} := by
  cases buf with
  | nil => exact absurd rfl hne
  | cons flag rest =>
    rw [getProtobufHeaderInfo.eq_def]
    exact if_neg fun h => hflag (congrArg some h)

/-- A text without the flag is passed over. -/
theorem dataIntegration_of_ne {buf : Str} (hne : buf ≠ []) (hflag : buf.head? ≠ some '3') (recvDataMap : RecvDataMap) :
    NetworkSource.dataIntegration buf recvDataMap = .ok ([], recvDataMap) := by
  rw [NetworkSource.dataIntegration, getProtobufHeaderInfo_of_ne hne hflag]
  rfl

/-- A fragment that meets the condition reads nothing out of range. -/
theorem Orderly.safe {recvDataMap : RecvDataMap} {buf : Str} (h : Orderly recvDataMap buf) : Safe recvDataMap buf := by
  by_cases hflag : buf.head? = some '3'
  · obtain ⟨header, ⟨rest, rfl⟩, hfits⟩ := h.complete hflag
    exact {
      parses := ⟨_, header.getProtobufHeaderInfo_text rest⟩
      integrates := (header.isOk_dataIntegration_iff rest recvDataMap).mpr hfits
      ignored := fun hnot => absurd ⟨header, rest, rfl⟩ hnot }
  · exact {
      parses := ⟨_, getProtobufHeaderInfo_of_ne h.ne_nil hflag⟩
      integrates := ⟨_, dataIntegration_of_ne h.ne_nil hflag recvDataMap⟩
      ignored := fun _ => dataIntegration_of_ne h.ne_nil hflag recvDataMap }

/-- The map after a text. -/
def take_in (recvDataMap : RecvDataMap) (buf : Str) : Except Failure RecvDataMap :=
  (NetworkSource.dataIntegration buf recvDataMap).map Prod.snd

/-- Whatever texts come from the clients, headers or not, in parts or whole: where each meets
the condition, all of them are taken in safely. -/
theorem safe_of_orderly (bufs : List Str) (h : Along take_in Orderly (fun _ => none) bufs) :
    Along take_in Safe (fun _ => none) bufs :=
  h.imp fun _ _ hbuf => hbuf.safe

/-- The first of two fragments for the table `t` of the session `k`. -/
def firstHeader : CompleteHeader where
  tableName := ['t']
  payload_size := 2
  mngId := 0
  fragment_index := 0
  total_fragments := 2
  key := ['k']
  length_tableName := by decide
  length_key := by decide

/-- A text that is no header, and then a first fragment, leave the reception without a fault. -/
theorem safe_of_orderly_greeting : Along take_in Safe (fun _ => none) ["hello".toList, firstHeader.text ++ ['a', 'b']] := by
  apply safe_of_orderly
  refine Along.cons ⟨by decide, fun h => absurd h (by decide)⟩ fun recvDataMap hstep => ?_
  rw [take_in, dataIntegration_of_ne (by decide) (by decide)] at hstep
  obtain rfl := Except.ok.inj hstep
  refine Along.cons ⟨by decide, fun _ => ⟨firstHeader, List.prefix_append _ _, ?_⟩⟩ fun _ _ => trivial
  exact show (0 : Nat) < 2 by decide

/-- A header of the flag alone raises an exception. -/
theorem flagAlone_not_safe : ¬ ∀ bufs : List Str, Along take_in Safe (fun _ => none) bufs := by
  intro h
  obtain ⟨info, hinfo⟩ := (h [['3']]).1.parses
  cases hinfo

end IS

import Dm20.Protobuf.Codec
import Dm20.Transfer.IsHeader

open Bytes

namespace IS

open StringUtil ProtobufParser TransferOperator CsReceiver

/-- A copy from the front reads the text and the zero behind it, and nothing further. -/
theorem memcpy_zero {s : Str} {n : Nat} : memcpy s 0 n =
    if n ≤ s.length + 1 then .ok ((s ++ [Char.ofNat 0]).take n) else .error .undefined := by
  rw [memcpy, Nat.zero_add, List.drop_zero]

/-- The first byte of a text that may be empty is the zero behind it. -/
theorem headD_take_one (s : Str) : ((s ++ [Char.ofNat 0]).take 1).headD (Char.ofNat 0) = s.headD (Char.ofNat 0) := by
  cases s with
  | nil => rfl
  | cons c s => rfl

/-- The flag of a header is the first byte. -/
theorem compressFlg_of_getIsHeader {buf : Str} {info info' : IsHeaderInfo} (h : getIsHeader buf info = .ok info') :
    info'.header.compressFlg = buf.headD (Char.ofNat 0) := by
  simp only [getIsHeader, Except.bind_eq_ok_iff] at h
  obtain ⟨flg, hflg, h⟩ := h
  rw [memcpy_zero, if_pos (by omega)] at hflg
  rw [← Except.ok.inj hflg, headD_take_one] at h
  split at h
  · split at h
    · rw [← Except.ok.inj h]
    · split at h
      · simp only [Except.bind_eq_ok_iff] at h
        obtain ⟨_, _, _, _, _, _, _, _, h⟩ := h
        rw [← Except.ok.inj h]
      · rw [← Except.ok.inj h]
  · simp only [Except.bind_eq_ok_iff] at h
    obtain ⟨_, _, _, _, _, _, h⟩ := h
    rw [← Except.ok.inj h]

/-- A schema name is looked for within a hundred bytes. -/
theorem length_schema_name_le {buf : Str} {info info' : IsHeaderInfo} (hflag : buf.headD (Char.ofNat 0) = '3')
    (h : getIsHeader buf info = .ok info') : 99 ≤ buf.length ∧ info'.header.schema_name.length ≤ 97 := by
  simp only [getIsHeader, Except.bind_eq_ok_iff] at h
  obtain ⟨flg, hflg, h⟩ := h
  rw [memcpy_zero, if_pos (by omega)] at hflg
  rw [← Except.ok.inj hflg, headD_take_one, hflag, if_pos (by decide), if_neg (by decide), if_pos rfl] at h
  simp only [Except.bind_eq_ok_iff] at h
  obtain ⟨bufStr, hbuf, _, _, n, _, schema_name, hname, h⟩ := h
  rw [memcpy_zero] at hbuf
  split at hbuf
  · next hlength =>
    refine ⟨by omega, ?_⟩
    rw [← Except.ok.inj h]
    have hle : bufStr.length ≤ 100 := by
      rw [← Except.ok.inj hbuf, List.length_take]
      exact Nat.min_le_left _ _
    have hdrop : (bufStr.drop 3).length ≤ 97 := by
      rw [List.length_drop]
      omega
    rw [substr] at hname
    split at hname
    · rw [← Except.ok.inj hname]
      dsimp only
      split
      · exact hdrop
      · exact (List.length_take_le' _ _).trans hdrop
    · cases hname
  · cases hbuf

/-- The header with a schema name is read, where the buffer is long enough. -/
theorem getIsHeader_digits {digits : Str} {n : Int32} (hdigits : digits.length = 2) (hn : stoi digits = .ok n)
    (hnonneg : 0 ≤ n.toInt) {rest : Str} (hlength : 96 ≤ rest.length) (info : IsHeaderInfo) :
    getIsHeader ('3' :: (digits ++ rest)) info = .ok {
      header := { info.header with
        compressFlg := '3'
        schema_name := ((rest ++ [Char.ofNat 0]).take 97).take n.toInt.toNat }
      headerSize := n.toInt + 3 } := by
  obtain ⟨d, e, rfl⟩ : ∃ d e, digits = [d, e] := List.length_eq_two.mp hdigits
  have hflg : memcpy ('3' :: ([d, e] ++ rest)) 0 1 = .ok ['3'] := by
    rw [memcpy_zero, if_pos (by omega)]
    rfl
  have hbuf : memcpy ('3' :: ([d, e] ++ rest)) 0 100 = .ok ('3' :: d :: e :: (rest ++ [Char.ofNat 0]).take 97) := by
    rw [memcpy_zero, if_pos (by simp; omega)]
    rfl
  have hnum : substr ('3' :: d :: e :: (rest ++ [Char.ofNat 0]).take 97) 1 2 = .ok [d, e] := by
    rw [substr, if_pos (by simp)]
    rfl
  have hname : substr ('3' :: d :: e :: (rest ++ [Char.ofNat 0]).take 97) 3 n.toInt =
      .ok (((rest ++ [Char.ofNat 0]).take 97).take n.toInt.toNat) := by
    rw [substr, if_pos (by simp), if_neg (by omega)]
    rfl
  rw [getIsHeader, hflg]
  simp only [bind, Except.bind, List.headD_cons, hbuf, hnum, hn, Except.mapError, hname]
  rfl

namespace TransferOperator

private theorem length_sendText (tablename retXML : Str) :
    tablename.length + retXML.length < (sendText tablename retXML).length := by
  simp only [sendText]
  split
  · simp only [List.length_append, List.length_cons]
    omega
  · simp only [List.length_append, List.length_cons]
    omega

private theorem headD_sendText (tablename retXML : Str) : (sendText tablename retXML).headD (Char.ofNat 0) = '3' := by
  simp only [sendText]
  split
  · rfl
  · rfl

private theorem digits_eq_setw : ∀ n < 100,
    (if (to_string_nat n).length = 1 then '0' :: to_string_nat n else to_string_nat n) = setw 2 (to_string_nat n) := by
  decide +kernel

/-- The text for a table name whose length has two digits at most. -/
theorem sendText_eq {tablename : Str} (hname : tablename.length ≤ 99) (retXML : Str) :
    sendText tablename retXML = '3' :: (setw 2 (to_string_nat tablename.length) ++ (tablename ++ retXML)) := by
  rw [← digits_eq_setw tablename.length (by omega)]
  simp only [sendText]
  split
  · simp only [List.cons_append, List.nil_append, List.append_assoc]
  · simp only [List.cons_append, List.nil_append, List.append_assoc]

end TransferOperator

namespace CsReceiver

private theorem behind_eq_ok {payload rest : Str} {headerSize : Nat} (h : behind payload headerSize = .ok rest) :
    headerSize ≤ payload.length ∧ rest = payload.drop headerSize := by
  rw [behind, if_neg (by omega)] at h
  split at h
  · next hle =>
    rw [Int.toNat_natCast] at h
    exact ⟨by omega, (Except.ok.inj h).symm⟩
  · cases h

private theorem push_eq_iff {data data' : RecvData} {cs_rcv_q : List RecvData} :
    push data cs_rcv_q = cs_rcv_q ++ [data'] ↔ 0 < (Int32.ofNat data.payload.length).toInt ∧ data = data' := by
  rw [push]
  by_cases hpos : 0 < (Int32.ofNat data.payload.length).toInt
  · rw [if_pos hpos, List.append_cancel_left_eq, List.singleton_inj, and_iff_right hpos]
  · rw [if_neg hpos]
    exact ⟨fun h => absurd (List.self_eq_append_right.mp h) (List.cons_ne_nil data' []), fun h => absurd h.1 hpos⟩

/-- The digits in front of a text that begins as the one that is sent does. -/
theorem take_three {digits rest text : Str} (hdigits : digits.length = 2)
    (htext : text.IsPrefix ('3' :: (digits ++ rest)))
    (hlength : 3 ≤ text.length) : text = '3' :: (digits ++ text.drop 3) := by
  obtain ⟨tail, htail⟩ := htext
  obtain ⟨d, e, rfl⟩ : ∃ d e, digits = [d, e] := List.length_eq_two.mp hdigits
  obtain ⟨a, b, c, text, rfl⟩ : ∃ a b c text', text = a :: b :: c :: text' := by
    match text, hlength with
    | a :: b :: c :: text, _ => exact ⟨a, b, c, text, rfl⟩
  simp only [List.cons_append, List.cons.injEq] at htail
  obtain ⟨rfl, rfl, rfl, -⟩ := htail
  rfl

/-- The header of the text that is sent, read from a front part of it. -/
theorem getIsHeader_of_isPrefix {tablename retXML text : Str} (hname : tablename.length ≤ 97)
    (htext : text.IsPrefix (sendText tablename retXML)) (hlength : 99 ≤ text.length) (info : IsHeaderInfo) :
    getIsHeader text info = .ok {
      header := { info.header with
        compressFlg := '3'
        schema_name := ((text.drop 3 ++ [Char.ofNat 0]).take 97).take tablename.length }
      headerSize := (tablename.length + 3 : Nat) } := by
  obtain ⟨hdigits, hstoi⟩ := setw_two tablename.length (by omega)
  have hint : (Int32.ofNat tablename.length).toInt = tablename.length := Int32.toInt_ofNat_of_lt (by omega)
  rw [sendText_eq (by omega)] at htext
  have hheader := getIsHeader_digits hdigits hstoi (by omega)
    (show 96 ≤ (text.drop 3).length by rw [List.length_drop]; omega) info
  rw [← take_three hdigits htext (by omega), hint, Int.toNat_natCast] at hheader
  exact hheader

/-- A front part of the text that is sent, whose header is read and which is put into the
queue: it has to be all of it. -/
theorem finish_iff {tablename retXML text : Str} (hretXML : retXML ≠ [])
    (htext : text.IsPrefix (sendText tablename retXML))
    (info : IsHeaderInfo) (fd_name : Str) (cs_rcv_q : List RecvData) :
    (∃ data, (do finish fd_name text (← getIsHeader text info) cs_rcv_q) = .ok (cs_rcv_q ++ [data]) ∧
        data.schema_name = tablename ∧ data.payload = retXML) ↔
      text = sendText tablename retXML ∧ tablename.length ≤ 97 ∧ 99 ≤ text.length ∧
        0 < (Int32.ofNat retXML.length).toInt := by
  constructor
  · rintro ⟨data, h, rfl, rfl⟩
    obtain ⟨info', hinfo, h⟩ := Except.bind_eq_ok_iff.mp h
    have hflg := compressFlg_of_getIsHeader hinfo
    rw [finish, hflg] at h
    by_cases hthree : text.headD (Char.ofNat 0) = '3'
    · obtain ⟨hlength, hschema⟩ := length_schema_name_le hthree hinfo
      rw [if_pos hthree] at h
      obtain ⟨rest, hrest, h⟩ := Except.bind_eq_ok_iff.mp h
      obtain ⟨hpos, rfl⟩ := push_eq_iff.mp (Except.ok.inj h)
      have hheader := getIsHeader_of_isPrefix hschema htext hlength info
      rw [hinfo] at hheader
      rw [Except.ok.inj hheader] at hrest
      obtain ⟨hle, hdrop⟩ := behind_eq_ok hrest
      have hsent := congrArg List.length (sendText_eq (show info'.header.schema_name.length ≤ 99 by omega) rest)
      have hdigits := (setw_two info'.header.schema_name.length (by omega)).1
      have hrestLength := congrArg List.length hdrop
      simp only [List.length_cons, List.length_append, hdigits] at hsent
      rw [List.length_drop] at hrestLength
      refine ⟨htext.eq_of_length ?_, hschema, hlength, hpos⟩
      dsimp only
      omega
    · rw [if_neg hthree] at h
      obtain ⟨hpos, rfl⟩ := push_eq_iff.mp (Except.ok.inj h)
      cases text with
      | nil => exact absurd rfl hretXML
      | cons c text =>
        obtain ⟨tail, htail⟩ := htext
        have hhead := congrArg (fun s => s.headD (Char.ofNat 0)) htail
        rw [headD_sendText] at hhead
        exact absurd hhead hthree
  · rintro ⟨rfl, hname, hlength, hpos⟩
    obtain ⟨hdigits, -⟩ := setw_two tablename.length (by omega)
    obtain ⟨d, e, hde⟩ : ∃ d e, setw 2 (to_string_nat tablename.length) = [d, e] := List.length_eq_two.mp hdigits
    have hsent : sendText tablename retXML = '3' :: d :: e :: (tablename ++ retXML) := by
      rw [sendText_eq (by omega), hde]
      rfl
    have hschema : (((sendText tablename retXML).drop 3 ++ [Char.ofNat 0]).take 97).take tablename.length =
      tablename := by
      rw [hsent, List.take_take, Nat.min_eq_left hname, List.drop_succ_cons, List.drop_succ_cons, List.drop_succ_cons,
        List.drop_zero, List.append_assoc, List.take_left]
    have hbehind : behind (sendText tablename retXML) (tablename.length + 3 : Nat) = .ok retXML := by
      rw [behind, if_neg (by omega), if_pos (by rw [hsent]; simp; omega), hsent, Int.toNat_natCast]
      simp
    refine ⟨⟨retXML, tablename, fd_name⟩, ?_, rfl, rfl⟩
    rw [getIsHeader_of_isPrefix hname htext hlength info, hschema]
    simp only [bind, Except.bind, finish, if_true, hbehind]
    exact congrArg Except.ok (push_eq_iff.mpr ⟨hpos, rfl⟩)

end CsReceiver

namespace StringUtil

/-- The header has 17 bytes. -/
theorem length_bytes (header : IsHeader) : header.bytes.length = 17 := by
  simp [IsHeader.bytes]

private theorem toInt32_ofLittleEndian (n : Int32) :
    (UInt32.ofNat (ofLittleEndian (littleEndian 4 n.toUInt32.toNat))).toInt32 = n := by
  rw [ofLittleEndian_littleEndian, Nat.mod_eq_of_lt (by exact n.toUInt32.toNat_lt), UInt32.ofNat_toNat]
  rfl

private theorem toInt64_ofLittleEndian (n : Int64) :
    (UInt64.ofNat (ofLittleEndian (littleEndian 8 n.toUInt64.toNat))).toInt64 = n := by
  rw [ofLittleEndian_littleEndian, Nat.mod_eq_of_lt (by exact n.toUInt64.toNat_lt), UInt64.ofNat_toNat]
  rfl

/-- The header of a compressed text is read back. -/
theorem getIsHeader_bytes {header : IsHeader} (hflg : header.compressFlg = '1' ∨ header.compressFlg = '2') (rest : Str)
    (info : IsHeaderInfo) : getIsHeader (header.bytes ++ rest) info = .ok {
      header := { header with schema_name := info.header.schema_name }
      headerSize := 17 } := by
  obtain ⟨s, hs⟩ : ∃ s, header.bytes ++ rest = s := ⟨_, rfl⟩
  have hp4 : header.bytes.IsPrefix s := ⟨rest, hs⟩
  have hp3 := (List.prefix_append _ (littleEndian 4 header.seq.toUInt32.toNat)).trans hp4
  have hp2 := (List.prefix_append _ (littleEndian 8 header.key.toUInt64.toNat)).trans hp3
  have hp1 := (List.prefix_append _ (littleEndian 4 header.length.toUInt32.toNat)).trans hp2
  have hflag : memcpy s 0 1 = .ok [header.compressFlg] := memcpy_of_isPrefix (a := []) hp1 rfl rfl
  have hlength : memcpy s 1 4 = .ok (littleEndian 4 header.length.toUInt32.toNat) :=
    memcpy_of_isPrefix hp2 rfl (by simp)
  have hkey : memcpy s 5 8 = .ok (littleEndian 8 header.key.toUInt64.toNat) :=
    memcpy_of_isPrefix hp3 (by simp) (by simp)
  have hseq : memcpy s 13 4 = .ok (littleEndian 4 header.seq.toUInt32.toNat) :=
    memcpy_of_isPrefix hp4 (by simp) (by simp)
  have hnot : ¬ (header.compressFlg ≠ '1' ∧ header.compressFlg ≠ '2') := by
    rintro ⟨hone, htwo⟩
    exact hflg.elim hone htwo
  rw [hs, getIsHeader, hflag]
  simp only [bind, Except.bind, List.headD_cons, if_neg hnot, hlength, hkey, hseq, toInt32_ofLittleEndian,
    toInt64_ofLittleEndian]
  rfl

/-- A compressed text whose length is not too large is sent with its header. -/
theorem setCompressedBufWithHeader_of_le {zlib : Zlib} {zstd : Zstd} {inStr outBuf : Str} {compressFlg : Char}
    (hcomp : compBuf zlib zstd inStr compressFlg = .ok outBuf) (hne : outBuf ≠ []) (hle : outBuf.length ≤ 2 ^ 31 - 18)
    (key : Int64) : setCompressedBufWithHeader zlib zstd inStr compressFlg key =
      .ok (({ compressFlg, length := Int32.ofNat outBuf.length, key, seq := 0 } : IsHeader).bytes ++ outBuf) := by
  have hlength : (Int32.ofNat outBuf.length).toInt = outBuf.length := Int32.toInt_ofNat_of_lt (by omega)
  have hint : int (17 + (outBuf.length : Int)) = .ok (17 + (outBuf.length : Int)) := int_eq_ok ⟨by omega, by omega⟩
  rw [setCompressedBufWithHeader, hcomp]
  simp only [bind, Except.bind, if_neg hne, hlength, hint, if_neg (show ¬ (17 + (outBuf.length : Int)) < 0 by omega),
    if_neg (show ¬ (outBuf.length : Int) < 0 by omega), Int.toNat_natCast, List.take_length]
  rfl

/-- One whose length is too large is not sent, or it is cut off. -/
theorem setCompressedBufWithHeader_of_lt {zlib : Zlib} {zstd : Zstd} {inStr outBuf : Str} {compressFlg : Char}
    (hcomp : compBuf zlib zstd inStr compressFlg = .ok outBuf) (hlt : 2 ^ 31 - 18 < outBuf.length) (key : Int64) :
    (∃ e, setCompressedBufWithHeader zlib zstd inStr compressFlg key = .error e) ∨
      (2 ^ 32 ≤ outBuf.length ∧ ∃ n < 2 ^ 31 - 17, setCompressedBufWithHeader zlib zstd inStr compressFlg key =
        .ok (({ compressFlg, length := Int32.ofNat n, key, seq := 0 } : IsHeader).bytes ++ outBuf.take n)) := by
  have hne : outBuf ≠ [] := List.ne_nil_of_length_pos (by omega)
  rw [setCompressedBufWithHeader, hcomp]
  simp only [bind, Except.bind, if_neg hne]
  obtain hneg | ⟨hlength, hsmall⟩ := toInt_ofNat_cases outBuf.length
  · left
    cases hsize : int (17 + (Int32.ofNat outBuf.length).toInt) with
    | error e => exact ⟨e, rfl⟩
    | ok size =>
      by_cases hneg' : size < 0
      · simp only [if_pos hneg']
        exact ⟨_, rfl⟩
      · simp only [if_neg hneg', if_pos hneg]
        exact ⟨_, rfl⟩
  · rw [hlength]
    by_cases hfits : outBuf.length % 2 ^ 32 < 2 ^ 31 - 17
    · right
      have hint : int (17 + ((outBuf.length % 2 ^ 32 : Nat) : Int)) =
        .ok (17 + ((outBuf.length % 2 ^ 32 : Nat) : Int)) :=
        int_eq_ok ⟨by omega, by omega⟩
      refine ⟨by omega, _, hfits, ?_⟩
      have hmod : Int32.ofNat outBuf.length = Int32.ofNat (outBuf.length % 2 ^ 32) := by
        apply Int32.toInt_inj.mp
        rw [hlength, Int32.toInt_ofNat_of_lt (by omega)]
      simp only [hint, if_neg (show ¬ (17 + ((outBuf.length % 2 ^ 32 : Nat) : Int)) < 0 by omega),
        if_neg (show ¬ ((outBuf.length % 2 ^ 32 : Nat) : Int) < 0 by omega), Int.toNat_natCast, hmod]
      rfl
    · left
      rw [int_eq_error (fun h => by omega)]
      exact ⟨_, rfl⟩

end StringUtil

namespace CsReceiver

variable {zlib : Zlib} {zstd : Zstd}

/-- The text that is not compressed. -/
theorem notify_sendText (header : send_message_header) (tablename retXML : Str) (cs_rcv_q : List RecvData) :
    notify zlib zstd { header, dm2_payload := sendText tablename retXML } cs_rcv_q =
      (do finish header.fd_name (sendText tablename retXML) (← getIsHeader (sendText tablename retXML) {}) cs_rcv_q) := by
  have hne : sendText tablename retXML ≠ [] := by
    intro h
    have hhead := headD_sendText tablename retXML
    rw [h] at hhead
    exact absurd hhead (by decide)
  rw [notify, if_neg hne]
  cases hinfo : getIsHeader (sendText tablename retXML) {} with
  | error e => simp only [hinfo, bind, Except.bind]
  | ok info =>
    have hflg : info.header.compressFlg = '3' :=
      (compressFlg_of_getIsHeader hinfo).trans (headD_sendText tablename retXML)
    simp only [hinfo, bind, Except.bind, hflg, Char.reduceEq, or_self, if_false]

private theorem bytesFrom_bytes (header : IsHeader) (outBuf : Str) {n : Int} (hn : n = outBuf.length) :
    bytesFrom (header.bytes ++ outBuf) 17 n = .ok outBuf := by
  rw [bytesFrom, if_pos (by omega)]
  exact memcpy_of_isPrefix (List.prefix_rfl) (length_bytes header).symm (by omega)

/-- A text that zlib has compressed. -/
theorem notify_zlib (header : send_message_header) (length : Int32) (key : Int64) {outBuf : Str}
    (hlength : outBuf.length < 2 ^ 32) (cs_rcv_q : List RecvData) : ∃ info,
    notify zlib zstd
        { header, dm2_payload := ({ compressFlg := '1', length, key, seq := 0 } : IsHeader).bytes ++ outBuf } cs_rcv_q =
      match zlib.inflate outBuf with
      | none => .ok cs_rcv_q
      | some text => (do finish header.fd_name text (← getIsHeader text info) cs_rcv_q) := by
  refine ⟨{ header := { compressFlg := '1', length, key, seq := 0 }, headerSize := 17 }, ?_⟩
  have hne : ({ compressFlg := '1', length, key, seq := 0 } : IsHeader).bytes ++ outBuf ≠ [] := List.cons_ne_nil _ _
  have hdecompress : decompress zlib (({ compressFlg := '1', length, key, seq := 0 } : IsHeader).bytes ++ outBuf) 17 =
      .ok (zlib.inflate outBuf) := by
    rw [decompress, bytesFrom_bytes _ _ (by rw [List.length_append, length_bytes]; omega)]
    simp only [bind, Except.bind, Nat.mod_eq_of_lt hlength, List.take_length]
    rfl
  have hinfo : getIsHeader (({ compressFlg := '1', length, key, seq := 0 } : IsHeader).bytes ++ outBuf) {} = _ :=
    getIsHeader_bytes (.inl rfl) outBuf {}
  rw [notify, if_neg hne]
  simp only [hinfo, bind, Except.bind, true_or, if_true, show (17 : Int).toNat = 17 from rfl, hdecompress]
  cases zlib.inflate outBuf with
  | none => rfl
  | some text => rfl

/-- The buffer with a text that Zstandard has compressed. -/
def zstdBuf (key : Int64) (outBuf : Str) : Str :=
  ({ compressFlg := '2', length := Int32.ofNat outBuf.length, key, seq := 0 } : IsHeader).bytes ++ outBuf

/-- The text that is compressed is found behind the header at the length that is written there. -/
private theorem decompressUsingZstd_zstdBuf (key : Int64) {outBuf : Str} (hlength : outBuf.length < 2 ^ 31) :
    decompressUsingZstd zstd (zstdBuf key outBuf) 17 (Int32.ofNat outBuf.length).toInt =
      match zstd.getFrameContentSize outBuf with
      | none => .ok none
      | some rSize => if zstd.memory rSize then .ok (zstd.decompress outBuf rSize) else .error .bad_alloc := by
  rw [decompressUsingZstd, zstdBuf, bytesFrom_bytes _ _ (Int32.toInt_ofNat_of_lt hlength)]
  cases hsize : zstd.getFrameContentSize outBuf with
  | none =>
    simp only [bind, Except.bind, hsize]
    rfl
  | some rSize =>
    simp only [bind, Except.bind, hsize]
    rfl

/-- A text that Zstandard has compressed. -/
theorem notify_zstd (header : send_message_header) (key : Int64) (outBuf : Str) (cs_rcv_q : List RecvData) :
    ∃ info, notify zlib zstd { header, dm2_payload := zstdBuf key outBuf } cs_rcv_q =
      match decompressUsingZstd zstd (zstdBuf key outBuf) 17 (Int32.ofNat outBuf.length).toInt with
      | .error e => .error e
      | .ok none => .ok cs_rcv_q
      | .ok (some text) => (do finish header.fd_name text (← getIsHeader text info) cs_rcv_q) := by
  refine ⟨{ header := { compressFlg := '2', length := Int32.ofNat outBuf.length, key, seq := 0 }, headerSize := 17 }, ?_⟩
  have hne : zstdBuf key outBuf ≠ [] := List.cons_ne_nil _ _
  have hinfo : getIsHeader (zstdBuf key outBuf) {} = _ := getIsHeader_bytes (.inr rfl) outBuf {}
  rw [notify, if_neg hne]
  simp only [hinfo, bind, Except.bind, or_true, if_true, if_neg (show ¬ '2' = '1' by decide),
    show (17 : Int).toNat = 17 from rfl]
  cases decompressUsingZstd zstd (zstdBuf key outBuf) 17 (Int32.ofNat outBuf.length).toInt with
  | error e => rfl
  | ok found =>
    cases found with
    | none => rfl
    | some text => rfl

end CsReceiver

/-- The buffer that is sent puts one `RecvData` into the queue, with the table name and
the serialised tuples. -/
def Delivered (zlib : Zlib) (zstd : Zstd) (header : send_message_header) (key : Int64) (cs_rcv_q : List RecvData)
    (COMPRESS_FLG tablename retXML : Str) : Prop :=
  ∃ buf data, sendBuf zlib zstd COMPRESS_FLG key tablename retXML = .ok buf ∧
    notify zlib zstd { header, dm2_payload := buf } cs_rcv_q = .ok (cs_rcv_q ++ [data]) ∧
    data.schema_name = tablename ∧ data.payload = retXML

/-- The condition on what is sent: the table name ends within the first hundred bytes,
the text has ninety-nine at least, and the length of the tuples is positive as an `int`.
Where zlib does not fail, there is no zero byte and all is not too long; Zstandard does
not fail and does not give too much. -/
structure Transferable (zlib : Zlib) (zstd : Zstd) (COMPRESS_FLG tablename retXML : Str) : Prop where
  length_tablename : tablename.length ≤ 97
  length_text : 96 ≤ tablename.length + retXML.length
  length_retXML : 0 < (Int32.ofNat retXML.length).toInt
  zlib : COMPRESS_FLG.head? = some '1' → compress zlib (c_str (sendText tablename retXML)) = [] ∨
    ((compress zlib (c_str (sendText tablename retXML))).length ≤ 2 ^ 31 - 18 ∧
      Char.ofNat 0 ∉ tablename ++ retXML ∧ 3 + tablename.length + retXML.length < 2 ^ 32)
  zstd : COMPRESS_FLG.head? = some '2' → ∃ outBuf, zstd.compress (sendText tablename retXML) = some outBuf ∧
    outBuf.length ≤ 2 ^ 31 - 18

variable {zlib : Zlib} {zstd : Zstd} {header : send_message_header} {key : Int64} {cs_rcv_q : List RecvData}
  {COMPRESS_FLG tablename retXML : Str}

private theorem length_sendText_eq (hname : tablename.length ≤ 97) :
    (sendText tablename retXML).length = 3 + tablename.length + retXML.length := by
  have hdigits := (setw_two tablename.length (by omega)).1
  rw [sendText_eq (by omega)]
  simp only [List.length_cons, List.length_append, hdigits]
  omega

/-- A front part of the text is received, after decompression. -/
theorem delivered_of_isPrefix (hretXML : retXML ≠ []) {buf text : Str} {info : IsHeaderInfo}
    (hsend : sendBuf zlib zstd COMPRESS_FLG key tablename retXML = .ok buf)
    (hnotify : notify zlib zstd { header, dm2_payload := buf } cs_rcv_q =
      (do finish header.fd_name text (← getIsHeader text info) cs_rcv_q))
    (htext : text.IsPrefix (sendText tablename retXML)) :
    Delivered zlib zstd header key cs_rcv_q COMPRESS_FLG tablename retXML ↔
      text = sendText tablename retXML ∧ tablename.length ≤ 97 ∧ 96 ≤ tablename.length + retXML.length ∧
        0 < (Int32.ofNat retXML.length).toInt := by
  have hfinish := finish_iff hretXML htext info header.fd_name cs_rcv_q
  rw [← hnotify] at hfinish
  constructor
  · rintro ⟨buf', data, hbuf, hresult, hschema, hpayload⟩
    obtain rfl := Except.ok.inj (hsend.symm.trans hbuf)
    obtain ⟨rfl, hname, hlength, hpos⟩ := hfinish.mp ⟨data, hresult, hschema, hpayload⟩
    rw [length_sendText_eq hname] at hlength
    exact ⟨rfl, hname, by omega, hpos⟩
  · rintro ⟨rfl, hname, hlength, hpos⟩
    obtain ⟨data, hresult, hschema, hpayload⟩ :=
      hfinish.mpr ⟨rfl, hname, by rw [length_sendText_eq hname]; omega, hpos⟩
    exact ⟨buf, data, hsend, hresult, hschema, hpayload⟩

/-- The text is received as it is. -/
theorem delivered_of_text (hretXML : retXML ≠ [])
    (hsend : sendBuf zlib zstd COMPRESS_FLG key tablename retXML = .ok (sendText tablename retXML)) :
    Delivered zlib zstd header key cs_rcv_q COMPRESS_FLG tablename retXML ↔
      tablename.length ≤ 97 ∧ 96 ≤ tablename.length + retXML.length ∧ 0 < (Int32.ofNat retXML.length).toInt :=
  (delivered_of_isPrefix hretXML hsend (notify_sendText header tablename retXML cs_rcv_q) List.prefix_rfl).trans
    (and_iff_right rfl)

private theorem not_delivered_of_error {e : Failure}
    (hsend : sendBuf zlib zstd COMPRESS_FLG key tablename retXML = .error e) :
    ¬ Delivered zlib zstd header key cs_rcv_q COMPRESS_FLG tablename retXML := by
  rintro ⟨buf, data, hbuf, -⟩
  rw [hsend] at hbuf
  cases hbuf

/-- The buffer for a flag that asks for compression. -/
theorem sendBuf_of_flag {compressFlg : Char} (hflg : compressFlg = '1' ∨ compressFlg = '2') (rest : Str) :
    sendBuf zlib zstd (compressFlg :: rest) key tablename retXML =
      (setCompressedBufWithHeader zlib zstd (sendText tablename retXML) compressFlg key).map fun buf =>
        if buf = [] then sendText tablename retXML else buf := by
  have hhead : (compressFlg :: rest).headD (Char.ofNat 0) = '1' ∨ (compressFlg :: rest).headD (Char.ofNat 0) =
    '2' := hflg
  simp only [sendBuf]
  rw [if_pos hhead, List.headD_cons]
  cases setCompressedBufWithHeader zlib zstd (sendText tablename retXML) compressFlg key with
  | error e => rfl
  | ok buf => rfl

private theorem setCompressedBufWithHeader_of_nil {inStr : Str} {compressFlg : Char}
    (hcomp : compBuf zlib zstd inStr compressFlg = .ok []) (key : Int64) :
    setCompressedBufWithHeader zlib zstd inStr compressFlg key = .ok [] := by
  rw [setCompressedBufWithHeader, hcomp]
  rfl

/-- Without a flag for compression the text is sent as it stands. -/
private theorem sendBuf_of_other (hone : COMPRESS_FLG.head? ≠ some '1') (htwo : COMPRESS_FLG.head? ≠ some '2') :
    sendBuf zlib zstd COMPRESS_FLG key tablename retXML = .ok (sendText tablename retXML) := by
  have hflg : ¬ (COMPRESS_FLG.headD (Char.ofNat 0) = '1' ∨ COMPRESS_FLG.headD (Char.ofNat 0) = '2') := by
    cases COMPRESS_FLG with
    | nil => decide
    | cons flg rest =>
      rintro (h | h)
      · exact hone (congrArg some h)
      · exact htwo (congrArg some h)
  simp only [sendBuf]
  rw [if_neg hflg]
  rfl

/-- What zlib is given is the whole text exactly where it has no zero byte and is not too
long. -/
theorem take_c_str_iff (hname : tablename.length ≤ 97) :
    (c_str (sendText tablename retXML)).take ((c_str (sendText tablename retXML)).length % 2 ^ 32) =
        sendText tablename retXML ↔
      Char.ofNat 0 ∉ tablename ++ retXML ∧ 3 + tablename.length + retXML.length < 2 ^ 32 := by
  have hdigits : ∀ n < 100, Char.ofNat 0 ∉ setw 2 (to_string_nat n) := by decide +kernel
  have hzero : c_str (sendText tablename retXML) = sendText tablename retXML ↔ Char.ofNat 0 ∉ tablename ++ retXML := by
    rw [c_str, List.takeWhile_eq_self_iff, sendText_eq (by omega)]
    constructor
    · intro h hmem
      exact absurd (h _ (List.mem_cons_of_mem _ (List.mem_append_right _ hmem))) (by simp)
    · intro h c hc
      refine decide_eq_true ?_
      rintro rfl
      obtain hc | hc := List.mem_cons.mp hc
      · exact absurd hc (by decide)
      · obtain hc | hc := List.mem_append.mp hc
        · exact hdigits _ (by omega) hc
        · exact h hc
  have hfront : (c_str (sendText tablename retXML)).IsPrefix (sendText tablename retXML) := List.takeWhile_prefix _
  rw [← length_sendText_eq hname, ← hzero]
  constructor
  · intro h
    have hle := hfront.length_le
    have hlength := congrArg List.length h
    have hpos := length_sendText tablename retXML
    rw [List.length_take] at hlength
    refine ⟨hfront.eq_of_length (by omega), by omega⟩
  · rintro ⟨heq, hlt⟩
    rw [heq, Nat.mod_eq_of_lt hlt, List.take_length]

/-- The transfer by zlib. -/
theorem delivered_iff_zlib (hzlib : zlib.Inverts) (hretXML : retXML ≠ []) (rest : Str) :
    Delivered zlib zstd header key cs_rcv_q ('1' :: rest) tablename retXML ↔
      tablename.length ≤ 97 ∧ 96 ≤ tablename.length + retXML.length ∧ 0 < (Int32.ofNat retXML.length).toInt ∧
        (compress zlib (c_str (sendText tablename retXML)) = [] ∨
          ((compress zlib (c_str (sendText tablename retXML))).length ≤ 2 ^ 31 - 18 ∧
            Char.ofNat 0 ∉ tablename ++ retXML ∧ 3 + tablename.length + retXML.length < 2 ^ 32)) := by
  obtain ⟨inStr, hinStr⟩ : ∃ inStr, c_str (sendText tablename retXML) = inStr := ⟨_, rfl⟩
  have hcomp : compBuf zlib zstd (sendText tablename retXML) '1' = .ok (compress zlib inStr) := by
    rw [← hinStr]
    rfl
  rw [hinStr]
  by_cases hnil : compress zlib inStr = []
  · rw [hnil] at hcomp
    rw [delivered_of_text hretXML (by rw [sendBuf_of_flag (.inl rfl), setCompressedBufWithHeader_of_nil hcomp]; rfl)]
    simp only [hnil, true_or, and_true]
  · have hdeflate : zlib.deflate (inStr.take (inStr.length % 2 ^ 32)) (zlib.compressBound inStr.length % 2 ^ 32) =
        some (compress zlib inStr) := by
      rw [compress] at hnil ⊢
      cases h : zlib.deflate (inStr.take (inStr.length % 2 ^ 32)) (zlib.compressBound inStr.length % 2 ^ 32) with
      | none =>
        rw [h] at hnil
        exact absurd rfl hnil
      | some outBuf => rfl
    have hroom := hzlib.length_le _ _ _ hdeflate
    have hinflate := hzlib.inflate_deflate _ _ _ hdeflate
    by_cases hle : (compress zlib inStr).length ≤ 2 ^ 31 - 18
    · have hsend : sendBuf zlib zstd ('1' :: rest) key tablename retXML = .ok
          (({ compressFlg := '1', length := Int32.ofNat (compress zlib inStr).length, key, seq := 0 } : IsHeader).bytes ++
            compress zlib inStr) := by
        rw [sendBuf_of_flag (.inl rfl), setCompressedBufWithHeader_of_le hcomp hnil hle]
        rfl
      obtain ⟨info, hnotify⟩ := @notify_zlib zlib zstd header (Int32.ofNat (compress zlib inStr).length) key _
        (show (compress zlib inStr).length < 2 ^ 32 by omega) cs_rcv_q
      rw [hinflate] at hnotify
      have hfront : (inStr.take (inStr.length % 2 ^ 32)).IsPrefix (sendText tablename retXML) :=
        (List.take_prefix _ inStr).trans (hinStr ▸ List.takeWhile_prefix _)
      rw [delivered_of_isPrefix hretXML hsend hnotify hfront]
      constructor
      · rintro ⟨heq, hname, hlength, hpos⟩
        exact ⟨hname, hlength, hpos, .inr ⟨hle, (take_c_str_iff hname).mp (hinStr ▸ heq)⟩⟩
      · rintro ⟨hname, hlength, hpos, h | ⟨-, hzero⟩⟩
        · exact absurd h hnil
        · exact ⟨hinStr ▸ (take_c_str_iff hname).mpr hzero, hname, hlength, hpos⟩
    · obtain ⟨e, he⟩ | ⟨hlarge, -⟩ := setCompressedBufWithHeader_of_lt hcomp (Nat.lt_of_not_le hle) key
      · have hsend : sendBuf zlib zstd ('1' :: rest) key tablename retXML = .error e := by
          rw [sendBuf_of_flag (.inl rfl), he]
          rfl
        simp only [not_delivered_of_error hsend, hnil, hle, false_and, or_self, and_false]
      · omega

/-- The transfer by Zstandard. -/
theorem delivered_iff_zstd (hzstd : zstd.Inverts) (hretXML : retXML ≠ []) (rest : Str) :
    Delivered zlib zstd header key cs_rcv_q ('2' :: rest) tablename retXML ↔
      tablename.length ≤ 97 ∧ 96 ≤ tablename.length + retXML.length ∧ 0 < (Int32.ofNat retXML.length).toInt ∧
        ∃ outBuf, zstd.compress (sendText tablename retXML) = some outBuf ∧ outBuf.length ≤ 2 ^ 31 - 18 := by
  cases hcompress : zstd.compress (sendText tablename retXML) with
  | none =>
    have hcomp : compBuf zlib zstd (sendText tablename retXML) '2' = .error .length_error := by
      rw [compBuf, if_neg (by decide), if_pos rfl, compressUsingZstd, hcompress]
    have hsend : sendBuf zlib zstd ('2' :: rest) key tablename retXML = .error .length_error := by
      rw [sendBuf_of_flag (.inr rfl), setCompressedBufWithHeader, hcomp]
      rfl
    simp only [not_delivered_of_error hsend, reduceCtorEq, false_and, exists_false, and_false]
  | some outBuf =>
    have hcomp : compBuf zlib zstd (sendText tablename retXML) '2' = .ok outBuf := by
      rw [compBuf, if_neg (by decide), if_pos rfl, compressUsingZstd, hcompress]
    simp only [Option.some.injEq, exists_eq_left']
    by_cases hnil : outBuf = []
    · subst hnil
      rw [delivered_of_text hretXML (by rw [sendBuf_of_flag (.inr rfl), setCompressedBufWithHeader_of_nil hcomp]; rfl)]
      simp only [List.length_nil, Nat.zero_le, and_true]
    · by_cases hle : outBuf.length ≤ 2 ^ 31 - 18
      · have hsend : sendBuf zlib zstd ('2' :: rest) key tablename retXML = .ok
            (({ compressFlg := '2', length := Int32.ofNat outBuf.length, key, seq := 0 } : IsHeader).bytes ++ outBuf) := by
          rw [sendBuf_of_flag (.inr rfl), setCompressedBufWithHeader_of_le hcomp hnil hle]
          rfl
        obtain ⟨info, hnotify⟩ := @notify_zstd zlib zstd header key outBuf cs_rcv_q
        rw [decompressUsingZstd_zstdBuf key (show outBuf.length < 2 ^ 31 by omega), hzstd.size _ _ hcompress] at hnotify
        simp only [hzstd.memory _ _ hcompress, if_true, hzstd.decompress_compress _ _ hcompress] at hnotify
        rw [delivered_of_isPrefix hretXML hsend hnotify List.prefix_rfl]
        simp only [true_and, hle, and_true]
      · obtain ⟨e, he⟩ | ⟨hlarge, n, hn, hset⟩ := setCompressedBufWithHeader_of_lt hcomp (Nat.lt_of_not_le hle) key
        · have hsend : sendBuf zlib zstd ('2' :: rest) key tablename retXML = .error e := by
            rw [sendBuf_of_flag (.inr rfl), he]
            rfl
          simp only [not_delivered_of_error hsend, hle, and_false]
        · -- The receiver is given a front part of the compressed text only.
          have hsend : sendBuf zlib zstd ('2' :: rest) key tablename retXML = .ok
              (({ compressFlg := '2', length := Int32.ofNat (outBuf.take n).length, key, seq := 0 } : IsHeader).bytes ++
                outBuf.take n) := by
            rw [sendBuf_of_flag (.inr rfl), hset, List.length_take, Nat.min_eq_left (by omega)]
            rfl
          obtain ⟨info, hnotify⟩ := @notify_zstd zlib zstd header key (outBuf.take n) cs_rcv_q
          rw [decompressUsingZstd_zstdBuf key (show (outBuf.take n).length < 2 ^ 31 by
            rw [List.length_take]; omega)] at hnotify
          have hunchanged : ∀ data, notify zlib zstd { header, dm2_payload := zstdBuf key (outBuf.take n) } cs_rcv_q ≠
              .ok (cs_rcv_q ++ [data]) := by
            intro data h
            rw [hnotify] at h
            have hsame : cs_rcv_q ≠ cs_rcv_q ++ [data] := fun heq =>
              absurd (List.self_eq_append_right.mp heq) (List.cons_ne_nil data [])
            cases hsize : zstd.getFrameContentSize (outBuf.take n) with
            | none =>
              simp only [hsize] at h
              exact hsame (Except.ok.inj h)
            | some room =>
              simp only [hsize] at h
              by_cases hmemory : zstd.memory room = true
              · simp only [hmemory, if_true, hzstd.decompress_take _ _ n room hcompress (by omega)] at h
                exact hsame (Except.ok.inj h)
              · simp only [hmemory, if_false, Bool.false_eq_true, reduceCtorEq] at h
          simp only [hle, and_false, iff_false]
          rintro ⟨buf, data, hbuf, hresult, -⟩
          obtain rfl := Except.ok.inj (hsend.symm.trans hbuf)
          exact hunchanged data hresult

/-- A transfer between servers is lossless exactly where the condition is met, for libraries
that undo their own compression and whatever the queue holds. -/
theorem delivered_iff (hzlib : zlib.Inverts) (hzstd : zstd.Inverts) (header : send_message_header) (key : Int64)
    (cs_rcv_q : List RecvData) (COMPRESS_FLG tablename : Str) (hretXML : retXML ≠ []) :
    Delivered zlib zstd header key cs_rcv_q COMPRESS_FLG tablename retXML ↔
      Transferable zlib zstd COMPRESS_FLG tablename retXML := by
  by_cases hone : COMPRESS_FLG.head? = some '1'
  · obtain ⟨rest, rfl⟩ := List.head?_eq_some_iff.mp hone
    rw [delivered_iff_zlib hzlib hretXML]
    constructor
    · rintro ⟨hname, hlength, hpos, hzlib⟩
      exact ⟨hname, hlength, hpos, fun _ => hzlib, fun h => by cases h⟩
    · rintro ⟨hname, hlength, hpos, hzlib, -⟩
      exact ⟨hname, hlength, hpos, hzlib rfl⟩
  · by_cases htwo : COMPRESS_FLG.head? = some '2'
    · obtain ⟨rest, rfl⟩ := List.head?_eq_some_iff.mp htwo
      rw [delivered_iff_zstd hzstd hretXML]
      constructor
      · rintro ⟨hname, hlength, hpos, hzstd⟩
        exact ⟨hname, hlength, hpos, (fun h => by cases h), fun _ => hzstd⟩
      · rintro ⟨hname, hlength, hpos, -, hzstd⟩
        exact ⟨hname, hlength, hpos, hzstd rfl⟩
    · rw [delivered_of_text hretXML (sendBuf_of_other hone htwo)]
      constructor
      · rintro ⟨hname, hlength, hpos⟩
        exact ⟨hname, hlength, hpos, fun h => absurd h hone, fun h => absurd h htwo⟩
      · rintro ⟨hname, hlength, hpos, -, -⟩
        exact ⟨hname, hlength, hpos⟩

/-- Serialised tuples of a table `signal`, and the text that zlib compresses. -/
def signalTuples : Str :=
  List.replicate 100 'a'

def compressedSignal : Str :=
  [120, 218, 51, 54, 48, 43, 206, 76, 207, 75, 204, 73, 164, 3, 0, 0, 188, 243, 40, 252].map toChar

/-- What zlib does to one text. -/
def signalZlib : Zlib where
  compressBound n := n + n / 2 ^ 12 + n / 2 ^ 14 + n / 2 ^ 25 + 13
  deflate inStr room :=
    if inStr = sendText "signal".toList signalTuples ∧ compressedSignal.length ≤ room then some compressedSignal else none
  inflate inBuf := if inBuf = compressedSignal then some (sendText "signal".toList signalTuples) else none

def failingZstd : Zstd where
  compress _ := none
  getFrameContentSize _ := none
  decompress _ _ := none
  memory _ := true

/-- What this library compresses it decompresses again. -/
private theorem signalZlib_inverts : signalZlib.Inverts where
  inflate_deflate := by
    intro inStr room outBuf h
    by_cases hmatch : inStr = sendText "signal".toList signalTuples ∧ compressedSignal.length ≤ room
    · obtain rfl := Option.some.inj ((if_pos hmatch).symm.trans h)
      have hself : signalZlib.inflate compressedSignal = if compressedSignal = compressedSignal then
          some (sendText "signal".toList signalTuples) else none := rfl
      rw [hmatch.1, hself, if_pos rfl]
    · cases (if_neg hmatch).symm.trans h
  length_le := by
    intro inStr room outBuf h
    by_cases hmatch : inStr = sendText "signal".toList signalTuples ∧ compressedSignal.length ≤ room
    · obtain rfl := Option.some.inj ((if_pos hmatch).symm.trans h)
      exact hmatch.2
    · cases (if_neg hmatch).symm.trans h

private theorem failingZstd_inverts : failingZstd.Inverts where
  size := fun _ _ h => by cases h
  decompress_compress := fun _ _ h => by cases h
  decompress_take := fun _ _ _ _ h => by cases h
  memory := fun _ _ h => by cases h

/-- A table of a hundred bytes, which zlib compresses, arrives as it was sent. -/
theorem delivered_iff_signal : Delivered signalZlib failingZstd {} 7 [] ['1'] "signal".toList signalTuples := by
  refine (delivered_iff signalZlib_inverts failingZstd_inverts {} 7 [] ['1'] "signal".toList (by decide)).mpr ?_
  exact {
    length_tablename := by decide
    length_text := by decide +kernel
    length_retXML := by decide +kernel
    zlib := fun _ => .inr ⟨by decide +kernel, by decide +kernel, by decide +kernel⟩
    zstd := fun h => by cases h }

/-- A table name of 98 characters is cut off. -/
theorem longName_not_delivered : ¬ ∀ (zlib : Zlib) (zstd : Zstd) (header : send_message_header) (key : Int64)
    (cs_rcv_q : List RecvData) (COMPRESS_FLG tablename retXML : Str), zlib.Inverts → zstd.Inverts → retXML ≠ [] →
    Delivered zlib zstd header key cs_rcv_q COMPRESS_FLG tablename retXML := by
  intro h
  have hdelivered := h signalZlib failingZstd {} 7 [] ['0'] (List.replicate 98 'a') ['b'] signalZlib_inverts
    failingZstd_inverts (by decide)
  obtain ⟨hname, -⟩ := (delivered_of_text (by decide) (sendBuf_of_other (by decide) (by decide))).mp hdelivered
  rw [List.length_replicate] at hname
  omega

end IS

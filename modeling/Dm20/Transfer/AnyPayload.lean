import Dm20.Transfer.Lossless

open Bytes

namespace IS

open StringUtil

namespace CsReceiver

def flag (buf : Str) : Char :=
  buf.headD (Char.ofNat 0)

/-- The bytes that the reading of a header takes from the front of a buffer. -/
def headerBytes (buf : Str) : Nat :=
  if flag buf = '1' ∨ flag buf = '2' then 17 else if flag buf = '3' then 100 else 1

/-- The length that the header of a compressed text gives. -/
def lengthField (buf : Str) : Int :=
  (UInt32.ofNat (ofLittleEndian ((buf.drop 1).take 4))).toInt32.toInt

/-- The length of a table name, in the two bytes behind the flag. -/
def nameLength (buf : Str) : Option Int :=
  (stoi ((buf.drop 1).take 2)).toOption.map Int32.toInt

/-- The text behind the first header of a payload: what is decompressed, or the bytes
behind the flag. -/
def innerText (zlib : Zlib) (zstd : Zstd) (payload : Str) : Option Str :=
  if flag payload = '1' then zlib.inflate ((payload.drop 17).take ((payload.drop 17).length % 2 ^ 32))
  else if flag payload = '2' then
    let frame := (payload.drop 17).take (lengthField payload).toNat
    (zstd.getFrameContentSize frame).bind (zstd.decompress frame)
  else if flag payload = '0' then some (payload.drop 1)
  else none

/-- The text whose header is read last. -/
def lastText (zlib : Zlib) (zstd : Zstd) (payload : Str) : Option Str :=
  if flag payload = '0' ∨ flag payload = '1' ∨ flag payload = '2' then innerText zlib zstd payload else some payload

/-- The reads of a payload and of the text in it, each up to a place of its text: those
of a header, and that of the compressed text. -/
inductive Reads (zlib : Zlib) (zstd : Zstd) (payload : Str) : Str → Int → Prop where
  | header : payload ≠ [] → Reads zlib zstd payload payload (headerBytes payload)
  | frame : flag payload = '2' → Reads zlib zstd payload payload (17 + lengthField payload)
  | inner {text : Str} : innerText zlib zstd payload = some text → Reads zlib zstd payload text (headerBytes text)

/-- The lengths of the rest behind a header, computed as a `size_t`. -/
inductive Remains (zlib : Zlib) (zstd : Zstd) (payload : Str) : Int → Prop where
  | compressed : flag payload = '1' → Remains zlib zstd payload (payload.length - 17)
  | behindFlag : flag payload = '0' → Remains zlib zstd payload (payload.length - 1)
  | behindName {text : Str} {n : Int} : lastText zlib zstd payload = some text → flag text = '3' →
      nameLength text = some n → Remains zlib zstd payload (text.length - (n + 3))

/-- The lengths that are kept as an `int`: that of the text in a payload, and that of what
is put into the queue. -/
inductive Keeps (zlib : Zlib) (zstd : Zstd) (payload : Str) : Int → Prop where
  | inner {text : Str} : innerText zlib zstd payload = some text → Keeps zlib zstd payload text.length
  | behindName {text : Str} {n : Int} : lastText zlib zstd payload = some text → flag text = '3' →
      nameLength text = some n → Keeps zlib zstd payload (text.length - (n + 3))
  | whole {text : Str} : lastText zlib zstd payload = some text → flag text ≠ '3' →
      Keeps zlib zstd payload text.length

/-- A part of the bytes received, or of the text in them. -/
def PartOf (zlib : Zlib) (zstd : Zstd) (payload part : Str) : Prop :=
  part.IsInfix payload ∨ ∃ text, innerText zlib zstd payload = some text ∧ part.IsInfix text

/-- No exception goes out, and at most one item is put into the queue, a part of what was
received. -/
def Returns (zlib : Zlib) (zstd : Zstd) (buffer : send_message_vector) (cs_rcv_q : List RecvData) : Prop :=
  ∃ cs_rcv_q', notify zlib zstd buffer cs_rcv_q = .ok cs_rcv_q' ∧
    (cs_rcv_q' = cs_rcv_q ∨ ∃ data, cs_rcv_q' = cs_rcv_q ++ [data] ∧ PartOf zlib zstd buffer.dm2_payload data.payload)

/-- Taking a payload in does no harm: nothing beyond the end of a text is read, no length
is negative or too large for its type, and the call returns. -/
structure Safe (zlib : Zlib) (zstd : Zstd) (buffer : send_message_vector) (cs_rcv_q : List RecvData) : Prop where
  reads : ∀ text n, Reads zlib zstd buffer.dm2_payload text n → n ≤ text.length
  remains : ∀ n, Remains zlib zstd buffer.dm2_payload n → 0 ≤ n
  keeps : ∀ n, Keeps zlib zstd buffer.dm2_payload n → n < 2 ^ 31
  returns : Returns zlib zstd buffer cs_rcv_q

/-- The last text is not cut off: behind the flag `3` there are a hundred bytes with the
length of a name, and the text is as long as name and header. What is left of it is not
too long for an `int`. -/
def Complete (text : Str) : Prop :=
  if flag text = '3' then
    100 ≤ text.length ∧ ∃ n, nameLength text = some n ∧ -3 ≤ n ∧ n + 3 ≤ text.length ∧ text.length - (n + 3) < 2 ^ 31
  else headerBytes text ≤ text.length ∧ text.length < 2 ^ 31

/-- The condition on a payload: it holds its own header, with Zstandard the length in the
header is neither negative nor larger than the rest and there is memory for the size that
the compressed text gives, and the text in it is not too long and is complete. -/
structure Acceptable (zlib : Zlib) (zstd : Zstd) (payload : Str) : Prop where
  header : flag payload = '1' ∨ flag payload = '2' → 17 ≤ payload.length
  length : flag payload = '2' → 0 ≤ lengthField payload ∧ 17 + lengthField payload ≤ payload.length
  memory : flag payload = '2' → ∀ rSize, zstd.getFrameContentSize ((payload.drop 17).take (lengthField payload).toNat) =
    some rSize → zstd.memory rSize = true
  inner : ∀ text, innerText zlib zstd payload = some text → text.length < 2 ^ 31
  last : ∀ text, lastText zlib zstd payload = some text → Complete text

private theorem memcpy_of_le {s : Str} {pos n : Nat} (h : pos + n ≤ s.length) :
    memcpy s pos n = .ok ((s.drop pos).take n) := by
  rw [memcpy, if_pos (by omega), List.drop_append_of_le_length (by omega),
    List.take_append_of_le_length (by rw [List.length_drop]; omega)]

private theorem memcpy_flag (buf : Str) : memcpy buf 0 1 = .ok ((buf ++ [Char.ofNat 0]).take 1) := by
  rw [memcpy_zero, if_pos (by omega)]

private theorem headD_memcpy_flag (buf : Str) : ((buf ++ [Char.ofNat 0]).take 1).headD (Char.ofNat 0) = flag buf :=
  headD_take_one buf

/-- The header of a compressed text. -/
theorem getIsHeader_compressed {buf : Str} (hflag : flag buf = '1' ∨ flag buf = '2') (hle : 17 ≤ buf.length)
    (info : IsHeaderInfo) : ∃ info', getIsHeader buf info = .ok info' ∧ info'.header.compressFlg = flag buf ∧
      info'.header.length.toInt = lengthField buf ∧ info'.headerSize = 17 := by
  have hnot : ¬ (flag buf ≠ '1' ∧ flag buf ≠ '2') := fun h => hflag.elim h.1 h.2
  have hlength : memcpy buf 1 4 = .ok ((buf.drop 1).take 4) := memcpy_of_le (by omega)
  have hkey : memcpy buf 5 8 = .ok ((buf.drop 5).take 8) := memcpy_of_le (by omega)
  have hseq : memcpy buf 13 4 = .ok ((buf.drop 13).take 4) := memcpy_of_le (by omega)
  rw [getIsHeader, memcpy_flag]
  simp only [bind, Except.bind, headD_memcpy_flag, if_neg hnot, hlength, hkey, hseq]
  exact ⟨_, rfl, rfl, rfl, rfl⟩

/-- The header with a table name. -/
theorem getIsHeader_name {buf : Str} (hflag : flag buf = '3') (hle : 100 ≤ buf.length) (info : IsHeaderInfo) :
    match nameLength buf with
    | none => ∃ e, getIsHeader buf info = .error e
    | some n => ∃ schema_name, getIsHeader buf info = .ok {
        header := { info.header with compressFlg := '3', schema_name }, headerSize := n + 3 } := by
  have hbuf : memcpy buf 0 100 = .ok (buf.take 100) := memcpy_of_le (by omega)
  have hnum : substr (buf.take 100) 1 2 = .ok ((buf.drop 1).take 2) := by
    rw [substr, if_pos (by rw [List.length_take]; omega), List.drop_take, List.take_take]
    rfl
  have hname : ∀ n, ∃ schema_name, substr (buf.take 100) 3 n = .ok schema_name := by
    intro n
    rw [substr, if_pos (by rw [List.length_take]; omega)]
    exact ⟨_, rfl⟩
  have hread : getIsHeader buf info = do
      let schema_name_len ← (stoi ((buf.drop 1).take 2)).mapError ConversionError.toFailure
      let schema_name ← substr (buf.take 100) 3 schema_name_len.toInt
      return { header := { info.header with compressFlg := '3', schema_name }, headerSize := schema_name_len.toInt + 3 } := by
    rw [getIsHeader, memcpy_flag]
    simp only [bind, Except.bind, headD_memcpy_flag, hflag, Char.reduceEq, ne_eq, not_false_eq_true, and_self,
      if_true, if_false, hbuf, hnum]
  rw [hread, nameLength]
  cases hstoi : stoi ((buf.drop 1).take 2) with
  | error e => exact ⟨_, rfl⟩
  | ok n =>
    obtain ⟨schema_name, hschema⟩ := hname n.toInt
    refine ⟨schema_name, ?_⟩
    simp only [bind, Except.bind, Except.mapError, hschema]
    rfl

/-- The flag alone. -/
theorem getIsHeader_other {buf : Str} (hone : flag buf ≠ '1') (htwo : flag buf ≠ '2') (hthree : flag buf ≠ '3')
    (info : IsHeaderInfo) : ∃ info', getIsHeader buf info = .ok info' ∧ info'.header.compressFlg = flag buf ∧
      info'.headerSize = if flag buf = '0' then 1 else 0 := by
  rw [getIsHeader, memcpy_flag]
  simp only [bind, Except.bind, headD_memcpy_flag, hone, htwo, hthree, ne_eq, not_false_eq_true, and_self,
    if_true, if_false]
  by_cases hzero : flag buf = '0'
  · simp only [hzero, if_true]
    exact ⟨_, rfl, rfl, rfl⟩
  · simp only [hzero, if_false]
    exact ⟨_, rfl, rfl, rfl⟩

private theorem headerBytes_of_ne_three {buf : Str} (hthree : flag buf ≠ '3') :
    headerBytes buf = if flag buf = '1' ∨ flag buf = '2' then 17 else 1 := by
  simp only [headerBytes, if_neg hthree]

private theorem headerBytes_of_three {buf : Str} (hthree : flag buf = '3') : headerBytes buf = 100 := by
  simp [headerBytes, hthree]

/-- A header that is there is read, if it has no table name. -/
theorem getIsHeader_of_ne_three {buf : Str} (hthree : flag buf ≠ '3') (hle : headerBytes buf ≤ buf.length)
    (info : IsHeaderInfo) : ∃ info', getIsHeader buf info = .ok info' ∧ info'.header.compressFlg = flag buf := by
  by_cases hflag : flag buf = '1' ∨ flag buf = '2'
  · rw [headerBytes_of_ne_three hthree, if_pos hflag] at hle
    obtain ⟨info', hread, hflg, -⟩ := getIsHeader_compressed hflag hle info
    exact ⟨info', hread, hflg⟩
  · obtain ⟨hone, htwo⟩ := not_or.mp hflag
    obtain ⟨info', hread, hflg, -⟩ := getIsHeader_other hone htwo hthree info
    exact ⟨info', hread, hflg⟩

private theorem push_cases (data : RecvData) (cs_rcv_q : List RecvData) :
    push data cs_rcv_q = cs_rcv_q ∨ push data cs_rcv_q = cs_rcv_q ++ [data] := by
  unfold push
  split
  · exact .inr rfl
  · exact .inl rfl

/-- The last part of `notify` returns exactly where a name that is there is in the text. -/
theorem finish_returns_iff {text : Str} (hle : headerBytes text ≤ text.length) (info : IsHeaderInfo) (fd_name : Str)
    (cs_rcv_q : List RecvData) :
    (∃ cs_rcv_q', (do finish fd_name text (← getIsHeader text info) cs_rcv_q) = .ok cs_rcv_q') ↔
      (flag text = '3' → ∃ n, nameLength text = some n ∧ -3 ≤ n ∧ n + 3 ≤ text.length) := by
  by_cases hthree : flag text = '3'
  · rw [headerBytes_of_three hthree] at hle
    have hread := getIsHeader_name hthree hle info
    simp only [hthree, true_imp_iff]
    cases hname : nameLength text with
    | none =>
      rw [hname] at hread
      obtain ⟨e, he⟩ := hread
      simp [he, bind, Except.bind]
    | some n =>
      rw [hname] at hread
      obtain ⟨schema_name, hok⟩ := hread
      simp only [hok, bind, Except.bind, finish, if_true, Option.some.injEq, exists_eq_left', behind]
      by_cases hneg : n + 3 < 0
      · simp only [if_pos hneg, reduceCtorEq, exists_false, false_iff]
        omega
      · by_cases hfits : n + 3 ≤ text.length
        · simp only [if_neg hneg, if_pos hfits]
          exact ⟨fun _ => ⟨by omega, hfits⟩, fun _ => ⟨_, rfl⟩⟩
        · simp only [if_neg hneg, if_neg hfits, reduceCtorEq, exists_false, false_iff]
          exact fun h => hfits h.2
  · obtain ⟨info', hread, hflg⟩ := getIsHeader_of_ne_three hthree hle info
    have hother : ¬ info'.header.compressFlg = '3' := hflg ▸ hthree
    simp only [hthree, false_imp_iff, iff_true, hread, bind, Except.bind, finish, if_neg hother]
    exact ⟨_, rfl⟩

/-- It puts a part of its text into the queue, or nothing. -/
theorem finish_cases {text : Str} {info : IsHeaderInfo} {fd_name : Str} {cs_rcv_q cs_rcv_q' : List RecvData}
    (h : finish fd_name text info cs_rcv_q = .ok cs_rcv_q') :
    cs_rcv_q' = cs_rcv_q ∨ ∃ data, cs_rcv_q' = cs_rcv_q ++ [data] ∧ data.payload.IsInfix text := by
  unfold finish at h
  split at h
  · obtain ⟨rest, hrest, h⟩ := Except.bind_eq_ok_iff.mp h
    have hpiece : rest.IsInfix text := by
      unfold behind at hrest
      split at hrest
      · cases hrest
      · split at hrest
        · exact Except.ok.inj hrest ▸ (List.drop_suffix _ text).isInfix
        · cases hrest
    obtain rfl := Except.ok.inj h
    exact (push_cases _ cs_rcv_q).imp_right fun h => ⟨_, h, hpiece⟩
  · obtain rfl := Except.ok.inj h
    exact (push_cases _ cs_rcv_q).imp_right fun h => ⟨_, h, List.infix_rfl⟩

private theorem bytesFrom_of_le {buf : Str} {pos : Nat} {n : Int} (hn : 0 ≤ n) (hle : pos + n ≤ buf.length) :
    bytesFrom buf pos n = .ok ((buf.drop pos).take n.toNat) := by
  rw [bytesFrom, if_pos hn, memcpy_of_le (by omega)]

private theorem decompress_eq (zlib : Zlib) {payload : Str} (hflag : flag payload = '1') (hle : 17 ≤ payload.length)
    (zstd : Zstd) : decompress zlib payload 17 = .ok (innerText zlib zstd payload) := by
  have hrest : ((payload.drop 17).take ((payload.length : Int) - (17 : Nat)).toNat) = payload.drop 17 := by
    rw [List.take_of_length_le (by rw [List.length_drop]; omega)]
  rw [decompress, bytesFrom_of_le (by omega) (by omega), hrest, innerText, if_pos hflag]
  rfl

/-- A compressed payload with a length that it holds is decompressed to its inner text, given
the memory for it. -/
private theorem decompressUsingZstd_eq (zstd : Zstd) {payload : Str} (hflag : flag payload = '2')
    (hnonneg : 0 ≤ lengthField payload) (hle : 17 + lengthField payload ≤ payload.length) (zlib : Zlib)
    (hmemory : ∀ rSize, zstd.getFrameContentSize ((payload.drop 17).take (lengthField payload).toNat) = some rSize →
      zstd.memory rSize = true) :
    decompressUsingZstd zstd payload 17 (lengthField payload) = .ok (innerText zlib zstd payload) := by
  rw [decompressUsingZstd, bytesFrom_of_le hnonneg (by omega), innerText, if_neg (by rw [hflag]; decide), if_pos hflag]
  cases hsize : zstd.getFrameContentSize ((payload.drop 17).take (lengthField payload).toNat) with
  | none =>
    simp only [bind, Except.bind, hsize]
    rfl
  | some rSize =>
    simp only [bind, Except.bind, hsize, hmemory rSize hsize, if_true]
    rfl

private theorem decompressUsingZstd_negative (zstd : Zstd) {payload : Str} (hneg : lengthField payload < 0) :
    decompressUsingZstd zstd payload 17 (lengthField payload) = .error .undefined := by
  rw [decompressUsingZstd, bytesFrom, if_neg (by omega)]
  rfl

private theorem decompressUsingZstd_refused (zstd : Zstd) {payload : Str} (hnonneg : 0 ≤ lengthField payload)
    (hle : 17 + lengthField payload ≤ payload.length) {rSize : Nat}
    (hsize : zstd.getFrameContentSize ((payload.drop 17).take (lengthField payload).toNat) = some rSize)
    (hmemory : ¬ zstd.memory rSize = true) :
    decompressUsingZstd zstd payload 17 (lengthField payload) = .error .bad_alloc := by
  rw [decompressUsingZstd, bytesFrom_of_le hnonneg (by omega)]
  simp only [bind, Except.bind, hsize, if_neg hmemory]
  rfl

private theorem lastText_eq_innerText {zlib : Zlib} {zstd : Zstd} {payload : Str}
    (hflag : flag payload = '0' ∨ flag payload = '1' ∨ flag payload = '2') :
    lastText zlib zstd payload = innerText zlib zstd payload :=
  if_pos hflag

/-- Where its header is there, a payload is taken in by its last text. -/
theorem notify_eq {zlib : Zlib} {zstd : Zstd} {payload : Str} (hne : payload ≠ [])
    (hle : headerBytes payload ≤ payload.length)
    (hlength : flag payload = '2' → 0 ≤ lengthField payload ∧ 17 + lengthField payload ≤ payload.length)
    (hmemory : flag payload = '2' → ∀ rSize,
      zstd.getFrameContentSize ((payload.drop 17).take (lengthField payload).toNat) = some rSize →
        zstd.memory rSize = true)
    (header : send_message_header) (cs_rcv_q : List RecvData) :
    ∃ info, notify zlib zstd { header, dm2_payload := payload } cs_rcv_q =
      match lastText zlib zstd payload with
      | none => .ok cs_rcv_q
      | some text => (do finish header.fd_name text (← getIsHeader text info) cs_rcv_q) := by
  by_cases hcompressed : flag payload = '1' ∨ flag payload = '2'
  · have hle17 : 17 ≤ payload.length := by
      have hbytes : headerBytes payload = 17 := if_pos hcompressed
      omega
    obtain ⟨info, hread, hflg, hfield, hsize⟩ := getIsHeader_compressed hcompressed hle17 {}
    refine ⟨info, ?_⟩
    rw [lastText_eq_innerText (.inr hcompressed), notify, if_neg hne]
    simp only [hread, bind, Except.bind, hflg, hcompressed, if_true, hfield, hsize, show (17 : Int).toNat = 17 from rfl]
    by_cases hone : flag payload = '1'
    · simp only [hone, if_true, decompress_eq zlib hone hle17 zstd]
      cases innerText zlib zstd payload with
      | none => rfl
      | some text => rfl
    · have htwo : flag payload = '2' := hcompressed.resolve_left hone
      obtain ⟨hnonneg, hfits⟩ := hlength htwo
      simp only [hone, if_false, decompressUsingZstd_eq zstd htwo hnonneg hfits zlib (hmemory htwo)]
      cases innerText zlib zstd payload with
      | none => rfl
      | some text => rfl
  · obtain ⟨hone, htwo⟩ := not_or.mp hcompressed
    by_cases hzero : flag payload = '0'
    · obtain ⟨info, hread, hflg, hsize⟩ := getIsHeader_other hone htwo (by rw [hzero]; decide) {}
      have hpos : 0 < payload.length := List.length_pos_iff.mpr hne
      have hbehind : behind payload 1 = .ok (payload.drop 1) := by
        rw [behind, if_neg (by omega), if_pos (by omega)]
        rfl
      refine ⟨info, ?_⟩
      rw [lastText_eq_innerText (.inl hzero), innerText, if_neg hone, if_neg htwo, if_pos hzero, notify, if_neg hne]
      simp only [hread, bind, Except.bind, hflg, hzero, Char.reduceEq, or_self, if_false, if_true, hsize, hbehind]
    · refine ⟨{}, ?_⟩
      have hlast : lastText zlib zstd payload = some payload := if_neg (by
        rintro (h | h)
        · exact hzero h
        · exact hcompressed h)
      rw [hlast, notify, if_neg hne]
      cases hread : getIsHeader payload {} with
      | error e => simp only [hread, bind, Except.bind]
      | ok info =>
        have hflg := compressFlg_of_getIsHeader hread
        rw [show payload.headD (Char.ofNat 0) = flag payload from rfl] at hflg
        simp only [hread, bind, Except.bind, hflg, hcompressed, if_false, hzero]

private theorem headerBytes_le_of_complete {text : Str} (h : Complete text) : headerBytes text ≤ text.length := by
  unfold Complete at h
  split at h
  · next hthree => exact (headerBytes_of_three hthree).trans_le h.1
  · exact h.1

/-- What is in the text behind a header is part of what was received. -/
theorem partOf_of_lastText {zlib : Zlib} {zstd : Zstd} {payload text part : Str}
    (hlast : lastText zlib zstd payload = some text) (hpart : part.IsInfix text) : PartOf zlib zstd payload part := by
  by_cases hflag : flag payload = '0' ∨ flag payload = '1' ∨ flag payload = '2'
  · rw [lastText_eq_innerText hflag] at hlast
    exact .inr ⟨text, hlast, hpart⟩
  · rw [lastText, if_neg hflag] at hlast
    obtain rfl := Option.some.inj hlast
    exact .inl hpart

private theorem headerBytes_le_of_acceptable {zlib : Zlib} {zstd : Zstd} {payload : Str} (hne : payload ≠ [])
    (h : Acceptable zlib zstd payload) : headerBytes payload ≤ payload.length := by
  by_cases hcompressed : flag payload = '1' ∨ flag payload = '2'
  · exact (if_pos hcompressed).trans_le (h.header hcompressed)
  · by_cases hthree : flag payload = '3'
    · have hlast : lastText zlib zstd payload = some payload := if_neg (by rw [hthree]; decide)
      exact headerBytes_le_of_complete (h.last payload hlast)
    · rw [headerBytes_of_ne_three hthree, if_neg hcompressed]
      exact List.length_pos_iff.mpr hne

/-- A payload that is acceptable raises no exception, and a part of it is put into the queue at
most once. -/
private theorem returns_of_acceptable {zlib : Zlib} {zstd : Zstd} {payload : Str} (hne : payload ≠ [])
    (h : Acceptable zlib zstd payload) (header : send_message_header) (cs_rcv_q : List RecvData) :
    Returns zlib zstd { header, dm2_payload := payload } cs_rcv_q := by
  obtain ⟨info, hnotify⟩ :=
    notify_eq hne (headerBytes_le_of_acceptable hne h) h.length h.memory header cs_rcv_q
  unfold Returns
  rw [hnotify]
  cases hlast : lastText zlib zstd payload with
  | none => exact ⟨cs_rcv_q, rfl, .inl rfl⟩
  | some text =>
    have hcomplete := h.last text hlast
    have hthree : flag text = '3' → ∃ n, nameLength text = some n ∧ -3 ≤ n ∧ n + 3 ≤ text.length := by
      intro hthree
      rw [Complete, if_pos hthree] at hcomplete
      obtain ⟨-, n, hname, hneg, hfits, -⟩ := hcomplete
      exact ⟨n, hname, hneg, hfits⟩
    obtain ⟨cs_rcv_q', hreturns⟩ :=
      (finish_returns_iff (headerBytes_le_of_complete hcomplete) info header.fd_name cs_rcv_q).mpr hthree
    obtain ⟨info', -, hfinish⟩ := Except.bind_eq_ok_iff.mp hreturns
    refine ⟨cs_rcv_q', hreturns, (finish_cases hfinish).imp_right ?_⟩
    rintro ⟨data, heq, hpart⟩
    exact ⟨data, heq, partOf_of_lastText hlast hpart⟩

/-- The length in the header of a text for Zstandard, where `notify` returns. -/
theorem length_of_returns {zlib : Zlib} {zstd : Zstd} {payload : Str} (hne : payload ≠ []) (hflag : flag payload = '2')
    (hle : 17 ≤ payload.length) (hfits : 17 + lengthField payload ≤ payload.length) {header : send_message_header}
    {cs_rcv_q : List RecvData} (h : Returns zlib zstd { header, dm2_payload := payload } cs_rcv_q) :
    0 ≤ lengthField payload ∧ ∀ rSize,
      zstd.getFrameContentSize ((payload.drop 17).take (lengthField payload).toNat) = some rSize →
        zstd.memory rSize = true := by
  obtain ⟨cs_rcv_q', hreturns, -⟩ := h
  obtain ⟨info, hread, hflg, hfield, hsize⟩ := getIsHeader_compressed (.inr hflag) hle {}
  rw [notify, if_neg hne] at hreturns
  simp only [hread, bind, Except.bind, hflg, hflag, or_true, if_true, hfield, hsize, Char.reduceEq, if_false,
    show (17 : Int).toNat = 17 from rfl] at hreturns
  by_cases hneg : lengthField payload < 0
  · simp only [decompressUsingZstd_negative zstd hneg, reduceCtorEq] at hreturns
  · refine ⟨by omega, fun rSize hrSize => ?_⟩
    by_contra hrefused
    simp only [decompressUsingZstd_refused zstd (by omega) hfits hrSize hrefused, reduceCtorEq] at hreturns

private theorem lastText_cases {zlib : Zlib} {zstd : Zstd} {payload text : Str}
    (h : lastText zlib zstd payload = some text) :
    innerText zlib zstd payload = some text ∨ text = payload := by
  unfold lastText at h
  split at h
  · exact .inl h
  · exact .inr (Option.some.inj h).symm

private theorem lastText_of_innerText {zlib : Zlib} {zstd : Zstd} {payload text : Str}
    (h : innerText zlib zstd payload = some text) : lastText zlib zstd payload = some text := by
  rw [lastText_eq_innerText, h]
  by_contra hflag
  simp only [not_or] at hflag
  rw [innerText, if_neg hflag.2.1, if_neg hflag.2.2, if_neg hflag.1] at h
  cases h

/-- A payload that is taken in without harm is acceptable. -/
private theorem acceptable_of_safe {zlib : Zlib} {zstd : Zstd} {payload : Str} (hne : payload ≠ [])
    {header : send_message_header}
    {cs_rcv_q : List RecvData} (h : Safe zlib zstd { header, dm2_payload := payload } cs_rcv_q) :
    Acceptable zlib zstd payload := by
  have hle : headerBytes payload ≤ payload.length := by exact_mod_cast h.reads _ _ (.header hne)
  have hheader : flag payload = '1' ∨ flag payload = '2' → 17 ≤ payload.length := fun hcompressed =>
    (if_pos hcompressed : headerBytes payload = 17) ▸ hle
  have htwo : flag payload = '2' → _ := fun hflag =>
    length_of_returns hne hflag (hheader (.inr hflag)) (h.reads _ _ (.frame hflag)) h.returns
  have hlength : flag payload = '2' → 0 ≤ lengthField payload ∧ 17 + lengthField payload ≤ payload.length :=
    fun hflag => ⟨(htwo hflag).1, h.reads _ _ (.frame hflag)⟩
  refine ⟨hheader, hlength, fun hflag => (htwo hflag).2, fun text hinner => ?_, fun text hlast => ?_⟩
  · exact_mod_cast h.keeps _ (.inner hinner)
  · have hle' : headerBytes text ≤ text.length := by
      obtain hinner | rfl := lastText_cases hlast
      · exact_mod_cast h.reads _ _ (.inner hinner)
      · exact hle
    obtain ⟨info, hnotify⟩ := notify_eq hne hle hlength (fun hflag => (htwo hflag).2) header cs_rcv_q
    obtain ⟨cs_rcv_q', hreturns, -⟩ := h.returns
    rw [hnotify, hlast] at hreturns
    have hname := (finish_returns_iff hle' info header.fd_name cs_rcv_q).mp ⟨cs_rcv_q', hreturns⟩
    unfold Complete
    by_cases hthree : flag text = '3'
    · obtain ⟨n, hn, hneg, hfits⟩ := hname hthree
      rw [if_pos hthree]
      exact ⟨(headerBytes_of_three hthree).symm.trans_le hle', n, hn, hneg, hfits, h.keeps _ (.behindName hlast hthree hn)⟩
    · rw [if_neg hthree]
      exact ⟨hle', by exact_mod_cast h.keeps _ (.whole hlast hthree)⟩

/-- An acceptable payload is taken in without harm, whatever header it comes with and whatever
the queue holds. -/
private theorem safe_of_acceptable {zlib : Zlib} {zstd : Zstd} {payload : Str} (hne : payload ≠ [])
    (h : Acceptable zlib zstd payload) (header : send_message_header) (cs_rcv_q : List RecvData) :
    Safe zlib zstd { header, dm2_payload := payload } cs_rcv_q where
  reads := by
    intro text n hread
    cases hread with
    | header => exact_mod_cast headerBytes_le_of_acceptable hne h
    | frame hflag => exact (h.length hflag).2
    | inner hinner => exact_mod_cast headerBytes_le_of_complete (h.last _ (lastText_of_innerText hinner))
  remains := by
    intro n hremains
    have hpos : 0 < payload.length := List.length_pos_iff.mpr hne
    cases hremains with
    | compressed hflag =>
      have hle := h.header (.inl hflag)
      dsimp only
      omega
    | behindFlag hflag =>
      dsimp only
      omega
    | behindName hlast hthree hname =>
      have hcomplete := h.last _ hlast
      rw [Complete, if_pos hthree] at hcomplete
      obtain ⟨-, n', hname', -, hfits, -⟩ := hcomplete
      obtain rfl := Option.some.inj (hname.symm.trans hname')
      omega
  keeps := by
    intro n hkeeps
    cases hkeeps with
    | inner hinner => exact_mod_cast h.inner _ hinner
    | behindName hlast hthree hname =>
      have hcomplete := h.last _ hlast
      rw [Complete, if_pos hthree] at hcomplete
      obtain ⟨-, n', hname', -, -, hlt⟩ := hcomplete
      obtain rfl := Option.some.inj (hname.symm.trans hname')
      exact hlt
    | whole hlast hthree =>
      have hcomplete := h.last _ hlast
      rw [Complete, if_neg hthree] at hcomplete
      exact_mod_cast hcomplete.2
  returns := returns_of_acceptable hne h header cs_rcv_q

/-- An empty payload does no harm. -/
private theorem safe_nil (zlib : Zlib) (zstd : Zstd) (header : send_message_header) (cs_rcv_q : List RecvData) :
    Safe zlib zstd { header, dm2_payload := [] } cs_rcv_q := by
  have hinner : innerText zlib zstd [] = none := rfl
  have hflags : flag [] ≠ '0' ∧ flag [] ≠ '1' ∧ flag [] ≠ '2' ∧ flag [] ≠ '3' := by decide
  have hlast : ∀ text, lastText zlib zstd [] = some text → text = [] := fun text h => (Option.some.inj h).symm
  refine ⟨fun text n hread => ?_, fun n hremains => ?_, fun n hkeeps => ?_, cs_rcv_q, rfl, .inl rfl⟩
  · cases hread with
    | header hne => exact absurd rfl hne
    | frame hflag => exact absurd hflag hflags.2.2.1
    | inner h => cases hinner.symm.trans h
  · cases hremains with
    | compressed hflag => exact absurd hflag hflags.2.1
    | behindFlag hflag => exact absurd hflag hflags.1
    | behindName h hthree => exact absurd (hlast _ h ▸ hthree) hflags.2.2.2
  · cases hkeeps with
    | inner h => cases hinner.symm.trans h
    | behindName h hthree => exact absurd (hlast _ h ▸ hthree) hflags.2.2.2
    | whole h =>
      rw [hlast _ h]
      decide

/-- A payload is taken in safely exactly where it is empty or acceptable, for all libraries
and whatever the queue holds. The header of the packet does not matter. -/
theorem safe_iff (zlib : Zlib) (zstd : Zstd) (buffer : send_message_vector) (cs_rcv_q : List RecvData) :
    Safe zlib zstd buffer cs_rcv_q ↔ buffer.dm2_payload = [] ∨ Acceptable zlib zstd buffer.dm2_payload := by
  obtain ⟨header, payload⟩ := buffer
  by_cases hne : payload = []
  · subst hne
    exact ⟨fun _ => .inl rfl, fun _ => safe_nil zlib zstd header cs_rcv_q⟩
  · constructor
    · exact fun h => .inr (acceptable_of_safe hne h)
    · rintro (h | h)
      · exact absurd h hne
      · exact safe_of_acceptable hne h header cs_rcv_q

/-- Three bytes with the flag `3` are read beyond their end. -/
theorem shortName_not_safe : ¬ ∀ (zlib : Zlib) (zstd : Zstd) (buffer : send_message_vector) (cs_rcv_q : List RecvData),
    Safe zlib zstd buffer cs_rcv_q := by
  intro h
  have hreads := (h signalZlib failingZstd { header := {}, dm2_payload := "305".toList } []).reads _ _
    (.header (by decide))
  exact absurd hreads (by decide)

end CsReceiver

end IS

import Dm20.Lib.Assembly
import Dm20.Transfer.Lossless
import Dm20.Transfer.RecvUsingHeader

open Assembly

namespace IS

open StringUtil

namespace RecvUsingHeader

/-- The bytes that are taken of a datagram. -/
def part (sizeof_bufTmp : Nat) : Option Datagram → Str
  | none => []
  | some datagram => datagram.bytes.take sizeof_bufTmp

/-- A cleared buffer with some bytes at its front. -/
def filled (size : Nat) (bytes : Str) : Str :=
  bytes ++ zeros (size - bytes.length)

/-- The room for what is put together, and for what is unpacked. -/
def room : Nat :=
  IPv4_UDP_MAX_BYTE * 10

/-- What the header says of the size of the payload. -/
def expected (info : IsHeaderInfo) : Int :=
  if info.header.compressFlg = '1' then SEND_BUF_SIZE - 17 else info.header.length.toInt

/-- The payload in the parts. A first datagram without a byte behind the header ends it. -/
def payload (total : Int) (first : Str) (parts : List Str) : Progress Char :=
  if first.length ≤ 17 then
    if (first.length : Int) - 17 = total then .complete [] else .failed
  else assemble room total [] (first.drop 17 :: parts)

/-- What is handed on of a payload. -/
def unpack (library : Unpacking) (flag : Char) (total : Int) (bytes : Str) : Except Failure (Int × Str) :=
  if flag = '1' then decompressInto library (filled room bytes) callerBuf
  else (decompressUsingZstdInto library (filled room bytes) callerBuf total).map fun (outSize, outBuf) =>
    (outSize.getD (-1), outBuf)

def deliver (library : Unpacking) (flag : Char) (total : Int) : Progress Char → Except Failure (Option (Int × Str))
  | .waiting => .ok none
  | .failed => .ok (some (-1, callerBuf))
  | .overrun => .error .undefined
  | .complete bytes => (unpack library flag total bytes).map some

/-- A datagram that is not compressed. -/
def plain (flag : Char) (bytes : Str) : Int × Str :=
  if flag = '0' then (bytes.length - 1, filled room (bytes.drop 1)) else (bytes.length, filled room bytes)

/-- What is received, without the buffers in between. -/
def received (library : Unpacking) (sizeof_bufTmp : Nat) :
    List (Option Datagram) → Except Failure (Option (Int × Str))
  | [] => .ok none
  | datagram :: rest =>
    let first := part sizeof_bufTmp datagram
    if first = [] then .ok (some (-1, callerBuf))
    else (getIsHeader (filled sizeof_bufTmp first) {}).bind fun info =>
      if info.header.compressFlg = '1' ∨ info.header.compressFlg = '2' then
        deliver library info.header.compressFlg (expected info)
          (payload (expected info) first (rest.map (part sizeof_bufTmp)))
      else .ok (some (plain info.header.compressFlg first))

section Buffer

variable {size : Nat} {taken bytes : Str}

private theorem length_filled (h : bytes.length ≤ size) : (filled size bytes).length = size := by
  rw [filled, List.length_append, zeros, List.length_replicate]
  omega

/-- Bytes behind those of a buffer. -/
theorem memcpyTo_filled (h : taken.length ≤ size) : memcpyTo (filled size taken) taken.length bytes =
    if size < (taken ++ bytes).length then .error .undefined else .ok (filled size (taken ++ bytes)) := by
  rw [memcpyTo, length_filled h, List.length_append]
  by_cases hroom : taken.length + bytes.length ≤ size
  · have hbehind : size - taken.length - (taken.length + bytes.length - taken.length) =
        size - (taken.length + bytes.length) := by omega
    rw [if_pos hroom, if_neg (Nat.not_lt.mpr hroom), filled, List.take_left, List.drop_append, zeros,
      List.drop_replicate, List.drop_eq_nil_of_le (by omega), List.nil_append, hbehind, filled, zeros,
      List.length_append]
  · rw [if_neg hroom, if_pos (Nat.lt_of_not_le hroom)]

/-- Bytes in the place of fewer ones. -/
theorem memcpyTo_filled_zero (h : taken.length ≤ bytes.length) (hroom : bytes.length ≤ size) :
    memcpyTo (filled size taken) 0 bytes = .ok (filled size bytes) := by
  rw [memcpyTo, length_filled (h.trans hroom), Nat.zero_add, if_pos hroom, List.take_zero, List.nil_append, filled,
    List.drop_append, List.drop_eq_nil_of_le h, List.nil_append, filled, zeros, zeros, List.drop_replicate]
  congr 3
  omega

/-- The buffer of the caller is filled with nothing at first. -/
theorem callerBuf_eq : callerBuf = filled room [] :=
  rfl

end Buffer

section Recvfrom

variable {sizeof_bufTmp : Nat} {datagram : Option Datagram}

private theorem recvfrom_fst_le_iff : (recvfrom sizeof_bufTmp datagram).1 ≤ 0 ↔ part sizeof_bufTmp datagram = [] := by
  cases datagram with
  | none => exact iff_of_true (show (-1 : Int) ≤ 0 by decide) rfl
  | some datagram =>
    rw [recvfrom, part, ← List.length_eq_zero_iff]
    omega

private theorem recvfrom_eq (h : part sizeof_bufTmp datagram ≠ []) : recvfrom sizeof_bufTmp datagram =
    (((part sizeof_bufTmp datagram).length : Int), filled sizeof_bufTmp (part sizeof_bufTmp datagram)) := by
  cases datagram with
  | none => exact absurd rfl h
  | some datagram => rfl

/-- No datagram brings more than the room that there is. -/
theorem length_part_le : (part sizeof_bufTmp datagram).length ≤ room := by
  cases datagram with
  | none => exact Nat.zero_le _
  | some datagram =>
    have hle := datagram.length_le
    rw [part, List.length_take, room, IPv4_UDP_MAX_BYTE]
    omega

end Recvfrom

section Loop

variable {library : Unpacking} {sizeof_bufTmp : Nat} {s : State} {taken bytes : Str}

/-- The bytes taken so far stand at the front of the buffer. -/
structure Holding (s : State) (taken : Str) : Prop where
  bufComp : s.bufComp = filled room taken
  pre_len : s.pre_len = taken.length
  length_le : taken.length ≤ room
  less : taken = [] ∨ (taken.length : Int) < s.maxCompSize

/-- What follows a round. -/
def after (library : Unpacking) (sizeof_bufTmp : Nat) (rest : List (Option Datagram)) :
    Round → Except Failure (Option (Int × Str))
  | .again s => loop library sizeof_bufTmp callerBuf s rest
  | .leave len s => (finish library callerBuf len s).map some
  | .answer len outBuf => .ok (some (len, outBuf))

/-- One round takes one datagram, and the loop goes on with the rest if it has not ended. -/
private theorem loop_cons (datagram : Option Datagram) (rest : List (Option Datagram)) :
    loop library sizeof_bufTmp callerBuf s (datagram :: rest) =
      (round sizeof_bufTmp callerBuf s datagram).bind (after library sizeof_bufTmp rest) := by
  rw [loop]
  cases round sizeof_bufTmp callerBuf s datagram with
  | error e => rfl
  | ok r =>
    cases r with
    | again s => rfl
    | leave len s =>
      change (finish library callerBuf len s >>= fun answer => .ok (some answer)) = _
      rw [Except.bind, after]
      cases finish library callerBuf len s <;> rfl
    | answer len outBuf => rfl

/-- What a part that is not the first of all does. -/
theorem accumulate_eq (hs : Holding s taken) (hne : bytes ≠ []) (hbytes : bytes.length ≤ room) (behind : Str) :
    accumulate s bytes.length (bytes ++ behind) =
      if s.maxCompSize < bytes.length then .ok (.leave bytes.length s)
      else if bytes.length = s.maxCompSize then .ok (.leave bytes.length { s with bufComp := filled room bytes })
      else if s.maxCompSize < (taken ++ bytes).length then .ok (.leave 0 s)
      else if room < (taken ++ bytes).length then .error .undefined
      else if (taken ++ bytes).length = s.maxCompSize then
        .ok (.leave s.maxCompSize { s with bufComp := filled room (taken ++ bytes) })
      else .ok (.again { s with
        bufComp := filled room (taken ++ bytes)
        pre_len := (taken ++ bytes).length }) := by
  have htake : (bytes ++ behind).take (bytes.length : Int).toNat = bytes := by
    rw [Int.toNat_natCast, List.take_left]
  have hpos : 0 < bytes.length := List.length_pos_iff.mpr hne
  have hsum : (taken ++ bytes).length = taken.length + bytes.length := List.length_append
  rw [accumulate, htake, hs.bufComp, hs.pre_len]
  by_cases hmost : s.maxCompSize < bytes.length
  · rw [if_pos (.inr hmost), if_pos hmost]
  · rw [if_neg (by omega), if_neg hmost]
    by_cases hwhole : (bytes.length : Int) = s.maxCompSize
    · have hless : taken.length ≤ bytes.length := by
        rcases hs.less with rfl | hless
        · exact Nat.zero_le _
        · omega
      rw [if_pos hwhole, if_pos hwhole, memcpyTo_filled_zero hless hbytes]
      rfl
    · rw [if_neg hwhole, if_neg hwhole]
      by_cases htaken : taken = []
      · subst htaken
        rw [if_neg (by decide), memcpyTo_filled_zero (Nat.zero_le _) hbytes, List.nil_append, if_neg hmost,
          if_neg (Nat.not_lt.mpr hbytes), if_neg hwhole]
        rfl
      · have htakenPos : 0 < taken.length := List.length_pos_iff.mpr htaken
        rw [if_pos (by omega), Int.toNat_natCast, memcpyTo_filled hs.length_le]
        by_cases htotal : (taken.length : Int) + bytes.length = s.maxCompSize
        · rw [if_pos htotal, if_neg (by omega : ¬ s.maxCompSize < ((taken ++ bytes).length : Int)),
            if_pos (by omega : ((taken ++ bytes).length : Int) = s.maxCompSize)]
          split <;> rfl
        · rw [if_neg htotal]
          by_cases hsome : (taken.length : Int) + bytes.length < s.maxCompSize
          · rw [if_pos hsome, if_neg (by omega : ¬ s.maxCompSize < ((taken ++ bytes).length : Int)),
              if_neg (by omega : ¬ ((taken ++ bytes).length : Int) = s.maxCompSize), hsum, Nat.cast_add]
            split <;> rfl
          · rw [if_neg hsome, if_pos (by omega : s.maxCompSize < ((taken ++ bytes).length : Int))]

/-- A payload may be unpacked. -/
def State.Compressed (s : State) : Prop :=
  s.headerInfo.header.compressFlg = '1' ∨ s.headerInfo.header.compressFlg = '2'

private theorem finish_eq_unpack (hflag : s.Compressed)
    (hbuf : s.bufComp = filled room bytes) :
    finish library callerBuf s.maxCompSize s = unpack library s.headerInfo.header.compressFlg s.maxCompSize bytes := by
  rw [finish, if_neg (not_not.mpr rfl), unpack, hbuf]
  rcases hflag with hflag | hflag <;> rw [hflag] <;> rfl

private theorem finish_of_ne {len : Int} (h : len ≠ s.maxCompSize) :
    finish library callerBuf len s = .ok (-1, callerBuf) :=
  if_pos h

/-- A part, where what follows it puts the other parts together. -/
theorem accumulate_after {rest : List (Option Datagram)} (hs : Holding s taken) (hfirst : s.isFirst = false)
    (hflag : s.Compressed) (hne : bytes ≠ []) (hbytes : bytes.length ≤ room) (behind : Str)
    (hloop : ∀ {s' taken'}, Holding s' taken' → s'.isFirst = false → s'.Compressed →
      loop library sizeof_bufTmp callerBuf s' rest = deliver library s'.headerInfo.header.compressFlg s'.maxCompSize
        (assemble room s'.maxCompSize taken' (rest.map (part sizeof_bufTmp)))) :
    (accumulate s bytes.length (bytes ++ behind)).bind (after library sizeof_bufTmp rest) =
      deliver library s.headerInfo.header.compressFlg s.maxCompSize
        (assemble room s.maxCompSize taken (bytes :: rest.map (part sizeof_bufTmp))) := by
  have hpos : 0 < bytes.length := List.length_pos_iff.mpr hne
  rw [accumulate_eq hs hne hbytes, assemble]
  by_cases hmost : s.maxCompSize < bytes.length
  · rw [if_pos hmost, if_pos (.inr hmost), Except.bind, after, finish_of_ne hmost.ne']
    rfl
  · rw [if_neg hmost, if_neg (not_or.mpr ⟨hne, hmost⟩)]
    by_cases hwhole : (bytes.length : Int) = s.maxCompSize
    · rw [if_pos hwhole, if_pos hwhole, Except.bind, after, hwhole]
      exact congrArg (Except.map some) (finish_eq_unpack (s := { s with bufComp := filled room bytes }) hflag rfl)
    · rw [if_neg hwhole, if_neg hwhole]
      by_cases htoo : s.maxCompSize < ((taken ++ bytes).length : Int)
      · rw [if_pos htoo, if_pos htoo, Except.bind, after, finish_of_ne (by omega)]
        rfl
      · rw [if_neg htoo, if_neg htoo]
        by_cases hroom : room < (taken ++ bytes).length
        · rw [if_pos hroom, if_pos hroom]
          rfl
        · rw [if_neg hroom, if_neg hroom]
          by_cases htotal : ((taken ++ bytes).length : Int) = s.maxCompSize
          · rw [if_pos htotal, if_pos htotal, Except.bind, after]
            exact congrArg (Except.map some)
              (finish_eq_unpack (s := { s with bufComp := filled room (taken ++ bytes) }) hflag rfl)
          · rw [if_neg htotal, if_neg htotal, Except.bind, after]
            exact hloop ⟨rfl, rfl, Nat.not_lt.mp hroom, .inr (by simp only; omega)⟩ hfirst hflag

private theorem round_of_nil {datagram : Option Datagram} (h : part sizeof_bufTmp datagram = []) :
    round sizeof_bufTmp callerBuf s datagram = .ok (.answer (-1) callerBuf) := by
  rw [round]
  exact if_pos (recvfrom_fst_le_iff.mpr h)

private theorem round_of_ne {datagram : Option Datagram} (h : part sizeof_bufTmp datagram ≠ []) :
    round sizeof_bufTmp callerBuf s datagram =
      if s.isFirst then first callerBuf s (part sizeof_bufTmp datagram).length
        (filled sizeof_bufTmp (part sizeof_bufTmp datagram))
      else accumulate s (part sizeof_bufTmp datagram).length (filled sizeof_bufTmp (part sizeof_bufTmp datagram)) := by
  have hpos := List.length_pos_iff.mpr h
  have hnot : ¬ ((part sizeof_bufTmp datagram).length : Int) ≤ 0 := by omega
  rw [round, recvfrom_eq h]
  exact if_neg hnot

/-- The loop puts the parts together. -/
theorem loop_eq (rest : List (Option Datagram)) (hs : Holding s taken) (hfirst : s.isFirst = false)
    (hflag : s.Compressed) : loop library sizeof_bufTmp callerBuf s rest =
      deliver library s.headerInfo.header.compressFlg s.maxCompSize
        (assemble room s.maxCompSize taken (rest.map (part sizeof_bufTmp))) := by
  induction rest generalizing s taken with
  | nil => rfl
  | cons datagram rest ih =>
    rw [loop_cons, List.map_cons]
    by_cases hpart : part sizeof_bufTmp datagram = []
    · rw [round_of_nil hpart, hpart, assemble, if_pos (.inl rfl)]
      rfl
    · rw [round_of_ne hpart, if_neg (by rw [hfirst]; exact Bool.false_ne_true)]
      exact accumulate_after hs hfirst hflag hpart length_part_le _ ih

end Loop

section First

variable {library : Unpacking} {sizeof_bufTmp : Nat} {bytes : Str} {info : IsHeaderInfo}

/-- How large a header is that was read. -/
theorem headerSize_of_getIsHeader {buf : Str} (h : getIsHeader buf {} = .ok info) :
    (info.header.compressFlg = '1' ∨ info.header.compressFlg = '2' → info.headerSize = 17) ∧
      (info.header.compressFlg = '0' → info.headerSize = 1) := by
  simp only [getIsHeader, Except.bind_eq_ok_iff] at h
  obtain ⟨flg, -, h⟩ := h
  split at h
  · next hplain =>
    split at h
    · next hzero =>
      rw [← Except.ok.inj h]
      exact ⟨fun hflag => absurd hflag (not_or.mpr hplain), fun _ => rfl⟩
    · next hzero =>
      split at h
      · simp only [Except.bind_eq_ok_iff] at h
        obtain ⟨_, _, _, _, _, _, _, _, h⟩ := h
        rw [← Except.ok.inj h]
        exact ⟨fun hflag => absurd hflag (not_or.mpr hplain), fun hflag => absurd hflag hzero⟩
      · rw [← Except.ok.inj h]
        exact ⟨fun hflag => absurd hflag (not_or.mpr hplain), fun hflag => absurd hflag hzero⟩
  · next hcompressed =>
    simp only [Except.bind_eq_ok_iff] at h
    obtain ⟨_, _, _, _, _, _, h⟩ := h
    rw [← Except.ok.inj h]
    refine ⟨fun _ => rfl, fun hflag => absurd ?_ hcompressed⟩
    simp only at hflag
    rw [hflag]
    decide

/-- A datagram that is not compressed is handed on. -/
theorem first_of_plain (hinfo : getIsHeader (filled sizeof_bufTmp bytes) {} = .ok info)
    (hflag : ¬ (info.header.compressFlg = '1' ∨ info.header.compressFlg = '2')) (hne : bytes ≠ [])
    (hbytes : bytes.length ≤ room) (rest : List (Option Datagram)) :
    (first callerBuf {} bytes.length (filled sizeof_bufTmp bytes)).bind (after library sizeof_bufTmp rest) =
      .ok (some (plain info.header.compressFlg bytes)) := by
  have hpos : 0 < bytes.length := List.length_pos_iff.mpr hne
  have hplain := not_or.mp hflag
  rw [first, hinfo]
  change Except.bind (if info.header.compressFlg ≠ '1' ∧ info.header.compressFlg ≠ '2' then _ else _) _ = _
  rw [if_pos hplain, plain]
  by_cases hzero : info.header.compressFlg = '0'
  · have hbehind : ((filled sizeof_bufTmp bytes).drop 1).take ((bytes.length : Int) - 1).toNat = bytes.drop 1 := by
      have hlength : ((bytes.length : Int) - 1).toNat = (bytes.drop 1).length := by
        rw [List.length_drop]
        omega
      rw [filled, List.drop_append_of_le_length hpos, hlength, List.take_left]
    have hdrop : (bytes.drop 1).length ≤ room := by
      rw [List.length_drop]
      omega
    rw [if_pos hzero, if_pos hzero, (headerSize_of_getIsHeader hinfo).2 hzero, Int.toNat_one, hbehind, callerBuf_eq,
      memcpyTo_filled_zero (Nat.zero_le _) hdrop]
    rfl
  · have hwhole : (filled sizeof_bufTmp bytes).take (bytes.length : Int).toNat = bytes := by
      rw [Int.toNat_natCast, filled, List.take_left]
    rw [if_neg hzero, if_neg hzero, Int.sub_add_cancel]
    simp only
    rw [hwhole, callerBuf_eq, memcpyTo_filled_zero (Nat.zero_le _) hbytes]
    rfl

/-- A compressed payload is put together and unpacked. -/
theorem first_of_compressed (hinfo : getIsHeader (filled sizeof_bufTmp bytes) {} = .ok info)
    (hflag : info.header.compressFlg = '1' ∨ info.header.compressFlg = '2')
    (hbytes : bytes.length ≤ room) (rest : List (Option Datagram)) :
    (first callerBuf {} bytes.length (filled sizeof_bufTmp bytes)).bind (after library sizeof_bufTmp rest) =
      deliver library info.header.compressFlg (expected info)
        (payload (expected info) bytes (rest.map (part sizeof_bufTmp))) := by
  have hsize := (headerSize_of_getIsHeader hinfo).1 hflag
  rw [first, hinfo]
  change Except.bind (if info.header.compressFlg ≠ '1' ∧ info.header.compressFlg ≠ '2' then _ else _) _ = _
  rw [if_neg (not_and_or.mpr (hflag.imp not_not.mpr not_not.mpr)), hsize, payload]
  have hexpected : (if info.header.compressFlg = '1' then ({} : State).maxCompSize - 17 else info.header.length.toInt) =
      expected info := rfl
  rw [hexpected]
  by_cases hshort : bytes.length ≤ 17
  · rw [if_pos hshort, accumulate, if_pos (.inl (by omega)), Except.bind, after]
    by_cases hempty : (bytes.length : Int) - 17 = expected info
    · rw [if_pos hempty, hempty]
      exact congrArg (Except.map some) (finish_eq_unpack
        (s := { headerInfo := info, maxCompSize := expected info, isFirst := false }) hflag callerBuf_eq)
    · rw [if_neg hempty, finish_of_ne hempty]
      rfl
  · have hlong : 17 < bytes.length := Nat.lt_of_not_le hshort
    have hlength : (bytes.length : Int) - 17 = (bytes.drop 17).length := by
      rw [List.length_drop]
      omega
    have hne : bytes.drop 17 ≠ [] := by
      rw [← List.length_pos_iff, List.length_drop]
      omega
    have hle : (bytes.drop 17).length ≤ room := by
      rw [List.length_drop]
      omega
    have hdrop : (filled sizeof_bufTmp bytes).drop (17 : Int).toNat =
        bytes.drop 17 ++ zeros (sizeof_bufTmp - bytes.length) :=
      List.drop_append_of_le_length hlong.le
    have hholding : Holding { headerInfo := info, maxCompSize := expected info, isFirst := false } [] :=
      ⟨callerBuf_eq, rfl, Nat.zero_le _, .inl rfl⟩
    rw [if_neg hshort, hlength, hdrop]
    exact accumulate_after hholding rfl hflag hne hle _ (loop_eq rest)

/-- The code receives what is said without its buffers. -/
theorem recvUsingHeaderWith_eq (datagrams : List (Option Datagram)) :
    recvUsingHeaderWith library sizeof_bufTmp datagrams = received library sizeof_bufTmp datagrams := by
  cases datagrams with
  | nil => rfl
  | cons datagram rest =>
    rw [recvUsingHeaderWith, loop_cons, received]
    by_cases hpart : part sizeof_bufTmp datagram = []
    · rw [round_of_nil hpart, if_pos hpart]
      rfl
    · rw [round_of_ne hpart, if_neg hpart, if_pos rfl]
      cases hinfo : getIsHeader (filled sizeof_bufTmp (part sizeof_bufTmp datagram)) {} with
      | error e =>
        rw [first, hinfo]
        rfl
      | ok info =>
        rw [Except.bind]
        by_cases hflag : info.header.compressFlg = '1' ∨ info.header.compressFlg = '2'
        · rw [first_of_compressed hinfo hflag length_part_le, if_pos hflag]
        · rw [first_of_plain hinfo hflag hpart length_part_le, if_neg hflag]

end First

end RecvUsingHeader

end IS

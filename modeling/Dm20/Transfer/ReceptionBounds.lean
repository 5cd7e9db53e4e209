import Dm20.Transfer.Reception

open Assembly

namespace IS

open StringUtil

namespace RecvUsingHeader

section Unpack

variable {library : Unpacking} {flag : Char} {total : Int} {bytes : Str}

/-- A size within the room is unchanged by the conversion to `size_t`. -/
theorem size_t_natCast {n : Nat} (h : n ≤ room) : size_t n = n := by
  rw [room, IPv4_UDP_MAX_BYTE] at h
  rw [size_t]
  omega

/-- A size within the room is unchanged by the conversion to `int`. -/
theorem bmod_natCast {n : Nat} (h : n ≤ room) : (n : Int).bmod (2 ^ 32) = n := by
  rw [room, IPv4_UDP_MAX_BYTE] at h
  exact Int.bmod_eq_of_le (by omega) (by omega)

/-- What zstd leaves in the buffer of the caller. -/
def zstdWritten (library : Unpacking) (total : Int) (bytes : Str) : Str :=
  let rSize := library.ZSTD_getDecompressedSize (filled room bytes) (size_t total)
  if rSize = 0 then [] else (library.ZSTD_decompress rSize (filled room bytes) (size_t total)).1

private theorem memcpyTo_callerBuf (written : Str) : memcpyTo callerBuf 0 written =
    if room < written.length then .error .undefined else .ok (filled room written) := by
  rw [callerBuf_eq]
  exact @memcpyTo_filled room [] written (Nat.zero_le _)

/-- What zlib leaves has room. -/
theorem unpack_one : unpack library '1' total bytes = .ok
    (if (library.inflate (filled room bytes) COMPRESSED_BUF_SIZE UNCOMPRESSED_BUF_SIZE).2 then
      (c_str (filled room (library.inflate (filled room bytes) COMPRESSED_BUF_SIZE UNCOMPRESSED_BUF_SIZE).1)).length
    else -1, filled room (library.inflate (filled room bytes) COMPRESSED_BUF_SIZE UNCOMPRESSED_BUF_SIZE).1) := by
  have hle := library.inflate_le (filled room bytes) COMPRESSED_BUF_SIZE UNCOMPRESSED_BUF_SIZE
  have hroom : UNCOMPRESSED_BUF_SIZE ≤ room := by decide
  rw [unpack, if_pos rfl, decompressInto]
  simp only
  rw [memcpyTo_callerBuf, if_neg (Nat.not_lt.mpr (hle.trans hroom))]
  rfl

/-- Without the mark of zlib the bytes go to Zstandard, with the size it states of them. -/
theorem unpack_of_ne (hflag : flag ≠ '1') : unpack library flag total bytes =
    if library.ZSTD_getDecompressedSize (filled room bytes) (size_t total) = 0 then .ok (-1, callerBuf)
    else if room < (zstdWritten library total bytes).length then .error .undefined
    else .ok (if (library.ZSTD_decompress (library.ZSTD_getDecompressedSize (filled room bytes) (size_t total))
        (filled room bytes) (size_t total)).2 = library.ZSTD_getDecompressedSize (filled room bytes) (size_t total) then
      (library.ZSTD_getDecompressedSize (filled room bytes) (size_t total) : Int).bmod (2 ^ 32) else -1,
      filled room (zstdWritten library total bytes)) := by
  rw [unpack, if_neg hflag, decompressUsingZstdInto, zstdWritten]
  simp only
  split
  · rfl
  · rw [memcpyTo_callerBuf]
    split
    · rfl
    · change Except.ok _ = _
      simp only
      split
      · next hsize =>
        rw [hsize, Option.getD_some]
      · rfl

/-- Only what zstd leaves can be too much. -/
theorem unpack_eq_undefined_iff :
    unpack library flag total bytes = .error .undefined ↔
      flag ≠ '1' ∧ room < (zstdWritten library total bytes).length := by
  by_cases hflag : flag = '1'
  · subst hflag
    rw [unpack_one]
    exact iff_of_false (fun h => by cases h) fun h => h.1 rfl
  · rw [unpack_of_ne hflag, and_iff_right hflag]
    split
    · next hsize =>
      rw [zstdWritten, if_pos hsize]
      exact iff_of_false (fun h => by cases h) (Nat.not_lt_zero _)
    · split
      · next hroom => exact iff_of_true rfl hroom
      · next hroom => exact iff_of_false (fun h => by cases h) hroom

/-- The delivery is undefined exactly if the copy has run over, or what zstd makes of the
payload has no room. -/
private theorem deliver_eq_undefined_iff {progress : Progress Char} :
    deliver library flag total progress = .error .undefined ↔
      progress = .overrun ∨ ∃ bytes, progress = .complete bytes ∧ flag ≠ '1' ∧
        room < (zstdWritten library total bytes).length := by
  cases progress with
  | waiting => simp [deliver]
  | failed => simp [deliver]
  | overrun => simp [deliver]
  | complete bytes =>
    rw [deliver, Except.map_eq_error_iff, unpack_eq_undefined_iff]
    simp

end Unpack

section Header

/-- The header of a datagram is read from the first bytes of the buffer. -/
theorem memcpy_congr {buf buf' : Str} (h : buf.take 100 = buf'.take 100) (hlength : 100 ≤ buf.length)
    (hlength' : 100 ≤ buf'.length) {pos n : Nat} (hn : pos + n ≤ 100) : memcpy buf pos n = memcpy buf' pos n := by
  have htake : ∀ s : Str, 100 ≤ s.length →
      ((s ++ [Char.ofNat 0]).drop pos).take n = ((s.take 100).drop pos).take n := by
    intro s hs
    rw [List.drop_take, List.take_take, List.drop_append_of_le_length (by omega),
      List.take_append_of_le_length (by rw [List.length_drop]; omega)]
    congr 1
    omega
  rw [memcpy, memcpy, if_pos (by omega), if_pos (by omega), htake buf hlength, htake buf' hlength', h]

/-- The header is read from the first hundred bytes only. -/
theorem getIsHeader_congr {buf buf' : Str} (h : buf.take 100 = buf'.take 100) (hlength : 100 ≤ buf.length)
    (hlength' : 100 ≤ buf'.length) (info : IsHeaderInfo) : getIsHeader buf info = getIsHeader buf' info := by
  have hcongr : ∀ {pos n : Nat}, pos + n ≤ 100 → memcpy buf pos n = memcpy buf' pos n :=
    memcpy_congr h hlength hlength'
  rw [getIsHeader, getIsHeader, hcongr (by decide : 0 + 1 ≤ 100), hcongr (by decide : 0 + 100 ≤ 100),
    hcongr (by decide : 1 + 4 ≤ 100), hcongr (by decide : 5 + 8 ≤ 100), hcongr (by decide : 13 + 4 ≤ 100)]

private theorem substr_ne_undefined (s : Str) (pos : Nat) (n : Int) : substr s pos n ≠ .error .undefined := by
  rw [substr]
  split <;> exact fun h => by cases h

private theorem stoi_ne_undefined (s : Str) : (stoi s).mapError ConversionError.toFailure ≠ .error .undefined := by
  cases stoi s with
  | ok n => exact fun h => by cases h
  | error e => cases e <;> exact fun h => by cases h

/-- A header is read within the buffer, where there is room for the longest one. -/
theorem getIsHeader_ne_undefined {buf : Str} (hlength : 100 ≤ buf.length) (info : IsHeaderInfo) :
    getIsHeader buf info ≠ .error .undefined := by
  have hmemcpy : ∀ {pos n : Nat} {e : Failure}, pos + n ≤ 100 → memcpy buf pos n ≠ .error e := by
    intro pos n e hn
    rw [memcpy, if_pos (by omega)]
    exact fun h => by cases h
  intro h
  simp only [getIsHeader, Except.bind_eq_error_iff] at h
  rcases h with h | ⟨flg, -, h⟩
  · exact hmemcpy (by decide) h
  · split at h
    · split at h
      · cases h
      · split at h
        · simp only [Except.bind_eq_error_iff] at h
          rcases h with h | ⟨_, -, h | ⟨_, -, h | ⟨_, -, h | ⟨_, -, h⟩⟩⟩⟩
          · exact hmemcpy (by decide) h
          · exact substr_ne_undefined _ _ _ h
          · exact stoi_ne_undefined _ h
          · exact substr_ne_undefined _ _ _ h
          · cases h
        · cases h
    · simp only [Except.bind_eq_error_iff] at h
      rcases h with h | ⟨_, -, h | ⟨_, -, h | ⟨_, -, h⟩⟩⟩
      · exact hmemcpy (by decide) h
      · exact hmemcpy (by decide) h
      · exact hmemcpy (by decide) h
      · cases h

end Header

section Bounded

variable {library : Unpacking} {sizeof_bufTmp : Nat}

/-- More bytes than there is room for, and not more than the message is said to have. -/
def Overruns (total : Int) (parts : List Str) : Prop :=
  ∃ n, (∀ part ∈ parts.take n, part ≠ []) ∧ room < (parts.take n).flatten.length ∧
    ((parts.take n).flatten.length : Int) ≤ total

/-- Where the first datagram has the header of a compressed message, the parts do not overrun the
room, nor does what zstd makes of the payload. -/
def Bounded (library : Unpacking) (sizeof_bufTmp : Nat) : List (Option Datagram) → Prop
  | [] => True
  | datagram :: rest => ∀ info,
    getIsHeader (filled sizeof_bufTmp (part sizeof_bufTmp datagram)) {} = .ok info →
    info.header.compressFlg = '1' ∨ info.header.compressFlg = '2' →
    ¬ Overruns (expected info) ((part sizeof_bufTmp datagram).drop 17 :: rest.map (part sizeof_bufTmp)) ∧
      ∀ bytes, payload (expected info) (part sizeof_bufTmp datagram) (rest.map (part sizeof_bufTmp)) = .complete bytes →
        info.header.compressFlg = '2' → (zstdWritten library (expected info) bytes).length ≤ room

/-- The copy runs over the buffer exactly where the parts together are longer than the size that
was stated. -/
private theorem payload_eq_overrun_iff {total : Int} {first : Str} {parts : List Str} (hfirst : first.length ≤ room)
    (hparts : ∀ part ∈ parts, part.length ≤ room) :
    payload total first parts = .overrun ↔ Overruns total (first.drop 17 :: parts) := by
  rw [payload]
  split
  · next hshort =>
    refine iff_of_false (fun h => by split at h <;> cases h) ?_
    rintro ⟨n, hne, hroom, -⟩
    cases n with
    | zero => exact absurd hroom (Nat.not_lt_zero _)
    | succ n =>
      rw [List.take_succ_cons] at hne
      exact (List.forall_mem_cons.mp hne).1 (List.drop_eq_nil_of_le hshort)
  · have hall : ∀ part ∈ first.drop 17 :: parts, part.length ≤ room := by
      refine List.forall_mem_cons.mpr ⟨?_, hparts⟩
      rw [List.length_drop]
      omega
    exact assemble_eq_overrun_iff hall (Nat.zero_le _)

/-- A buffer that was filled is as long as its size at least. -/
theorem le_length_filled {n size : Nat} (h : n ≤ size) (bytes : Str) : n ≤ (filled size bytes).length := by
  rw [filled, List.length_append, zeros, List.length_replicate]
  omega

/-- Without a byte there is no flag. -/
theorem not_compressed_of_nil {size : Nat} {info : IsHeaderInfo} (h : getIsHeader (filled size []) {} = .ok info) :
    ¬ (info.header.compressFlg = '1' ∨ info.header.compressFlg = '2') := by
  have hzero : (filled size []).headD (Char.ofNat 0) = Char.ofNat 0 := by
    rw [filled, List.nil_append, zeros]
    cases size - ([] : Str).length <;> rfl
  rw [compressFlg_of_getIsHeader h, hzero]
  decide

/-- Each of the datagrams that are to come brings no more than the room. -/
theorem length_le_of_mem_parts {rest : List (Option Datagram)} :
    ∀ bytes ∈ rest.map (part sizeof_bufTmp), bytes.length ≤ room :=
  List.forall_mem_map.mpr fun _ _ => length_part_le

/-- No byte is written outside the buffers just where what comes is bounded. -/
theorem received_ne_undefined_iff (hsize : 100 ≤ sizeof_bufTmp) (datagrams : List (Option Datagram)) :
    received library sizeof_bufTmp datagrams ≠ .error .undefined ↔ Bounded library sizeof_bufTmp datagrams := by
  cases datagrams with
  | nil => exact iff_of_true (fun h => by cases h) trivial
  | cons datagram rest =>
    rw [received, Bounded]
    by_cases hpart : part sizeof_bufTmp datagram = []
    · rw [if_pos hpart, hpart]
      exact iff_of_true (fun h => by cases h) fun info hinfo hflag => absurd hflag (not_compressed_of_nil hinfo)
    · rw [if_neg hpart]
      cases hinfo : getIsHeader (filled sizeof_bufTmp (part sizeof_bufTmp datagram)) {} with
      | error e =>
        have hne : e ≠ .undefined := by
          rintro rfl
          exact getIsHeader_ne_undefined (le_length_filled hsize _) _ hinfo
        exact iff_of_true (fun h => hne (Except.error.inj h)) fun info h => by cases h
      | ok info =>
        rw [Except.bind]
        by_cases hflag : info.header.compressFlg = '1' ∨ info.header.compressFlg = '2'
        · rw [if_pos hflag, ne_eq, deliver_eq_undefined_iff,
            payload_eq_overrun_iff length_part_le length_le_of_mem_parts, not_or]
          constructor
          · rintro ⟨hroom, hwritten⟩ info' hinfo' -
            obtain rfl := Except.ok.inj hinfo'
            refine ⟨hroom, fun bytes hbytes htwo => Nat.not_lt.mp fun hlt => hwritten ⟨bytes, hbytes, ?_, hlt⟩⟩
            rw [htwo]
            decide
          · intro h
            obtain ⟨hroom, hwritten⟩ := h info rfl hflag
            refine ⟨hroom, ?_⟩
            rintro ⟨bytes, hbytes, hne, hlt⟩
            exact absurd hlt (Nat.not_lt.mpr (hwritten bytes hbytes (hflag.resolve_left hne)))
        · rw [if_neg hflag]
          refine iff_of_true (fun h => by cases h) fun info' hinfo' hflag' => ?_
          obtain rfl := Except.ok.inj hinfo'
          exact absurd hflag' hflag

end Bounded

end RecvUsingHeader

end IS

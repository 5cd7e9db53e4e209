import Dm20.Transfer.ReceptionBounds

open Assembly

namespace IS

open StringUtil

namespace RecvUsingHeader

/-- A datagram of no more than `IPv4_UDP_MAX_BYTE` bytes, or the header of a compressed message and
parts that make up the same payload where they are cut to this size. -/
def Uncut : List (Option Datagram) → Prop
  | [] => True
  | datagram :: rest => ∀ info, getIsHeader (filled room (part room datagram)) {} = .ok info →
    if info.header.compressFlg = '1' ∨ info.header.compressFlg = '2' then
      payload (expected info) (part room datagram) (rest.map (part room)) =
        payload (expected info) (part IPv4_UDP_MAX_BYTE datagram) (rest.map (part IPv4_UDP_MAX_BYTE))
    else (part room datagram).length ≤ IPv4_UDP_MAX_BYTE

section Cut

variable {datagram : Option Datagram}

private theorem take_filled {n size : Nat} (h : n ≤ size) (bytes : Str) :
    (filled size bytes).take n = bytes.take n ++ zeros (n - bytes.length) := by
  have hzeros : (zeros (size - bytes.length)).take (n - bytes.length) = zeros (n - bytes.length) := by
    rw [zeros, List.take_replicate, zeros]
    congr 1
    omega
  rw [filled, List.take_append, hzeros]

private theorem part_cut : part IPv4_UDP_MAX_BYTE datagram = (part room datagram).take IPv4_UDP_MAX_BYTE := by
  cases datagram with
  | none => rfl
  | some datagram =>
    rw [part, part, List.take_take]
    rfl

/-- Both copies read the same header. -/
theorem getIsHeader_cut : getIsHeader (filled IPv4_UDP_MAX_BYTE (part IPv4_UDP_MAX_BYTE datagram)) {} =
    getIsHeader (filled room (part room datagram)) {} := by
  have hroom : 100 ≤ room := by decide
  have hmax : 100 ≤ IPv4_UDP_MAX_BYTE := by decide
  refine getIsHeader_congr ?_ (le_length_filled hmax _) (le_length_filled hroom _) {}
  have hlength : 100 - ((part room datagram).take IPv4_UDP_MAX_BYTE).length = 100 - (part room datagram).length := by
    rw [List.length_take]
    omega
  rw [take_filled hmax, take_filled hroom, part_cut, hlength, List.take_take, min_eq_left hmax]

end Cut

/-- Libraries that copy what they are given. -/
def copying : Unpacking where
  ZSTD_compress _ := none
  ZSTD_getDecompressedSize _ srcSize := srcSize
  ZSTD_decompress dstCapacity src srcSize := (src.take (min dstCapacity srcSize), srcSize)
  ZSTD_decompress_le _ _ _ := (List.length_take_le _ _).trans (min_le_left _ _)
  inflate inBuf avail_in avail_out := (inBuf.take (min avail_in avail_out), true)
  inflate_le _ _ _ := (List.length_take_le _ _).trans (min_le_right _ _)

/-- A library that copies its input gives back what it was given. -/
theorem copying_inverts : copying.Inverts where
  size _ _ _ h := by cases h
  decompress _ _ _ h := by cases h

section Copying

variable {flag : Char} {total : Int} {bytes : Str}

/-- What is copied can be told from what is not, and from anything else that is copied. -/
theorem exists_unpack_copying (hflag : flag = '1' → total = COMPRESSED_BUF_SIZE) (hne : bytes ≠ [])
    (hroom : bytes.length ≤ room) (htotal : bytes.length = total) :
    ∃ len, 0 ≤ len ∧ unpack copying flag total bytes = .ok (len, filled room bytes) := by
  have hpos : 0 < bytes.length := List.length_pos_iff.mpr hne
  by_cases hone : flag = '1'
  · subst hone
    have hlength : COMPRESSED_BUF_SIZE = bytes.length := by
      have htotal' := hflag rfl
      omega
    have hwritten : (copying.inflate (filled room bytes) COMPRESSED_BUF_SIZE UNCOMPRESSED_BUF_SIZE).1 = bytes := by
      change (filled room bytes).take (min COMPRESSED_BUF_SIZE UNCOMPRESSED_BUF_SIZE) = bytes
      rw [min_eq_left (by decide), hlength, filled, List.take_left]
    rw [unpack_one, hwritten]
    exact ⟨_, Int.natCast_nonneg _, rfl⟩
  · have hsize : copying.ZSTD_getDecompressedSize (filled room bytes) (size_t total) = bytes.length := by
      rw [← htotal, size_t_natCast hroom]
      rfl
    have hwritten : zstdWritten copying total bytes = bytes := by
      rw [zstdWritten, hsize, if_neg hpos.ne', ← htotal, size_t_natCast hroom]
      change (filled room bytes).take (min bytes.length bytes.length) = bytes
      rw [min_self, filled, List.take_left]
    have hanswer : (copying.ZSTD_decompress bytes.length (filled room bytes) (size_t total)).2 = bytes.length := by
      rw [← htotal, size_t_natCast hroom]
      rfl
    rw [unpack_of_ne hone, hsize, if_neg hpos.ne', hwritten, if_neg (Nat.not_lt.mpr hroom), hanswer, if_pos rfl,
      bmod_natCast hroom]
    exact ⟨_, Int.natCast_nonneg _, rfl⟩

/-- A payload that was put together. -/
def Made (total : Int) (progress : Progress Char) : Prop :=
  ∀ bytes, progress = .complete bytes → bytes ≠ [] ∧ bytes.length ≤ room ∧ (bytes.length : Int) = total

private theorem made_payload {first : Str} {parts : List Str} (hfirst : ¬ first.length ≤ 17)
    (hroom : first.length ≤ room)
    (hparts : ∀ part ∈ parts, part.length ≤ room) : Made total (payload total first parts) := by
  intro bytes h
  rw [payload, if_neg hfirst] at h
  refine of_assemble_eq_complete (List.forall_mem_cons.mpr ⟨?_, hparts⟩) h
  rw [List.length_drop]
  omega

/-- How far the parts have led, as it can be told from what is handed on of a copy. -/
def told (total : Int) : Except Failure (Option (Int × Str)) → Progress Char
  | .error _ => .overrun
  | .ok none => .waiting
  | .ok (some (len, outBuf)) => if len < 0 then .failed else .complete (outBuf.take total.toNat)

/-- The progress of the copy can be told from what a library that copies delivers. -/
private theorem told_deliver {progress : Progress Char} (hflag : flag = '1' → total = COMPRESSED_BUF_SIZE)
    (hmade : Made total progress) : told total (deliver copying flag total progress) = progress := by
  cases progress with
  | waiting => rfl
  | failed => rfl
  | overrun => rfl
  | complete bytes =>
    obtain ⟨hne, hroom, htotal⟩ := hmade bytes rfl
    obtain ⟨len, hlen, hok⟩ := exists_unpack_copying hflag hne hroom htotal
    rw [deliver, hok]
    change (if len < 0 then Progress.failed else .complete ((filled room bytes).take total.toNat)) = _
    rw [if_neg (not_lt.mpr hlen), ← htotal, Int.toNat_natCast, filled, List.take_left]

end Copying

private theorem expected_of_one {info : IsHeaderInfo} (h : info.header.compressFlg = '1') :
    expected info = COMPRESSED_BUF_SIZE := by
  rw [expected, if_pos h]
  rfl

/-- Cutting a text to a length changes what is plain of it exactly if it is longer. -/
private theorem plain_eq_iff {flag : Char} {bytes : Str} {n : Nat} :
    plain flag bytes = plain flag (bytes.take n) ↔ bytes.length ≤ n := by
  constructor
  · intro h
    have hlength : (bytes.length : Int) = (bytes.take n).length := by
      rw [plain, plain] at h
      split at h
      · have hpred : (bytes.length : Int) - 1 = (bytes.take n).length - 1 := congrArg Prod.fst h
        omega
      · exact congrArg Prod.fst h
    rw [List.length_take] at hlength
    omega
  · intro h
    rw [List.take_of_length_le h]

/-- The room for a datagram makes no difference to what is delivered exactly if it makes none to
the payload that is copied. -/
private theorem payload_eq_iff {P : Unpacking → Prop} (hcopying : P copying) {info : IsHeaderInfo}
    {datagram : Option Datagram} {rest : List (Option Datagram)} :
    (∀ library, P library → deliver library info.header.compressFlg (expected info)
        (payload (expected info) (part room datagram) (rest.map (part room))) =
      deliver library info.header.compressFlg (expected info)
        (payload (expected info) (part IPv4_UDP_MAX_BYTE datagram) (rest.map (part IPv4_UDP_MAX_BYTE)))) ↔
      payload (expected info) (part room datagram) (rest.map (part room)) =
        payload (expected info) (part IPv4_UDP_MAX_BYTE datagram) (rest.map (part IPv4_UDP_MAX_BYTE)) := by
  constructor
  · intro h
    have hmax : 17 ≤ IPv4_UDP_MAX_BYTE := by decide
    by_cases hshort : (part room datagram).length ≤ 17
    · rw [part_cut, List.take_of_length_le (hshort.trans hmax), payload, payload, if_pos hshort, if_pos hshort]
    · have hcut : ¬ (part IPv4_UDP_MAX_BYTE datagram).length ≤ 17 := by
        rw [part_cut, List.length_take]
        rw [IPv4_UDP_MAX_BYTE]
        omega
      have htold := congrArg (told (expected info)) (h copying hcopying)
      rw [told_deliver expected_of_one (made_payload hshort length_part_le length_le_of_mem_parts),
        told_deliver expected_of_one (made_payload hcut length_part_le length_le_of_mem_parts)] at htold
      exact htold
  · intro h library _
    rw [h]

/-- Both copies do the same with all libraries of a kind, just where no cut changes what comes. -/
theorem received_eq_iff {P : Unpacking → Prop} (hcopying : P copying) (datagrams : List (Option Datagram)) :
    (∀ library, P library → received library room datagrams = received library IPv4_UDP_MAX_BYTE datagrams) ↔
      Uncut datagrams := by
  cases datagrams with
  | nil => exact iff_of_true (fun library _ => rfl) trivial
  | cons datagram rest =>
    simp only [received, Uncut, getIsHeader_cut]
    by_cases hpart : part room datagram = []
    · have hcut : part IPv4_UDP_MAX_BYTE datagram = [] := by rw [part_cut, hpart, List.take_nil]
      simp only [if_pos hpart, if_pos hcut, implies_true, true_iff]
      intro info hinfo
      rw [hpart] at hinfo ⊢
      rw [if_neg (not_compressed_of_nil hinfo)]
      exact Nat.zero_le _
    · have hcut : part IPv4_UDP_MAX_BYTE datagram ≠ [] := by
        have hpos := List.length_pos_iff.mpr hpart
        rw [part_cut, ← List.length_pos_iff, List.length_take, IPv4_UDP_MAX_BYTE]
        omega
      simp only [if_neg hpart, if_neg hcut]
      cases hinfo : getIsHeader (filled room (part room datagram)) {} with
      | error e =>
        simp only [Except.bind, implies_true, true_iff]
        exact fun info h => by cases h
      | ok info =>
        simp only [Except.bind, Except.ok.injEq, forall_eq']
        by_cases hflag : info.header.compressFlg = '1' ∨ info.header.compressFlg = '2'
        · simp only [if_pos hflag]
          exact payload_eq_iff hcopying
        · simp only [if_neg hflag, Except.ok.injEq, Option.some.injEq, part_cut, plain_eq_iff]
          exact ⟨fun h => h copying hcopying, fun h _ _ => h⟩

end RecvUsingHeader

end IS

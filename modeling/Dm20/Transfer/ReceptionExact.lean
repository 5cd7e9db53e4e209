import Dm20.Transfer.ReceptionCopies

open Assembly

namespace IS

open StringUtil

/-- A text compressed with zstd, in a header and parts that are not empty, each within a datagram. -/
structure CompressedMessage (library : Unpacking) where
  text : Str
  frame : Str
  compressed : library.ZSTD_compress text = some frame
  length_frame : frame.length ≤ RecvUsingHeader.room
  key : Int64
  seq : Int32
  first : Str
  first_ne : first ≠ []
  length_first : 17 + first.length ≤ 65507
  others : List Datagram
  others_ne : ∀ other ∈ others, other.bytes ≠ []
  division : first ++ (others.map Datagram.bytes).flatten = frame

namespace CompressedMessage

open RecvUsingHeader

variable {library : Unpacking}

def header (m : CompressedMessage library) : IsHeader where
  compressFlg := '2'
  length := Int32.ofNat m.frame.length
  key := m.key
  seq := m.seq

def firstDatagram (m : CompressedMessage library) : Datagram where
  bytes := m.header.bytes ++ m.first
  length_le := by
    rw [List.length_append, length_bytes]
    exact m.length_first

def datagrams (m : CompressedMessage library) : List (Option Datagram) :=
  some m.firstDatagram :: m.others.map some

/-- The text with its length comes out of both copies, whatever comes behind the message. -/
def Exact (m : CompressedMessage library) : Prop :=
  ∀ rest, Connection.recvUsingHeader library (m.datagrams ++ rest) =
      .ok (some (m.text.length, filled room m.text)) ∧
    NetworkSource.recvUsingHeader library (m.datagrams ++ rest) = .ok (some (m.text.length, filled room m.text))

/-- No datagram of the message is cut. -/
def Whole (m : CompressedMessage library) (sizeof_bufTmp : Nat) : Prop :=
  17 + m.first.length ≤ sizeof_bufTmp ∧ ∀ other ∈ m.others, other.bytes.length ≤ sizeof_bufTmp

/-- The text is not empty and has room, and no datagram is larger than `IPv4_UDP_MAX_BYTE`. -/
structure Fits (m : CompressedMessage library) : Prop where
  text_ne : m.text ≠ []
  length_text : m.text.length ≤ room
  whole : m.Whole IPv4_UDP_MAX_BYTE

section Receive

variable {m : CompressedMessage library} {sizeof_bufTmp : Nat}

private theorem length_frame_lt (m : CompressedMessage library) : m.frame.length < 2 ^ 31 :=
  m.length_frame.trans_lt (by decide)

/-- The header that is read, and the size in it. -/
theorem exists_getIsHeader (m : CompressedMessage library) (behind : Str) :
    ∃ info, getIsHeader (m.header.bytes ++ behind) {} = .ok info ∧ info.header.compressFlg = '2' ∧
      expected info = m.frame.length := by
  refine ⟨_, getIsHeader_bytes (.inr rfl) behind {}, rfl, ?_⟩
  exact Int32.toInt_ofNat_of_lt m.length_frame_lt

/-- The parts behind the header, as far as they are taken. -/
def parts (m : CompressedMessage library) (sizeof_bufTmp : Nat) : List Str :=
  m.first.take (sizeof_bufTmp - 17) :: m.others.map fun other => other.bytes.take sizeof_bufTmp

/-- What is received of the datagrams of a message is what its parts make up. -/
theorem received_datagrams (hsize : 17 < sizeof_bufTmp) (rest : List (Option Datagram)) :
    received library sizeof_bufTmp (m.datagrams ++ rest) = deliver library '2' m.frame.length
      (assemble room m.frame.length [] (m.parts sizeof_bufTmp ++ rest.map (part sizeof_bufTmp))) := by
  have hheader := length_bytes m.header
  have hfirst : part sizeof_bufTmp (some m.firstDatagram) = m.header.bytes ++ m.first.take (sizeof_bufTmp - 17) := by
    rw [part, firstDatagram, List.take_append, hheader, List.take_of_length_le (by omega)]
  have hpos : 0 < m.first.length := List.length_pos_iff.mpr m.first_ne
  have hlength : 17 < (m.header.bytes ++ m.first.take (sizeof_bufTmp - 17)).length := by
    rw [List.length_append, hheader, List.length_take]
    omega
  have hdrop : (m.header.bytes ++ m.first.take (sizeof_bufTmp - 17)).drop 17 = m.first.take (sizeof_bufTmp - 17) := by
    rw [← hheader, List.drop_left]
  obtain ⟨info, hinfo, hflag, hexpected⟩ := m.exists_getIsHeader
    (m.first.take (sizeof_bufTmp - 17) ++
      zeros (sizeof_bufTmp - (m.header.bytes ++ m.first.take (sizeof_bufTmp - 17)).length))
  rw [datagrams, List.cons_append, received, hfirst, if_neg (List.ne_nil_of_length_pos (by omega)), filled,
    List.append_assoc, hinfo, Except.bind, if_pos (.inr hflag), hflag, hexpected, payload, if_neg (Nat.not_le.mpr hlength), hdrop, parts, List.cons_append,
    List.map_append, List.map_map]
  rfl

private theorem parts_ne (hsize : 17 < sizeof_bufTmp) : ∀ bytes ∈ m.parts sizeof_bufTmp, bytes ≠ [] := by
  have htake : ∀ {bytes : Str} {n : Nat}, bytes ≠ [] → 0 < n → bytes.take n ≠ [] := by
    intro bytes n hne hn htake
    rcases List.take_eq_nil_iff.mp htake with h | h
    · omega
    · exact hne h
  refine List.forall_mem_cons.mpr ⟨htake m.first_ne (by omega), List.forall_mem_map.mpr fun other hother => ?_⟩
  exact htake (m.others_ne other hother) (by omega)

/-- The parts are those of the division where none is cut, and else there are fewer bytes. -/
theorem flatten_parts (hwhole : m.Whole sizeof_bufTmp) : (m.parts sizeof_bufTmp).flatten = m.frame := by
  have hothers : (m.others.map fun other => other.bytes.take sizeof_bufTmp) = m.others.map Datagram.bytes :=
    List.map_congr_left fun other hother => List.take_of_length_le (hwhole.2 other hother)
  have hfirst := hwhole.1
  rw [parts, List.flatten_cons, hothers, List.take_of_length_le (by omega), m.division]

private theorem length_flatten_take_le (others : List Datagram) (n : Nat) :
    (others.map fun other => other.bytes.take n).flatten.length ≤ (others.map Datagram.bytes).flatten.length := by
  induction others with
  | nil => exact Nat.le_refl _
  | cons other others ih =>
    rw [List.map_cons, List.map_cons, List.flatten_cons, List.flatten_cons, List.length_append, List.length_append,
      List.length_take]
    omega

/-- Cutting the datagrams to a length loses bytes if one of them is longer. -/
private theorem length_flatten_take_lt {others : List Datagram} {other : Datagram} {n : Nat} (h : other ∈ others)
    (hlong : n < other.bytes.length) :
    (others.map fun other => other.bytes.take n).flatten.length < (others.map Datagram.bytes).flatten.length := by
  induction others with
  | nil => exact absurd h List.not_mem_nil
  | cons next others ih =>
    have hle := length_flatten_take_le others n
    rw [List.map_cons, List.map_cons, List.flatten_cons, List.flatten_cons, List.length_append, List.length_append,
      List.length_take]
    rcases List.mem_cons.mp h with rfl | h
    · omega
    · have hlt := ih h
      omega

/-- The parts of a message that is not whole are shorter than its frame. -/
private theorem length_flatten_parts_lt (hsize : 17 ≤ sizeof_bufTmp) (hwhole : ¬ m.Whole sizeof_bufTmp) :
    (m.parts sizeof_bufTmp).flatten.length < m.frame.length := by
  have hle := length_flatten_take_le m.others sizeof_bufTmp
  rw [parts, ← m.division, List.flatten_cons, List.length_append, List.length_append, List.length_take]
  by_cases hfirst : 17 + m.first.length ≤ sizeof_bufTmp
  · obtain ⟨other, hother, hlong⟩ : ∃ other ∈ m.others, ¬ other.bytes.length ≤ sizeof_bufTmp := by
      by_contra hnone
      refine hwhole ⟨hfirst, fun other hother => ?_⟩
      by_contra hlong
      exact hnone ⟨other, hother, hlong⟩
    have hlt := length_flatten_take_lt hother (Nat.lt_of_not_le hlong)
    omega
  · omega

/-- The parts that are not cut make up the compressed text. -/
theorem received_of_whole (hsize : 17 < sizeof_bufTmp) (hwhole : m.Whole sizeof_bufTmp)
    (rest : List (Option Datagram)) : received library sizeof_bufTmp (m.datagrams ++ rest) =
      (unpack library '2' m.frame.length m.frame).map some := by
  have hflatten := m.flatten_parts hwhole
  have htotal : ((([] : Str) ++ (m.parts sizeof_bufTmp).flatten).length : Int) = m.frame.length := by
    rw [List.nil_append, hflatten]
  have hroom : (m.frame.length : Int) ≤ room := Int.ofNat_le.mpr m.length_frame
  have hne : m.parts sizeof_bufTmp ≠ [] := List.cons_ne_nil _ _
  have hcomplete := assemble_eq_complete hne (m.parts_ne hsize) htotal hroom
    (rest.map (part sizeof_bufTmp))
  rw [received_datagrams hsize, hcomplete, List.nil_append, hflatten, deliver]

/-- Cut parts are too few. -/
theorem received_of_not_whole (hsize : 17 < sizeof_bufTmp) (hwhole : ¬ m.Whole sizeof_bufTmp) :
    received library sizeof_bufTmp m.datagrams = .ok none := by
  have hless := length_flatten_parts_lt hsize.le hwhole
  have htotal : ((([] : Str) ++ (m.parts sizeof_bufTmp).flatten).length : Int) < m.frame.length := by
    rw [List.nil_append]
    omega
  have hroom : (m.frame.length : Int) ≤ room := Int.ofNat_le.mpr m.length_frame
  have hwaiting := assemble_eq_waiting (m.parts_ne hsize) htotal hroom
  have hreceived := received_datagrams (m := m) hsize []
  rw [List.append_nil, List.map_nil, List.append_nil, hwaiting] at hreceived
  exact hreceived

/-- What is unpacked of a compressed text. -/
theorem unpack_frame (hinverts : library.Inverts) (m : CompressedMessage library) :
    unpack library '2' m.frame.length m.frame =
      if m.text.length = 0 then .ok (-1, callerBuf)
      else if room < m.text.length then .error .undefined
      else .ok (m.text.length, filled room m.text) := by
  have hsize : library.ZSTD_getDecompressedSize (filled room m.frame) (size_t m.frame.length) = m.text.length := by
    rw [size_t_natCast m.length_frame]
    exact hinverts.size m.text m.frame _ m.compressed
  have hdecompress : library.ZSTD_decompress m.text.length (filled room m.frame) (size_t m.frame.length) =
      (m.text, m.text.length) := by
    rw [size_t_natCast m.length_frame]
    exact hinverts.decompress m.text m.frame _ m.compressed
  rw [unpack_of_ne (by decide), zstdWritten, hsize, hdecompress]
  split
  · rfl
  · split
    · rfl
    · next hroom => rw [if_pos rfl, bmod_natCast (Nat.not_lt.mp hroom)]

end Receive

/-- A message is exact in both copies just where it fits. -/
theorem exact_iff (hinverts : library.Inverts) (m : CompressedMessage library) : m.Exact ↔ m.Fits := by
  have hroom : 17 < room := by decide
  have hmax : 17 < IPv4_UDP_MAX_BYTE := by decide
  have hwhole : m.Whole room := by
    have hle : 65507 ≤ room := by decide
    exact ⟨m.length_first.trans hle, fun other _ => other.length_le.trans hle⟩
  constructor
  · intro h
    obtain ⟨hconnection, hsource⟩ := h []
    rw [Connection.recvUsingHeader, recvUsingHeaderWith_eq, ← room, received_of_whole hroom hwhole,
      unpack_frame hinverts] at hconnection
    rw [NetworkSource.recvUsingHeader, recvUsingHeaderWith_eq] at hsource
    have hcut : m.Whole IPv4_UDP_MAX_BYTE := by
      by_contra hcut
      rw [List.append_nil, received_of_not_whole hmax hcut] at hsource
      cases hsource
    split at hconnection
    · next htext =>
      have hminus : (-1 : Int) = m.text.length := congrArg Prod.fst (Option.some.inj (Except.ok.inj hconnection))
      omega
    · next htext =>
      split at hconnection
      · cases hconnection
      · next hlength =>
        exact ⟨fun hnil => htext (List.length_eq_zero_iff.mpr hnil), Nat.not_lt.mp hlength, hcut⟩
  · intro h rest
    have htext : m.text.length ≠ 0 := fun hzero => h.text_ne (List.length_eq_zero_iff.mp hzero)
    have hunpack : unpack library '2' m.frame.length m.frame = .ok (m.text.length, filled room m.text) := by
      rw [unpack_frame hinverts, if_neg htext, if_neg (Nat.not_lt.mpr h.length_text)]
    constructor
    · rw [Connection.recvUsingHeader, recvUsingHeaderWith_eq, ← room, received_of_whole hroom hwhole, hunpack]
      rfl
    · rw [NetworkSource.recvUsingHeader, recvUsingHeaderWith_eq, received_of_whole hmax h.whole, hunpack]
      rfl

end CompressedMessage

namespace RecvUsingHeader

/-- No byte is written outside the buffers of either copy. -/
def Safe (library : Unpacking) (datagrams : List (Option Datagram)) : Prop :=
  Connection.recvUsingHeader library datagrams ≠ .error .undefined ∧
    NetworkSource.recvUsingHeader library datagrams ≠ .error .undefined

/-- Both copies give the same result, whatever decompression does beyond inverting compression. -/
def Alike (datagrams : List (Option Datagram)) : Prop :=
  ∀ library : Unpacking, library.Inverts →
    Connection.recvUsingHeader library datagrams = NetworkSource.recvUsingHeader library datagrams

/-- A message is exact where it fits, what comes is kept in the buffers where it is bounded for
both of them, and both copies agree where no cut changes the payload. -/
theorem recvUsingHeader_iff (library : Unpacking) (hinverts : library.Inverts) :
    (∀ m : CompressedMessage library, m.Exact ↔ m.Fits) ∧
      (∀ datagrams, Safe library datagrams ↔
        Bounded library room datagrams ∧ Bounded library IPv4_UDP_MAX_BYTE datagrams) ∧
      ∀ datagrams, Alike datagrams ↔ Uncut datagrams := by
  have hroom : 100 ≤ room := by decide
  have hmax : 100 ≤ IPv4_UDP_MAX_BYTE := by decide
  refine ⟨fun m => m.exact_iff hinverts, fun datagrams => ?_, fun datagrams => ?_⟩
  · rw [Safe, Connection.recvUsingHeader, NetworkSource.recvUsingHeader, recvUsingHeaderWith_eq, recvUsingHeaderWith_eq,
      ← received_ne_undefined_iff hroom, ← received_ne_undefined_iff hmax]
    rfl
  · rw [← received_eq_iff copying_inverts]
    refine forall_congr' fun library => imp_congr_right fun _ => ?_
    rw [Connection.recvUsingHeader, NetworkSource.recvUsingHeader, recvUsingHeaderWith_eq, recvUsingHeaderWith_eq, room]

/-- What zstd makes of the text `a`. -/
def letterFrame : Str :=
  [40, 181, 47, 253, 32, 1, 9, 0, 0, 97].map Bytes.toChar

/-- What the libraries do with one text. -/
def letterLibrary : Unpacking where
  ZSTD_compress text := if text = ['a'] then some letterFrame else none
  ZSTD_getDecompressedSize src srcSize := if src.take srcSize = letterFrame then 1 else 0
  ZSTD_decompress dstCapacity src srcSize :=
    if src.take srcSize = letterFrame ∧ 1 ≤ dstCapacity then (['a'], 1) else ([], 2 ^ 64 - 10)
  ZSTD_decompress_le dstCapacity src srcSize := by
    split
    · next h => exact h.2
    · exact Nat.zero_le _
  inflate _ _ _ := ([], false)
  inflate_le _ _ _ := Nat.zero_le _

/-- What this library compresses it decompresses again. -/
private theorem letterLibrary_inverts : letterLibrary.Inverts where
  size text frame rest h := by
    obtain ⟨rfl, hframe⟩ := Option.ite_none_right_eq_some.mp h
    obtain rfl := Option.some.inj hframe
    have htake : (letterFrame ++ rest).take letterFrame.length = letterFrame := List.take_left ..
    change (if (letterFrame ++ rest).take letterFrame.length = letterFrame then 1 else 0) = 1
    rw [if_pos htake]
  decompress text frame rest h := by
    obtain ⟨rfl, hframe⟩ := Option.ite_none_right_eq_some.mp h
    obtain rfl := Option.some.inj hframe
    have htake : (letterFrame ++ rest).take letterFrame.length = letterFrame := List.take_left ..
    change (if (letterFrame ++ rest).take letterFrame.length = letterFrame ∧ 1 ≤ 1 then (['a'], 1)
      else ([], 2 ^ 64 - 10)) = (['a'], 1)
    rw [if_pos ⟨htake, Nat.le_refl _⟩]

/-- The text `a` in two datagrams. -/
def letterMessage : CompressedMessage letterLibrary where
  text := ['a']
  frame := letterFrame
  compressed := rfl
  length_frame := by decide
  key := 7
  seq := 0
  first := letterFrame.take 4
  first_ne := by decide
  length_first := by decide
  others := [⟨letterFrame.drop 4, by decide⟩]
  others_ne := by decide
  division := by decide

/-- A message of one letter, whose numbers fit the header. -/
theorem recvUsingHeader_iff_letter : letterMessage.Exact := by
  refine ((recvUsingHeader_iff letterLibrary letterLibrary_inverts).1 letterMessage).mpr ⟨?_, ?_, ?_, ?_⟩
  · decide
  · decide
  · decide
  · decide

/-- The header of a message that is said to have 700000 bytes. -/
def longHeader : IsHeader where
  compressFlg := '2'
  length := 700000
  key := 7
  seq := 0

def longPart : Str :=
  List.replicate 60000 'a'

private theorem length_longPart : longPart.length = 60000 :=
  List.length_replicate

def longFirst : Datagram where
  bytes := longHeader.bytes ++ longPart
  length_le := by
    rw [List.length_append, length_bytes, length_longPart]
    decide

def longOther : Datagram where
  bytes := longPart
  length_le := by
    rw [length_longPart]
    decide

/-- Parts of 660000 bytes. -/
def longDatagrams : List (Option Datagram) :=
  some longFirst :: List.replicate 10 (some longOther)

/-- With datagrams that are longer than the room the condition on the sizes fails. -/
private theorem longDatagrams_not_bounded : ¬ Bounded letterLibrary room longDatagrams := by
  have hwhole : ∀ datagram : Datagram, part room (some datagram) = datagram.bytes := by
    intro datagram
    have hle : datagram.bytes.length ≤ room := datagram.length_le.trans (by decide)
    exact List.take_of_length_le hle
  have hinfo : getIsHeader (filled room (part room (some longFirst))) {} =
      .ok { header := { longHeader with schema_name := [] }, headerSize := 17 } := by
    rw [hwhole, filled, longFirst, List.append_assoc]
    exact getIsHeader_bytes (.inr rfl) _ {}
  have hparts : (part room (some longFirst)).drop 17 :: (List.replicate 10 (some longOther)).map (part room) =
      List.replicate 11 longPart := by
    have hdrop : (longHeader.bytes ++ longPart).drop 17 = longPart := by
      rw [← length_bytes longHeader, List.drop_left]
    rw [List.map_replicate, hwhole, hwhole, longFirst, hdrop, longOther, ← List.replicate_succ]
  have hne : longPart ≠ [] := List.ne_nil_of_length_pos (by rw [length_longPart]; decide)
  have hlength : (List.replicate 11 longPart).flatten.length = 660000 := by
    rw [List.length_flatten, List.map_replicate, length_longPart]
    decide
  intro h
  obtain ⟨hnot, -⟩ := h _ hinfo (.inr rfl)
  rw [hparts] at hnot
  refine hnot ⟨11, ?_, ?_, ?_⟩
  · rw [List.take_of_length_le (List.length_replicate.le)]
    intro bytes hbytes
    rw [List.eq_of_mem_replicate hbytes]
    exact hne
  · rw [List.take_of_length_le (List.length_replicate.le), hlength]
    decide
  · rw [List.take_of_length_le (List.length_replicate.le), hlength]
    decide

/-- The parts of a message that is said to be longer than the buffer are written behind it. -/
theorem longDatagrams_not_safe : ¬ ∀ library : Unpacking, library.Inverts →
    (∀ m : CompressedMessage library, m.Exact) ∧ ∀ datagrams, Safe library datagrams ∧ Alike datagrams := by
  intro h
  have hroom : 100 ≤ room := by decide
  obtain ⟨hsafe, -⟩ := (h letterLibrary letterLibrary_inverts).2 longDatagrams
  have hconnection := hsafe.1
  rw [Connection.recvUsingHeader, recvUsingHeaderWith_eq, ← room, received_ne_undefined_iff hroom] at hconnection
  exact longDatagrams_not_bounded hconnection

end RecvUsingHeader

end IS

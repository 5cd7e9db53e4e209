import Dm20.Protobuf.Codec

namespace IS

open ProtobufParser

/-- A pointer into the buffer of a text, taken after the given number of assignments
to it. Each assignment may replace the buffer. -/
structure CharPointer where
  assignment : Nat
  pos : Nat
deriving DecidableEq

/-- The text from a pointer to the next zero byte. -/
def CharPointer.toText (p : CharPointer) (text : Str) (assignments : Nat) : Except Failure Str :=
  if p.assignment = assignments ∧ p.pos ≤ text.length then .ok ((text.drop p.pos).takeWhile (· != '\x00'))
  else .error .undefined

namespace Connection

/-- The size of the buffer of a read. -/
def BUF_MAX : Nat := 4096

/-- What a read from the socket ends with. -/
inductive Received where
  | failed
  | data (buffer : Str)
deriving DecidableEq

/-- The exceptions that reach the caller. -/
inductive ExecuteFailure where
  | connectionTimeout
  | sqlException (receiveData : Str)
  | failure (e : Failure)
deriving DecidableEq

structure ReceiveState where
  bufStr : Str := []
  assignments : Nat := 0
  receiveData : Str := []
  sumLen : Int := 0
  bufSize : Int := 0
  headerInfo : ProtobufHeaderInfo := {}
  payload_p : Option CharPointer := none
deriving DecidableEq

/-- The header of the first read tells how long the answer is. An answer without a
header is one read. -/
def readHeader (s : ReceiveState) : Except Failure ReceiveState := do
  let headerInfo ← getProtobufHeaderInfo s.bufStr
  if headerInfo.headerSize ≠ 0 then
    let bufSize ← int (headerInfo.headerSize.toInt + headerInfo.header.payload_size.toInt)
    let payload_p := some ⟨s.assignments, headerInfo.headerSize.toInt.toNat⟩
    pure { s with headerInfo, bufSize, payload_p }
  else
    let bufSize ← int s.bufStr.length
    pure { s with headerInfo, bufSize }

def receiveData (s : ReceiveState) (buffer : Str) : Except Failure ReceiveState := do
  let s := { s with bufStr := buffer, assignments := s.assignments + 1 }
  let s ← (if s.receiveData.length = 0 then readHeader s else .ok s)
  let sumLen ← int (s.sumLen + buffer.length)
  pure { s with receiveData := s.receiveData ++ buffer, sumLen }

/-- The loop that receives an answer, with the reads that are left behind it. It
waits where there are no more. A read without data is repeated. -/
def receive : ReceiveState → List Received → Except ExecuteFailure (Option (ReceiveState × List Received))
  | _, [] => .ok none
  | _, .failed :: _ => .error .connectionTimeout
  | s, .data buffer :: reads =>
    if buffer.length = 0 then receive s reads
    else
      match receiveData s buffer with
      | .ok s' => if s'.sumLen = s'.bufSize then .ok (some (s', reads)) else receive s' reads
      | .error e => .error (.failure e)

/-- The text that is handed to `DeserializeToTupleDynamically`. -/
def payload (s : ReceiveState) : Except ExecuteFailure Str :=
  if s.headerInfo.headerSize = 0 ∨ s.headerInfo.header.flag ≠ '3' then .error (.sqlException s.receiveData)
  else
    match s.payload_p with
    | some payload_p => (payload_p.toText s.bufStr s.assignments).mapError .failure
    | none => .error (.failure .undefined)

/-- The payload of the answer, with the reads that are left. -/
def execute (reads : List Received) : Except ExecuteFailure (Option (Str × List Received)) :=
  match receive {} reads with
  | .ok none => .ok none
  | .ok (some (s, reads)) => (payload s).map fun serializedStr => some (serializedStr, reads)
  | .error e => .error e

/-- The answer to a query. Two digits are enough for the length of the table name. -/
structure QueryResult where
  mngId : UInt32
  tableName : Str
  payload : Str
  length_tableName : tableName.length ≤ 99

namespace QueryResult

def header (result : QueryResult) : Str :=
  createHeader result.mngId result.tableName result.payload 0 1 []

def text (result : QueryResult) : Str :=
  result.header ++ result.payload

end QueryResult

/-- A division of a text into reads. -/
structure Division (text : Str) where
  reads : List Str
  nonempty : ∀ buffer ∈ reads, 0 < buffer.length
  fits : ∀ buffer ∈ reads, buffer.length ≤ BUF_MAX
  flatten_eq : reads.flatten = text

/-- The loop ends with the last read of the answer, and the whole payload is handed on. -/
def Delivered (result : QueryResult) (division : Division result.text) : Prop :=
  execute (division.reads.map .data) = .ok (some (result.payload, []))

section Pointer

variable {s s' : ReceiveState} {buffer : Str}

/-- The pointer to the payload was taken after the first read. -/
structure FirstRead (s : ReceiveState) : Prop where
  first : s.receiveData = [] → s.assignments = 0 ∧ s.payload_p = none
  pointer : ∀ p ∈ s.payload_p, p.assignment = 1

/-- Reading a header leaves what has been received as it is. The payload that is set is the one
behind the header. -/
private theorem readHeader_spec (h : readHeader s = .ok s') :
    s'.assignments = s.assignments ∧ s'.receiveData = s.receiveData ∧ s'.sumLen = s.sumLen ∧ s'.bufStr = s.bufStr ∧
      ∀ p ∈ s'.payload_p, p ∈ s.payload_p ∨ p.assignment = s.assignments := by
  rw [readHeader, Except.bind_eq_ok_iff] at h
  obtain ⟨headerInfo, -, h⟩ := h
  split at h
  · rw [Except.bind_eq_ok_iff] at h
    obtain ⟨bufSize, -, h⟩ := h
    obtain rfl := Except.ok.inj h
    refine ⟨rfl, rfl, rfl, rfl, fun p hp => .inr ?_⟩
    obtain rfl := Option.some.inj hp
    rfl
  · rw [Except.bind_eq_ok_iff] at h
    obtain ⟨bufSize, -, h⟩ := h
    obtain rfl := Except.ok.inj h
    exact ⟨rfl, rfl, rfl, rfl, fun p hp => .inl hp⟩

/-- One read is one assignment, and leaves the pointer where it is. -/
theorem receiveData_spec (hs : FirstRead s) (hbuffer : 0 < buffer.length) (h : receiveData s buffer = .ok s') :
    FirstRead s' ∧ s'.assignments = s.assignments + 1 := by
  rw [receiveData, Except.bind_eq_ok_iff] at h
  obtain ⟨s2, h2, h⟩ := h
  rw [Except.bind_eq_ok_iff] at h
  obtain ⟨sumLen, -, h⟩ := h
  obtain rfl := Except.ok.inj h
  have hne : s2.receiveData ++ buffer ≠ [] := by
    intro hnil
    rw [(List.append_eq_nil_iff.mp hnil).2] at hbuffer
    cases hbuffer
  split at h2
  · next hfirst =>
    obtain ⟨hassignments, hdata, -, -, hpointer⟩ := readHeader_spec h2
    obtain ⟨hzero, hnone⟩ := hs.first (List.eq_nil_of_length_eq_zero hfirst)
    dsimp only at hassignments hdata hpointer
    refine ⟨⟨fun h => absurd h hne, fun p hp => ?_⟩, hassignments⟩
    rcases hpointer p hp with hp | hp
    · rw [hnone] at hp
      cases hp
    · rw [hp, hzero]
  · obtain rfl := Except.ok.inj h2
    exact ⟨⟨fun h => absurd h hne, hs.pointer⟩, rfl⟩

/-- Where the loop ends with the last read, there were as many assignments as reads. -/
theorem receive_spec {reads : List Str} (hnonempty : ∀ buffer ∈ reads, 0 < buffer.length) (hs : FirstRead s)
    (h : receive s (reads.map .data) = .ok (some (s', []))) :
    FirstRead s' ∧ s'.assignments = s.assignments + reads.length := by
  induction reads generalizing s with
  | nil => cases h
  | cons buffer reads ih =>
    obtain ⟨hbuffer, hrest⟩ := List.forall_mem_cons.mp hnonempty
    rw [List.map_cons, receive, if_neg (by omega)] at h
    split at h
    · next s2 hstep =>
      obtain ⟨hs2, hassignments⟩ := receiveData_spec hs hbuffer hstep
      rw [List.length_cons]
      split at h
      · obtain ⟨rfl, hreads⟩ := Prod.mk.inj (Option.some.inj (Except.ok.inj h))
        rw [List.map_eq_nil_iff] at hreads
        subst hreads
        exact ⟨hs2, by rw [hassignments]; rfl⟩
      · obtain ⟨hs', hlength⟩ := ih hrest hs2 h
        exact ⟨hs', by omega⟩
    · cases h

end Pointer

section Whole

namespace QueryResult

private theorem length_header (result : QueryResult) : result.header.length = 17 + result.tableName.length :=
  length_createHeader result.mngId result.length_tableName result.payload _ _ _

private theorem length_text (result : QueryResult) :
    result.text.length = 17 + result.tableName.length + result.payload.length := by
  rw [text, List.length_append, length_header]

/-- What is read of the header. -/
def headerInfo (result : QueryResult) : ProtobufHeaderInfo where
  header := {
    flag := '3'
    table_name_length := Int32.ofNat result.tableName.length
    table_name := result.tableName
    payload_size := (UInt32.ofNat result.payload.length).toInt32
    mngId := result.mngId
    fragment_index := UInt8.ofNat 0
    total_fragments := UInt8.ofNat 1
    key_length := (UInt32.ofNat 0).toInt32
    key := [] }
  headerSize := Int32.ofNat (17 + result.tableName.length)

private theorem getProtobufHeaderInfo_header (result : QueryResult) (rest : Str) :
    getProtobufHeaderInfo (result.header ++ rest) = .ok result.headerInfo := by
  have hkey : ([] : Str).length < 2 ^ 31 := by decide
  exact getProtobufHeaderInfo_createHeader result.mngId result.length_tableName result.payload 0 1 hkey rest

private theorem toInt_headerSize (result : QueryResult) :
    result.headerInfo.headerSize.toInt = result.header.length := by
  have hname := result.length_tableName
  rw [length_header]
  exact Int32.toInt_ofNat_of_lt (by omega)

private theorem headerSize_ne_zero (result : QueryResult) : result.headerInfo.headerSize ≠ 0 := by
  intro h
  have hsize := result.toInt_headerSize
  rw [h, length_header] at hsize
  have hzero : (0 : Int32).toInt = 0 := rfl
  omega

/-- The state after a first read that brings the whole header and a part of the payload. -/
def afterHeader (result : QueryResult) (part : Str) : ReceiveState where
  bufStr := result.header ++ part
  assignments := 1
  receiveData := result.header ++ part
  sumLen := (result.header ++ part).length
  bufSize := result.text.length
  headerInfo := result.headerInfo
  payload_p := some ⟨1, result.header.length⟩

@[simp] theorem sumLen_afterHeader (result : QueryResult) (part : Str) :
    (result.afterHeader part).sumLen = (result.header ++ part).length :=
  rfl

@[simp] theorem bufSize_afterHeader (result : QueryResult) (part : Str) :
    (result.afterHeader part).bufSize = result.text.length :=
  rfl

/-- A header that comes with the first part of its payload leaves the rest of the payload to be
received. -/
private theorem receiveData_header (result : QueryResult) (hsize : result.text.length < 2 ^ 31) {part : Str}
    (hpart : part.length ≤ result.payload.length) :
    receiveData {} (result.header ++ part) = .ok (result.afterHeader part) := by
  have htext := result.length_text
  have hheader := result.length_header
  have hpayload : result.headerInfo.header.payload_size.toInt = result.payload.length := toInt_length (by omega)
  have hbufSize : int (result.headerInfo.headerSize.toInt + result.headerInfo.header.payload_size.toInt) =
      .ok (result.text.length : Int) := by
    rw [toInt_headerSize, hpayload, int_eq_ok (by omega)]
    refine congrArg Except.ok ?_
    omega
  have hread : readHeader { bufStr := result.header ++ part, assignments := 1 } =
      .ok { bufStr := result.header ++ part, assignments := 1, bufSize := result.text.length,
            headerInfo := result.headerInfo, payload_p := some ⟨1, result.header.length⟩ } := by
    unfold readHeader
    rw [getProtobufHeaderInfo_header]
    change (if result.headerInfo.headerSize ≠ 0 then _ else _) = _
    rw [if_pos result.headerSize_ne_zero, hbufSize, toInt_headerSize]
    rfl
  have hsum : int (0 + (result.header ++ part).length) = .ok ((result.header ++ part).length : Int) := by
    rw [int_eq_ok (by rw [List.length_append]; omega), Int.zero_add]
  rw [receiveData, Except.bind_eq_ok_iff]
  refine ⟨_, (if_pos rfl).trans hread, ?_⟩
  rw [Except.bind_eq_ok_iff]
  exact ⟨_, hsum, rfl⟩

end QueryResult

/-- The state after further reads. -/
def ReceiveState.extended (s : ReceiveState) (buffer : Str) : ReceiveState :=
  { s with
    bufStr := buffer
    assignments := s.assignments + 1
    receiveData := s.receiveData ++ buffer
    sumLen := s.sumLen + buffer.length }

private theorem receiveData_next {s : ReceiveState} (hne : s.receiveData ≠ []) {buffer : Str}
    (hsum : 0 ≤ s.sumLen ∧ s.sumLen + buffer.length < 2 ^ 31) : receiveData s buffer = .ok (s.extended buffer) := by
  have hlength : ¬ s.receiveData.length = 0 := fun h => hne (List.eq_nil_of_length_eq_zero h)
  unfold receiveData
  dsimp only
  rw [if_neg hlength]
  change (int (s.sumLen + buffer.length) >>= _) = _
  rw [int_eq_ok (by omega)]
  rfl

/-- The loop ends with the read that brings the last byte. -/
theorem receive_rest {reads : List Str} (hnonempty : ∀ buffer ∈ reads, 0 < buffer.length) {s : ReceiveState}
    (hne : s.receiveData ≠ []) (hsum : 0 ≤ s.sumLen) (hmissing : reads ≠ [])
    (htotal : s.sumLen + reads.flatten.length = s.bufSize) (hbufSize : s.bufSize < 2 ^ 31) (later : List Received) :
    ∃ s', receive s (reads.map .data ++ later) = .ok (some (s', later)) ∧
      s'.receiveData = s.receiveData ++ reads.flatten := by
  induction reads generalizing s with
  | nil => exact absurd rfl hmissing
  | cons buffer reads ih =>
    obtain ⟨hbuffer, hrest⟩ := List.forall_mem_cons.mp hnonempty
    rw [List.flatten_cons, List.length_append] at htotal
    rw [List.map_cons, List.cons_append, receive, if_neg (by omega), receiveData_next hne (by omega)]
    dsimp only
    by_cases hlast : reads = []
    · subst hlast
      have hend : (s.extended buffer).sumLen = (s.extended buffer).bufSize := by
        change s.sumLen + buffer.length = s.bufSize
        simpa using htotal
      rw [if_pos hend]
      exact ⟨_, rfl, by simp [ReceiveState.extended]⟩
    · have hpos : 0 < reads.flatten.length := by
        obtain ⟨next, hnext⟩ := List.exists_mem_of_ne_nil reads hlast
        have hle := (List.sublist_flatten_of_mem hnext).length_le
        have hlt := hrest next hnext
        omega
      have hgoes : ¬ (s.extended buffer).sumLen = (s.extended buffer).bufSize := by
        change ¬ s.sumLen + buffer.length = s.bufSize
        omega
      rw [if_neg hgoes]
      obtain ⟨s', hs', hdata⟩ := ih hrest (s := s.extended buffer) (by simp [ReceiveState.extended, hne])
        (by change 0 ≤ s.sumLen + buffer.length; omega) hlast
        (by change s.sumLen + buffer.length + reads.flatten.length = s.bufSize; push_cast at htotal; omega) hbufSize
      refine ⟨s', hs', ?_⟩
      rw [hdata]
      simp [ReceiveState.extended]

/-- Where the first read brings the whole header, the loop ends exactly when the
answer is complete, whatever comes behind it. -/
theorem receive_complete (result : QueryResult) (hsize : result.text.length < 2 ^ 31)
    (division : Division result.text) {part : Str} {rest : List Str}
    (hreads : division.reads = (result.header ++ part) :: rest)
    (later : List Received) :
    ∃ s, receive {} (division.reads.map .data ++ later) = .ok (some (s, later)) ∧ s.receiveData = result.text := by
  have hnonempty := division.nonempty
  have hflatten := division.flatten_eq
  rw [hreads] at hnonempty hflatten
  rw [List.flatten_cons, QueryResult.text, List.append_assoc, List.append_cancel_left_eq] at hflatten
  obtain ⟨hfirst, hrest⟩ := List.forall_mem_cons.mp hnonempty
  have hpart : part.length ≤ result.payload.length := by
    rw [← hflatten, List.length_append]
    omega
  have htext : result.text.length = (result.header ++ part).length + rest.flatten.length := by
    rw [QueryResult.text, ← hflatten, List.length_append, List.length_append, List.length_append, Nat.add_assoc]
  rw [hreads, List.map_cons, List.cons_append, receive, if_neg (by omega), result.receiveData_header hsize hpart]
  dsimp only
  by_cases hlast : rest = []
  · subst hlast
    have hend : (result.afterHeader part).sumLen = (result.afterHeader part).bufSize := by
      rw [QueryResult.sumLen_afterHeader, QueryResult.bufSize_afterHeader, htext, List.flatten_nil, List.length_nil,
        Nat.add_zero]
    rw [if_pos hend]
    refine ⟨_, rfl, ?_⟩
    rw [QueryResult.text, ← hflatten]
    simp [QueryResult.afterHeader]
  · have hpos : 0 < rest.flatten.length := by
      obtain ⟨next, hnext⟩ := List.exists_mem_of_ne_nil rest hlast
      have hle := (List.sublist_flatten_of_mem hnext).length_le
      have hlt := hrest next hnext
      omega
    have hgoes : ¬ (result.afterHeader part).sumLen = (result.afterHeader part).bufSize := by
      rw [QueryResult.sumLen_afterHeader, QueryResult.bufSize_afterHeader]
      omega
    rw [if_neg hgoes]
    have hne : (result.afterHeader part).receiveData ≠ [] := List.ne_nil_of_length_pos hfirst
    obtain ⟨s, hs, hdata⟩ := receive_rest hrest hne (Int.natCast_nonneg _) hlast
      (by rw [QueryResult.sumLen_afterHeader, QueryResult.bufSize_afterHeader]; omega)
      (by rw [QueryResult.bufSize_afterHeader]; omega) later
    refine ⟨s, hs, ?_⟩
    rw [hdata, QueryResult.text, ← hflatten]
    exact List.append_assoc ..

end Whole

section Delivery

variable {result : QueryResult}

/-- A payload is returned only from a pointer that was set, and is the text at it. -/
private theorem payload_eq_ok {s : ReceiveState} {serializedStr : Str} (h : payload s = .ok serializedStr) :
    ∃ p, s.payload_p = some p ∧ p.toText s.bufStr s.assignments = .ok serializedStr := by
  rw [payload] at h
  split at h
  · cases h
  · split at h
    · next p hp =>
      cases htext : p.toText s.bufStr s.assignments with
      | error e =>
        rw [htext] at h
        cases h
      | ok text =>
        rw [htext] at h
        obtain rfl := Except.ok.inj h
        exact ⟨p, hp, htext⟩
    · cases h

/-- With the whole payload received, what is returned is its text up to a zero byte. -/
private theorem payload_afterHeader (result : QueryResult) :
    payload (result.afterHeader result.payload) = .ok (result.payload.takeWhile (· != '\x00')) := by
  have hheader : ¬ ((result.afterHeader result.payload).headerInfo.headerSize = 0 ∨
      (result.afterHeader result.payload).headerInfo.header.flag ≠ '3') :=
    not_or.mpr ⟨result.headerSize_ne_zero, not_not.mpr rfl⟩
  have htext : (CharPointer.mk 1 result.header.length).toText (result.header ++ result.payload) 1 =
      .ok (result.payload.takeWhile (· != '\x00')) := by
    rw [CharPointer.toText, if_pos ⟨rfl, by simp⟩, List.drop_left]
  rw [payload, if_neg hheader]
  exact congrArg (Except.mapError ExecuteFailure.failure) htext

/-- A result that is delivered was received to its end, and the pointer reads its payload. -/
private theorem exists_of_delivered {division : Division result.text} (h : Delivered result division) :
    ∃ s p, receive {} (division.reads.map .data) = .ok (some (s, [])) ∧ s.payload_p = some p ∧
      p.toText s.bufStr s.assignments = .ok result.payload := by
  rw [Delivered, execute] at h
  split at h
  · cases h
  · next s reads hreceive =>
    obtain ⟨serializedStr, hpayload, hresult⟩ := Except.map_eq_ok_iff.mp h
    obtain ⟨rfl, rfl⟩ := Prod.mk.inj (Option.some.inj hresult)
    obtain ⟨p, hp, htext⟩ := payload_eq_ok hpayload
    exact ⟨s, p, hreceive, hp, htext⟩
  · cases h

/-- A pointer reads a text only in the string that it was taken of, and a text without a zero
byte. -/
private theorem zero_not_mem_of_toText {p : CharPointer} {text : Str} {assignments : Nat} {serializedStr : Str}
    (h : p.toText text assignments = .ok serializedStr) : p.assignment = assignments ∧ '\x00' ∉ serializedStr := by
  rw [CharPointer.toText] at h
  split at h
  · next hvalid =>
    obtain rfl := Except.ok.inj h
    refine ⟨hvalid.1, fun hzero => ?_⟩
    have hne := List.mem_takeWhile_imp hzero
    exact absurd hne (by decide)
  · cases h

/-- The whole answer in one read, up to the first zero byte of the payload. -/
theorem execute_whole (result : QueryResult) (hfits : result.text.length ≤ BUF_MAX) :
    execute [.data result.text] = .ok (some (result.payload.takeWhile (· != '\x00'), [])) := by
  have hlength := result.length_text
  have hsize : result.text.length < 2 ^ 31 := by
    unfold BUF_MAX at hfits
    omega
  have hend : (result.afterHeader result.payload).sumLen = (result.afterHeader result.payload).bufSize := by
    rw [QueryResult.sumLen_afterHeader, QueryResult.bufSize_afterHeader, QueryResult.text]
  have hreceive : receive {} [.data result.text] = .ok (some (result.afterHeader result.payload, [])) := by
    rw [receive, if_neg (by omega), QueryResult.text, result.receiveData_header hsize le_rfl]
    exact if_pos hend
  rw [execute, hreceive]
  dsimp only
  rw [payload_afterHeader]
  rfl

end Delivery

/-- A query gets its whole answer just if it comes in one read and has no zero byte
in its payload. -/
theorem answered_iff (result : QueryResult) (division : Division result.text) :
    Delivered result division ↔ division.reads.length = 1 ∧ '\x00' ∉ result.payload := by
  constructor
  · intro h
    obtain ⟨s, p, hreceive, hp, htext⟩ := exists_of_delivered h
    obtain ⟨hpointer, hassignments⟩ := receive_spec division.nonempty ⟨fun _ => ⟨rfl, rfl⟩,
      fun p hp => by cases hp⟩ hreceive
    obtain ⟨hcurrent, hzero⟩ := zero_not_mem_of_toText htext
    rw [hpointer.pointer p hp] at hcurrent
    refine ⟨?_, hzero⟩
    dsimp only at hassignments
    omega
  · rintro ⟨hone, hzero⟩
    obtain ⟨buffer, hreads⟩ := List.length_eq_one_iff.mp hone
    have hflatten := division.flatten_eq
    have hfits := division.fits
    rw [hreads, List.flatten_singleton] at hflatten
    rw [hreads, List.forall_mem_singleton, hflatten] at hfits
    have hpayload : result.payload.takeWhile (· != '\x00') = result.payload :=
      List.takeWhile_eq_self_iff.mpr fun c hc => by
        have hne : c ≠ '\x00' := fun heq => hzero (heq ▸ hc)
        simpa using hne
    rw [Delivered, hreads, hflatten, List.map_singleton, execute_whole result hfits, hpayload]

/-- An answer with the payload `ab`. -/
def shortAnswer : QueryResult where
  mngId := 1
  tableName := []
  payload := ['a', 'b']
  length_tableName := by decide

/-- The answer in two reads. -/
def twoReads : Division shortAnswer.text where
  reads := [shortAnswer.header ++ ['a'], ['b']]
  nonempty := by decide
  fits := by decide
  flatten_eq := by decide

/-- The payload is looked for in a buffer that the second read has replaced. -/
theorem twoReads_not_delivered : execute (twoReads.reads.map .data) = .error (.failure .undefined) ∧
    ¬ Delivered shortAnswer twoReads := by
  have hexecute : execute (twoReads.reads.map .data) = .error (.failure .undefined) := by decide
  refine ⟨hexecute, fun h => ?_⟩
  rw [Delivered, hexecute] at h
  cases h

end Connection

end IS

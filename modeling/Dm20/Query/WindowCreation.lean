import Dm20.Queue.State
import Dm20.Query.WindowNumbers

namespace IS

open StringUtil

/-- The codes with which an operator is refused. -/
inductive ErrorCode where
  | QUERY_PARSE_ERR
  | AUTHORITY_ERR
deriving DecidableEq, Repr

/-- Why there is no operator: a number that cannot be read, an element that is not there, or
a null pointer with a message. -/
inductive OperatorError where
  | conversion (e : ConversionError)
  | outOfRange
  | refused (retErrMsg : Str) (retErrCode : ErrorCode)
deriving DecidableEq, Repr

/-- White space of XML. -/
def isXmlSpace (c : Char) : Bool :=
  [' ', '\t', '\n', '\r'].contains c

/-- The text of an element without the white space around it. -/
def getChildText (text : Str) : Str :=
  Strip.strip isXmlSpace text

/-- A window operator as it is created. -/
structure CreatedWindow extends WindowOperator where
  masterName : Str
  schemaName : Str
  limit : Int := 0
  costId : Str := []
  CostSortMode : Bool := false
deriving DecidableEq, Repr

namespace QueryExecuter

/-- What the executer finds where it creates operators: its number, the streams that the
user may read, and the schemas of the streams. -/
structure Session where
  mngId : Nat
  user : Str
  isSelect : Str → Str → Bool
  getStreamSchema : Str → Schema

/-- The parameters of an operator, with the values that stand for those not set. -/
structure Parameters where
  operatorStr : Str := []
  parameterStr : Str := []
  master : Str := []
  rangeSeed : Str := []
  partitionList : Str := []
  rangeWin : Int32 := -1
  timeWin : Int64 := -1
  isNotifyAll : Bool := false
  rangeLimit : Int32 := -1

/-- One parameter. A number is read as far as it is one. -/
def Parameters.read (p : Parameters) (key text : Str) : Except ConversionError Parameters :=
  if key = "operator_type".toList then .ok { p with operatorStr := text }
  else if key = "parameter".toList then .ok { p with parameterStr := text }
  else if key = "master".toList then .ok { p with master := text }
  else if key = "range_window".toList then (stoi text).map fun n => { p with rangeWin := n }
  else if key = "time_window".toList then (stol text).map fun n => { p with timeWin := n }
  else if key = "partition".toList then .ok { p with partitionList := text }
  else if key = "notify_all".toList then .ok { p with isNotifyAll := true }
  else if key = "limit".toList then (stoi text).map fun n => { p with rangeLimit := n }
  else if key = "seed".toList then .ok { p with rangeSeed := text }
  else .ok p

def readParameters (dataList : DataStore) : Except ConversionError Parameters :=
  dataList.foldlM (fun p (key, value) => p.read key (getChildText value)) {}

namespace Session

/-- Only a user who may read a stream gets an operator on it. -/
def checkSelect (self : Session) (stream : Str) : Except OperatorError Unit :=
  if self.isSelect stream self.user then .ok ()
  else .error (.refused ("[getOperator] Can't generating operator Because User '".toList ++ self.user ++
    "' doesn't have permission to read '".toList ++ stream ++ "' stream.".toList) .AUTHORITY_ERR)

/-- The stream that is read, and the one whose schema a temporary stream has. -/
def streamNames (self : Session) (parameterStr : Str) : Except OperatorError (Str × Str) :=
  match split parameterStr ",".toList with
  | [] => .error .outOfRange
  | [stream] => do
    self.checkSelect stream
    return (stream, [])
  | stream :: schemaName :: _ => do
    self.checkSelect schemaName
    return (replaceOnce stream "MNGID".toList (to_string_nat self.mngId), schemaName)

/-- The column of a partition. -/
def partitionIdx (self : Session) (stream column : Str) : Except OperatorError Int :=
  match (self.getStreamSchema stream).getAttributeIdx column with
  | none => .error .outOfRange
  | some idx =>
    if idx = -1 then
      .error (.refused
        ("[getOperator] Can't generating operator Because Partition Attr is wrong. Attr[".toList ++
          column ++ "] is not in ".toList ++ stream) .AUTHORITY_ERR)
    else .ok idx

/-- The operator of the parameters: a window of rows where their number is set, else one of
time, else one that hands on everything; where nothing is set a time of 100 ms. -/
def windowOperator (self : Session) (p : Parameters) : Except OperatorError CreatedWindow := do
  if p.master = [] then
    throw (.refused "[getOperator] Can't generating operator Because 'MASTER streamName' clause isn't specified.".toList
      .QUERY_PARSE_ERR)
  self.checkSelect p.master
  let (streamName, schemaName) ← self.streamNames p.parameterStr
  let partitionIdxList ← (split p.partitionList ",".toList).mapM (self.partitionIdx streamName)
  let window : CreatedWindow := { streamName, masterName := p.master, schemaName }
  if p.rangeWin ≠ -1 then
    return { window with
      num := p.rangeWin.toInt
      limit := p.rangeLimit.toInt
      costId := p.rangeSeed
      CostSortMode := decide (0 < p.rangeLimit.toInt)
      partitionList := partitionIdxList }
  else if p.timeWin ≠ -1 then return { window with msec := p.timeWin.toInt, partitionList := partitionIdxList }
  else if p.isNotifyAll then return { window with notifyAllFlg := true }
  else return { window with msec := 100, partitionList := partitionIdxList }

/-- The window operator of a node, if it is the node of one. -/
def getOperator (self : Session) (dataList : DataStore) : Except OperatorError (Option CreatedWindow) := do
  let p ← (readParameters dataList).mapError .conversion
  if p.operatorStr = "in".toList then
    let window ← self.windowOperator p
    return some window
  else return none

/-- What a created window has of its parameters. -/
structure Created (session : Session) (p : Parameters) (w : CreatedWindow) : Prop where
  rows : p.rangeWin ≠ -1 → w.num = p.rangeWin.toInt
  time : p.rangeWin = -1 → p.timeWin ≠ -1 → w.msec = p.timeWin.toInt
  partition : p.rangeWin ≠ -1 ∨ p.timeWin ≠ -1 →
    (split p.partitionList ",".toList).mapM (session.partitionIdx w.streamName) = .ok w.partitionList

/-- A window that is created has the parameters that were read. -/
theorem created_of_windowOperator {self : Session} {p : Parameters} {w : CreatedWindow}
    (h : self.windowOperator p = .ok w) : self.Created p w := by
  rw [windowOperator] at h
  split at h
  · cases h
  obtain ⟨_, -, h⟩ := Except.bind_eq_ok_iff.mp h
  obtain ⟨⟨streamName, schemaName⟩, -, h⟩ := Except.bind_eq_ok_iff.mp h
  obtain ⟨partitionIdxList, hpartition, h⟩ := Except.bind_eq_ok_iff.mp h
  dsimp only at h hpartition
  split at h
  · next hrows =>
    cases h
    exact ⟨fun _ => rfl, fun hnone => absurd hnone hrows, fun _ => hpartition⟩
  · next hrows =>
    split at h
    · cases h
      exact ⟨fun h => absurd h hrows, fun _ _ => rfl, fun _ => hpartition⟩
    · next htime =>
      refine ⟨fun h => absurd h hrows, fun _ h => absurd h htime, fun h => h.elim (absurd · hrows) (absurd · htime)⟩

/-- A user who may read every stream gets an operator where the columns of the partition are
there. -/
theorem windowOperator_ok (self : Session) (p : Parameters) (hmaster : p.master ≠ [])
    (hselect : ∀ stream, self.isSelect stream self.user = true) (hparameter : p.parameterStr ≠ [])
    (hpartition : ∀ stream, ∀ column ∈ split p.partitionList ",".toList,
      ∃ idx, self.partitionIdx stream column = .ok idx) :
    ∃ w, self.windowOperator p = .ok w := by
  have hcheck : ∀ stream, self.checkSelect stream = .ok () := fun stream => if_pos (hselect stream)
  obtain ⟨names, hnames⟩ : ∃ names, self.streamNames p.parameterStr = .ok names := by
    rw [streamNames]
    cases hsplit : split p.parameterStr ",".toList with
    | nil =>
      have hjoined := Text.intercalate_pieces ",".toList p.parameterStr.length p.parameterStr
      rw [split, if_neg (by simpa using hparameter)] at hsplit
      rw [hsplit] at hjoined
      exact absurd hjoined.symm hparameter
    | cons stream rest =>
      cases rest with
      | nil => exact ⟨(stream, []), Except.bind_eq_ok_iff.mpr ⟨(), hcheck stream, rfl⟩⟩
      | cons schemaName rest =>
        exact ⟨(replaceOnce stream "MNGID".toList (to_string_nat self.mngId), schemaName),
          Except.bind_eq_ok_iff.mpr ⟨(), hcheck schemaName, rfl⟩⟩
  obtain ⟨idxs, hidxs⟩ := Except.exists_mapM_eq_ok (hpartition names.1)
  rw [windowOperator, if_neg hmaster, hcheck, hnames]
  simp only [bind, Except.bind, hidxs, pure, Except.pure]
  split
  · exact ⟨_, rfl⟩
  split
  · exact ⟨_, rfl⟩
  split
  · exact ⟨_, rfl⟩
  · exact ⟨_, rfl⟩

end Session

end QueryExecuter

end IS

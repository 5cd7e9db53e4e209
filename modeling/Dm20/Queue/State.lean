import Dm20.Lib.Scan
import Dm20.TupleLib.TupleSet

namespace IS

/-- How a queue operation can go wrong: an exception of `at`, an `erase` past
the end of the queue, or a `pop_front` of the empty queue. -/
inductive Fault where
  | outOfRange
  | eraseBeyondEnd
  | popEmpty
deriving DecidableEq, Repr

structure DeleteReservation where
  deleteMsec : Int
  num : Nat
deriving DecidableEq, Repr

/-- The window operator's part in queueing: its target stream, its size in rows
or in milliseconds, its partition columns and its high-water marks. -/
structure WindowOperator where
  streamName : Str
  num : Int := 0
  msec : Int := 0
  partitionList : List Int := []
  notifyAllFlg : Bool := false
  allowDuplicateData : Bool := false
  notifiedTime : Int := 0
  lastRecvTime : Int := 0
  preLastRecvTime : Int := 0
deriving DecidableEq, Repr

namespace WindowOperator

def getNumPartitionSize (w : WindowOperator) : Nat :=
  w.partitionList.length

/-- The number of tuples a count window takes at once: with partition columns all of them. -/
def limit (w : WindowOperator) : Option Nat :=
  if 0 < w.getNumPartitionSize then none else some w.num.toNat

def setLastRecvTime (w : WindowOperator) (recvTime : Int) : WindowOperator :=
  { w with preLastRecvTime := w.lastRecvTime, lastRecvTime := recvTime }

/-- A window that allows duplicate data has no time notified so far. -/
def setNotifiedTime (w : WindowOperator) (notifiedTime : Int) : WindowOperator :=
  if w.allowDuplicateData then w else { w with notifiedTime }

end WindowOperator

/-- The operators a queue knows: windows, and the operators on tables. -/
inductive Operator where
  | window (w : WindowOperator)
  | other
deriving DecidableEq, Repr

structure Queue where
  streamName : Str
  schema : Schema := {}
  max_worker_thread : Int := 1
  queue : List Tuple := []
  listenerOperatorList : List Operator := []
  referrerOperatorList : List Operator := []
  deleteReservationList : List DeleteReservation := []
  totalQueueNum : Nat := 0
  beforeQueueNum : Nat := 0
  streamRcvNum : Nat := 0
  defaultNum : Int := 10
  defaultMsec : Int := 10 * 1000
  deleteSearchIdx : Int := 0

namespace Queue

/-- What the retrieval by reception time does with a tuple. With one worker the
reception times in the queue do not decrease; with more they may mix for a second. -/
def recvVerdict (max_worker_thread lastRecvTime : Int) (t : Tuple) : Scan.Verdict :=
  if t.recvTime ≤ lastRecvTime then
    if max_worker_thread = 1 then .stop
    else if lastRecvTime - t.recvTime > 1000 * 1000 then .stop
    else .skip
  else .take

/-- The tuples received after a time, newest arrival first. -/
def getTupleSetAll (q : Queue) (lastRecvTime : Int) (tupleset : TupleSet) : TupleSet :=
  { tupleset.SetSchema q.schema with
    tuples := Scan.scan (recvVerdict q.max_worker_thread lastRecvTime) none q.queue.reverse }

/-- At most `num` tuples received after a time, newest arrival first. -/
def getTupleSetNum (q : Queue) (num lastRecvTime : Int) (tupleset : TupleSet) : TupleSet :=
  { tupleset.SetSchema q.schema with
    tuples :=
      Scan.scan (recvVerdict q.max_worker_thread lastRecvTime) (some num.toNat) q.queue.reverse }

/-- What the retrieval by range does with a tuple. -/
def rangeVerdict (schema : Schema) (rangeMsec notifiedTime referenceTime : Int) (t : Tuple) :
    Scan.Verdict :=
  if t.getNewestTimestamp ≤ referenceTime then
    if t.checkTimestamp (max (referenceTime - rangeMsec) notifiedTime) schema then .take else .stop
  else .skip

/-- The tuples of a time range, newest arrival first, behind those already in the set. -/
def getTupleSetRange (q : Queue) (rangeMsec notifiedTime referenceTime : Int)
    (tupleset : TupleSet) : TupleSet :=
  { tupleset.SetSchema q.schema with
    tuples := tupleset.tuples ++
      Scan.scan (rangeVerdict q.schema rangeMsec notifiedTime referenceTime) none q.queue.reverse }

/-- The index of the time group column. Its name carries the table name, so the
search does not fail. -/
def tsGrpIdx (schema : Schema) : Int :=
  (schema.getAttributeIdx (schema.tablename ++ ".".toList ++ Schema.COL_TS_GRP)).getD (-1)

/-- The tuple as it is queued: with its reception time, which is also appended
to the time group column. -/
def stamp (schema : Schema) (recvTime : Int) (t : Tuple) : Tuple :=
  let t := t.setRecvTime recvTime
  if tsGrpIdx schema ≠ -1 then
    let val := (t.getValueByIdx (tsGrpIdx schema).toNat).getD .void
    let strVal := getAnyString val
    let strVal := if strVal = "(null)".toList then to_string_int recvTime ++ ",".toList
      else strVal ++ to_string_int recvTime ++ ",".toList
    t.setValue (tsGrpIdx schema) (.scalar .string strVal) 0 false
  else t

/-- The queueing part of `addTuple`. -/
def enqueue (q : Queue) (recvTime : Int) (tuples : List Tuple) : Queue :=
  { q with
    queue := q.queue ++ tuples.map (stamp q.schema recvTime)
    totalQueueNum := q.totalQueueNum + tuples.length }

@[simp] theorem stamp_recvTime (schema : Schema) (recvTime : Int) (t : Tuple) :
    (stamp schema recvTime t).recvTime = recvTime := by
  unfold stamp
  split <;> simp

/-- The scan by reception takes what was received after the last time. -/
theorem recvVerdict_eq_take_iff {workers last : Int} {t : Tuple} :
    recvVerdict workers last t = .take ↔ last < t.recvTime := by
  unfold recvVerdict
  by_cases h : t.recvTime ≤ last
  · rw [if_pos h]
    constructor
    · intro htake
      split_ifs at htake
    · intro hlt
      omega
  · simp only [h, if_false, true_iff]
    omega

end Queue

end IS

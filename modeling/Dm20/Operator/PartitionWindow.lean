import Dm20.Lib.AssocList
import Dm20.Lib.Latest
import Dm20.Lib.Run
import Dm20.Queue.AddTuple

namespace IS

open StringUtil

/-- `std::sort` by timestamp. The order of tuples of one timestamp is not specified. -/
structure TimestampSort where
  sort : List Tuple → List Tuple
  perm : ∀ l, (sort l).Perm l
  sorted : ∀ l, (sort l).Pairwise fun t u => t.getTimestamp ≤ u.getTimestamp

def WindowOperator.makePartitionKey (w : WindowOperator) (t : Tuple) : Str :=
  w.partitionList.flatMap fun colIdx =>
    let key := if 0 ≤ colIdx then (t.getValueByIdx colIdx.toNat).getD .void else .void
    getAnyString key ++ "|".toList

namespace PartitionWindow

/-- A window of rows by partition, the queue that notifies it, and what its
worker keeps: the hash values it has seen with the time it saw them, and the
latest tuples of each partition, one for ROWS 1 and several otherwise. Between
its two halves the worker has a tuple set in process. The last five fields keep
the history: the tuples added to the window's own stream and those handed to
the window, and of the process steps the tuples taken as no duplicates and
those handed on. -/
structure State where
  queue : Queue
  window : WindowOperator
  buffer : List TupleSet := []
  tupleHashMap : List (Str × Int) := []
  latestTuple1 : List (Str × Tuple) := []
  latestTupleN : List (Str × List Tuple) := []
  processing : Option TupleSet := none
  added : List Tuple := []
  handed : List TupleSet := []
  accepted : List (List Tuple) := []
  emitted : List TupleSet := []

inductive Act where
  | addTuple (QM : QueueManager) (recvTime : Int) (tuples : List Tuple)
  | take (now : Int)
  | emit
  | deleteHashmap (now : Int)

/-- The hash value of a tuple; of one without such a column, the text of no value. -/
def hashStr (schema : Schema) (t : Tuple) : Str :=
  let idx := (schema.getAttributeIdx Schema.COL_HASH).getD (-1)
  getAnyString (if 0 ≤ idx then (t.getValueByIdx idx.toNat).getD .void else .void)

/-- Whether the hash value of a tuple has been seen. A new one is recorded. -/
def matchHash (tupleHashMap : List (Str × Int)) (now : Int) (schema : Schema) (t : Tuple) :
    Bool × List (Str × Int) :=
  match tupleHashMap.lookup (hashStr schema t) with
  | some _ => (true, tupleHashMap)
  | none => (false, tupleHashMap ++ [(hashStr schema t, now)])

/-- Keeps a tuple for ROWS 1 where it is later than the one of its partition. -/
def keepLatest1 (s : State) (t : Tuple) : State :=
  let key := s.window.makePartitionKey t
  match s.latestTuple1.lookup key with
  | none => { s with latestTuple1 := s.latestTuple1 ++ [(key, t)] }
  | some latest =>
    if t.getTimestamp > latest.getTimestamp then { s with latestTuple1 := AssocList.set s.latestTuple1 key t }
    else s

/-- Keeps a tuple for ROWS n among the latest n of its partition. -/
def keepLatestN (sort : TimestampSort) (s : State) (t : Tuple) : State :=
  let key := s.window.makePartitionKey t
  let dq := sort.sort ((s.latestTupleN.lookup key).getD [] ++ [t])
  { s with latestTupleN := AssocList.set s.latestTupleN key (dq.drop (dq.length - s.window.num.toNat)) }

def keepLatest (sort : TimestampSort) (s : State) (t : Tuple) : State :=
  if s.window.num = 1 then keepLatest1 s t else keepLatestN sort s t

/-- One tuple of the set in process. -/
def takeTuple (sort : TimestampSort) (now : Int) (schema : Schema) (s : State × List Tuple) (t : Tuple) :
    State × List Tuple :=
  if s.1.window.allowDuplicateData then (keepLatest sort s.1 t, s.2 ++ [t])
  else
    match matchHash s.1.tupleHashMap now schema t with
    | (true, _) => s
    | (false, tupleHashMap) => (keepLatest sort { s.1 with tupleHashMap } t, s.2 ++ [t])

/-- The tuples kept of all partitions. -/
def kept (s : State) : List Tuple :=
  if s.window.num = 1 then s.latestTuple1.map (·.2) else s.latestTupleN.flatMap (·.2)

/-- What the second half of a process step hands on of the tuples kept. Where
duplicates are not allowed these are the ones received after the mark before the
last one. -/
def output (s : State) : List Tuple :=
  ((kept s).filter fun t => s.window.allowDuplicateData || decide (s.window.preLastRecvTime < t.recvTime)).reverse

/-- Hands a tuple set to the window. -/
def receiveTupleSet (s : State) (ts : TupleSet) : State :=
  if ts.schema.tablename ≠ Schema.UNKNOWN then
    { s with buffer := s.buffer ++ [ts], handed := s.handed ++ [ts] }
  else s

def step (sort : TimestampSort) (s : State) : Act → Except Unit State
  | .addTuple QM recvTime tuples =>
    let queue := s.queue.enqueue recvTime tuples
    let ts := queue.countTupleSet QM s.window { type := .master, recvTime }
    let added := if s.window.streamName = queue.streamName then tuples.map (Queue.stamp queue.schema recvTime) else []
    .ok (receiveTupleSet
      { s with queue, window := s.window.setLastRecvTime recvTime, added := s.added ++ added } ts)
  | .take now =>
    match s.processing, s.buffer with
    | none, ts :: buffer =>
      let (s, accepted) := ts.tuples.foldl (takeTuple sort now ts.schema) (s, [])
      .ok { s with buffer, processing := some ts, accepted := s.accepted ++ [accepted] }
    | _, _ => .error ()
  | .emit =>
    match s.processing with
    | some ts =>
      match output s with
      | [] => .ok { s with processing := none }
      | tuples => .ok { s with processing := none, emitted := s.emitted ++ [{ ts with tuples }] }
    | none => .error ()
  | .deleteHashmap now =>
    .ok { s with tupleHashMap := s.tupleHashMap.filter fun h => decide (now - 10 * 1000 * 1000 ≤ h.2) }

end PartitionWindow

end IS

import Dm20.Queue.Delete

namespace IS

/-- The queues by stream name. -/
abbrev QueueManager := List (Str × Queue)

namespace QueueManager

def getTupleSetAll (QM : QueueManager) (streamName : Str) (lastRecvTime : Int)
    (tupleset : TupleSet) : TupleSet :=
  match QM.lookup streamName with
  | some queue => queue.getTupleSetAll lastRecvTime tupleset
  | none => tupleset

def getTupleSetNum (QM : QueueManager) (streamName : Str) (num referenceTime : Int)
    (tupleset : TupleSet) : TupleSet :=
  match QM.lookup streamName with
  | some queue => queue.getTupleSetNum num referenceTime tupleset
  | none => tupleset

def getTupleSetRange (QM : QueueManager) (streamName : Str)
    (rangeMsec notifiedTime referenceTime : Int) (tupleset : TupleSet) : TupleSet :=
  match QM.lookup streamName with
  | some queue => queue.getTupleSetRange rangeMsec notifiedTime referenceTime tupleset
  | none => tupleset

end QueueManager

namespace Queue

/-- What `addTuple` hands a count window: with partition columns all tuples since
the last reception, otherwise as many as its rows. -/
def countTupleSet (q : Queue) (QM : QueueManager) (w : WindowOperator) (ts : TupleSet) : TupleSet :=
  if w.streamName = q.streamName then
    if 0 < w.getNumPartitionSize then q.getTupleSetAll w.lastRecvTime ts
    else q.getTupleSetNum w.num w.lastRecvTime ts
  else
    if 0 < w.getNumPartitionSize then QM.getTupleSetAll w.streamName w.lastRecvTime ts
    else QM.getTupleSetNum w.streamName w.num w.lastRecvTime ts

/-- What `addTuple` hands a time window for a batch with the given newest
timestamp of its first tuple. -/
def timeTupleSet (q : Queue) (QM : QueueManager) (w : WindowOperator) (newest : Int)
    (ts : TupleSet) : TupleSet :=
  if w.streamName = q.streamName then q.getTupleSetRange w.msec w.notifiedTime newest ts
  else QM.getTupleSetRange w.streamName w.msec w.notifiedTime newest ts

/-- What `addTuple` hands a window that is notified of everything: as many
tuples as were received. -/
def allTupleSet (q : Queue) (QM : QueueManager) (w : WindowOperator) (receiveTupleNum : Nat)
    (newest : Int) (ts : TupleSet) : TupleSet :=
  if w.streamName = q.streamName then q.getTupleSetNum receiveTupleNum newest ts
  else QM.getTupleSetNum w.streamName receiveTupleNum newest ts

/-- Notifies one listener of a batch: the listener afterwards and the tuples it
receives. A window by time reads the first tuple of the batch, which fails where
the batch is empty. -/
def notify (q : Queue) (QM : QueueManager) (recvTime : Int) (tuples : List Tuple) :
    Operator → Except Fault (Operator × Option TupleSet)
  | .other => .ok (.other, some
      { type := .master, recvTime,
        schema := { tablename := "dummyStream".toList, tabletype := Schema.STREAM } })
  | .window w =>
    let ts : TupleSet := { type := .master, recvTime }
    if w.num > 0 then
      .ok (.window (w.setLastRecvTime recvTime), some (q.countTupleSet QM w ts))
    else if w.msec > 0 then
      match tuples with
      | [] => .error .outOfRange
      | t :: _ =>
        let ts := q.timeTupleSet QM w t.getNewestTimestamp ts
        match ts.tuples with
        | [] => .ok (.window w, some ts)
        | newest :: _ => .ok (.window (w.setNotifiedTime newest.getNewestTimestamp), some ts)
    else if w.msec = 0 ∨ w.notifyAllFlg then
      match tuples with
      | [] => .error .outOfRange
      | t :: _ => .ok (.window w, some (q.allTupleSet QM w tuples.length t.getNewestTimestamp ts))
    else .ok (.window w, none)

/-- Queues a batch at a clock reading and notifies the listeners in turn. -/
def addTuple (q : Queue) (QM : QueueManager) (recvTime : Int) (tuples : List Tuple) :
    Except Fault (Queue × List (Option TupleSet)) := do
  let q' := q.enqueue recvTime tuples
  let notified ← q'.listenerOperatorList.mapM
    (q'.notify QM recvTime (tuples.map (stamp q.schema recvTime)))
  .ok ({ q' with listenerOperatorList := notified.map (·.1) }, notified.map (·.2))

def addListener (q : Queue) (ope : Operator) : Queue :=
  { q with listenerOperatorList := q.listenerOperatorList ++ [ope] }

def addReferrer (q : Queue) (ope : Operator) : Queue :=
  { q with referrerOperatorList := q.referrerOperatorList ++ [ope] }

/-- A call on a queue, with the clock reading it makes under the mutex: `addTuple`
in microseconds, `deleteQueue` in milliseconds. `addTuple` also sees the other queues. -/
inductive Op where
  | addTuple (QM : QueueManager) (recvTime : Int) (tuples : List Tuple)
  | deleteQueue (now : Int)
  | addListener (ope : Operator)
  | addReferrer (ope : Operator)

/-- The effect of a call on the queue, and what the listeners receive. -/
def call (q : Queue) : Op → Except Fault (Queue × List (Option TupleSet))
  | .addTuple QM recvTime tuples => q.addTuple QM recvTime tuples
  | .deleteQueue now => (q.deleteQueue now).map fun q => (q, [])
  | .addListener ope => .ok (q.addListener ope, [])
  | .addReferrer ope => .ok (q.addReferrer ope, [])

def step (q : Queue) (op : Op) : Except Fault Queue :=
  (q.call op).map (·.1)

/-- Notifying a listener fails only on an empty batch, of which a window by time
reads the first tuple. -/
theorem notify_fault {q : Queue} {QM : QueueManager} {recvTime : Int} {tuples : List Tuple}
    {ope : Operator} {e : Fault} (h : q.notify QM recvTime tuples ope = .error e) :
    e = .outOfRange := by
  cases ope with
  | other => cases h
  | window w =>
    cases tuples with
    | nil =>
      simp only [notify] at h
      split_ifs at h <;> cases h <;> rfl
    | cons t ts =>
      simp only [notify] at h
      split_ifs at h
      · split at h <;> cases h

/-- A listener fails only at an empty batch. -/
private theorem eq_nil_of_notify_fault {q : Queue} {QM : QueueManager} {recvTime : Int} {tuples : List Tuple}
    {ope : Operator} {e : Fault} (h : q.notify QM recvTime tuples ope = .error e) : tuples = [] := by
  cases tuples with
  | nil => rfl
  | cons t rest =>
    cases ope with
    | other => cases h
    | window w =>
      simp only [notify] at h
      split_ifs at h
      split at h <;> cases h

/-- A batch with a tuple in it is queued. -/
theorem eq_nil_of_addTuple_fault {q : Queue} {QM : QueueManager} {recvTime : Int} {tuples : List Tuple}
    {e : Fault} (h : q.addTuple QM recvTime tuples = .error e) : tuples = [] := by
  rw [addTuple, Except.bind_eq_error_iff] at h
  rcases h with h | ⟨_, _, h⟩
  · obtain ⟨ope, _, hope⟩ := Except.mapM_eq_error h
    exact List.map_eq_nil_iff.mp (eq_nil_of_notify_fault hope)
  · cases h

private theorem addTuple_fault {q : Queue} {QM : QueueManager} {recvTime : Int} {tuples : List Tuple}
    {e : Fault} (h : q.addTuple QM recvTime tuples = .error e) : e = .outOfRange := by
  rw [addTuple, Except.bind_eq_error_iff] at h
  rcases h with h | ⟨_, _, h⟩
  · obtain ⟨ope, _, hope⟩ := Except.mapM_eq_error h
    exact notify_fault hope
  · cases h

/-- `addTuple` queues the batch and updates the listeners it notifies, nothing else. -/
theorem addTuple_spec {q q' : Queue} {QM : QueueManager} {recvTime : Int} {tuples : List Tuple}
    {handed : List (Option TupleSet)} (h : q.addTuple QM recvTime tuples = .ok (q', handed)) :
    ∃ notified,
      List.Forall₂ (fun ope r => (q.enqueue recvTime tuples).notify QM recvTime
        (tuples.map (stamp q.schema recvTime)) ope = .ok r) q.listenerOperatorList notified ∧
      q' = { q.enqueue recvTime tuples with listenerOperatorList := notified.map (·.1) } ∧
      handed = notified.map (·.2) := by
  rw [addTuple, Except.bind_eq_ok_iff] at h
  obtain ⟨notified, hnotified, h⟩ := h
  simp only [Except.ok.injEq, Prod.mk.injEq] at h
  exact ⟨notified, Except.mapM_eq_ok hnotified, h.1.symm, h.2.symm⟩

/-- A call of `addTuple` that succeeds is one of the source, with what it handed on. -/
theorem step_addTuple_ok {q q' : Queue} {QM : QueueManager} {recvTime : Int} {tuples : List Tuple}
    (h : q.step (.addTuple QM recvTime tuples) = .ok q') :
    ∃ handed, q.addTuple QM recvTime tuples = .ok (q', handed) := by
  cases hadd : q.addTuple QM recvTime tuples with
  | error e => simp [step, call, hadd, Except.map] at h
  | ok r =>
    obtain ⟨q₁, handed⟩ := r
    simp only [step, call, hadd, Except.map, Except.ok.injEq] at h
    exact ⟨handed, by rw [← h]⟩

/-- A call of `addTuple` fails only where it reads out of range. -/
theorem step_addTuple_fault {q : Queue} {QM : QueueManager} {recvTime : Int} {tuples : List Tuple}
    {e : Fault} (h : q.step (.addTuple QM recvTime tuples) = .error e) : e = .outOfRange := by
  cases hadd : q.addTuple QM recvTime tuples with
  | error e' =>
    obtain rfl : e' = e := by simpa [step, call, hadd, Except.map] using h
    exact addTuple_fault hadd
  | ok r => simp [step, call, hadd, Except.map] at h

@[simp] theorem step_deleteQueue (q : Queue) (now : Int) :
    q.step (.deleteQueue now) = q.deleteQueue now := by
  cases h : q.deleteQueue now <;> simp [step, call, h, Except.map]

@[simp] theorem step_addListener (q : Queue) (ope : Operator) :
    q.step (.addListener ope) = .ok (q.addListener ope) := rfl

@[simp] theorem step_addReferrer (q : Queue) (ope : Operator) :
    q.step (.addReferrer ope) = .ok (q.addReferrer ope) := rfl

/-- A count window on another stream is handed a scan of that stream's queue. -/
theorem countTupleSet_other {q target : Queue} {w : WindowOperator} {ts : TupleSet}
    (h : w.streamName ≠ q.streamName) :
    (q.countTupleSet [(w.streamName, target)] w ts).tuples =
      Scan.scan (recvVerdict target.max_worker_thread w.lastRecvTime) w.limit
        target.queue.reverse := by
  rw [countTupleSet, if_neg h]
  by_cases hpartition : 0 < w.getNumPartitionSize
  · simp [WindowOperator.limit, hpartition, QueueManager.getTupleSetAll, getTupleSetAll]
  · simp [WindowOperator.limit, hpartition, QueueManager.getTupleSetNum, getTupleSetNum]

end Queue

end IS

import Dm20.Queue.Retention

open Run

namespace IS

namespace Queue

/-- A batch that was added, by its place among all tuples added, and what one
listener received in its processing. -/
structure Processed where
  before : Nat
  size : Nat
  handed : Option TupleSet

/-- The batch of a call, if it adds one, with what the listener at an index received. -/
def Processed.ofCall (k : Nat) (h : History) (handed : List (Option TupleSet)) : Op → List Processed
  | .addTuple _ _ tuples => [⟨h.added.length, tuples.length, handed[k]?.join⟩]
  | _ => []

/-- Runs the calls and lists, for each batch, what the listener at an index received. -/
def process (k : Nat) : Queue × History → List Op → Except Fault ((Queue × History) × List Processed)
  | s, [] => .ok (s, [])
  | s, op :: ops => do
    let (q', handed) ← s.1.call op
    let (s', rest) ← process k (q', s.2.record s.1 op) ops
    .ok (s', Processed.ofCall k s.2 handed op ++ rest)

/-- The processing of a batch hands over the tuples with the given arrival
numbers, among them the newest `n` of the batch. -/
def HandsOver (n : Int) (added : List Tuple) (batch : Processed) (arrivals : List Nat) : Prop :=
  (∃ ts, batch.handed = some ts ∧ ts.tuples.map some = arrivals.map (added[·]?)) ∧
    ∀ p : Nat, batch.before ≤ p → p < batch.before + batch.size →
      (batch.before + batch.size : Int) ≤ p + n → p ∈ arrivals

/-- Each batch is handed over in its processing, and no tuple is handed over twice. -/
def ExactlyOnce (n : Int) (added : List Tuple) (batches : List Processed) : Prop :=
  ∃ arrivals, List.Forall₂ (HandsOver n added) batches arrivals ∧ arrivals.flatten.Nodup

/-- The clock reading of an addition. -/
def Op.recvTime : Op → Option Int
  | .addTuple _ recvTime _ => some recvTime
  | _ => none

/-- Each batch that is not empty is received later than the batch before it, the
first one later than the given time. -/
def ReceivedLater : Int → List Op → Prop
  | _, [] => True
  | mark, .addTuple _ recvTime tuples :: ops =>
    (tuples ≠ [] → mark < recvTime) ∧ ReceivedLater recvTime ops
  | mark, .deleteQueue _ :: ops => ReceivedLater mark ops
  | mark, .addListener _ :: ops => ReceivedLater mark ops
  | mark, .addReferrer _ :: ops => ReceivedLater mark ops

/-- In every state the queue holds the tuples added from some position on. -/
def Numbered (s : Queue × History) : Prop :=
  ∃ d, d ≤ s.2.added.length ∧ s.1.queue = s.2.added.drop d

/-- The tuples stay numbered by their arrival, whatever is deleted at the front. -/
theorem Numbered.step {s s' : Queue × History} {op : Op} (h : Numbered s)
    (hstep : stepHistory s op = .ok s') : Numbered s' := by
  obtain ⟨q', h'⟩ := s'
  obtain ⟨hcall, rfl⟩ := stepHistory_ok hstep
  obtain ⟨d, hd, hqueue⟩ := h
  cases op with
  | addTuple QM recvTime tuples =>
    obtain ⟨handed, hadd⟩ := step_addTuple_ok hcall
    obtain ⟨notified, _, rfl, _⟩ := addTuple_spec hadd
    refine ⟨d, ?_, ?_⟩
    · simp only [History.record, List.length_append]
      omega
    · change s.1.queue ++ _ = (s.2.added ++ _).drop d
      rw [List.drop_append_of_le_length hd, hqueue]
  | deleteQueue now =>
    rw [step_deleteQueue] at hcall
    obtain ⟨k, hk⟩ := (deleteQueue_frame hcall).suffix
    refine ⟨min (d + k) s.2.added.length, by simp [History.record], ?_⟩
    change q'.queue = s.2.added.drop _
    rw [hk, hqueue, List.drop_drop]
    rcases Nat.le_total (d + k) s.2.added.length with hle | hle
    · rw [Nat.min_eq_left hle]
    · rw [Nat.min_eq_right hle, List.drop_eq_nil_of_le hle, List.drop_length]
  | addListener ope =>
    obtain rfl : s.1.addListener ope = q' := by simpa using hcall
    exact ⟨d, hd, hqueue⟩
  | addReferrer ope =>
    obtain rfl : s.1.addReferrer ope = q' := by simpa using hcall
    exact ⟨d, hd, hqueue⟩

/-- Every tuple added so far was received no later than the given times. -/
def ReceivedBy (added : List Tuple) (times : List Int) : Prop :=
  ∀ t ∈ added, ∀ c ∈ times, t.recvTime ≤ c

/-- With a clock that does not go back, no later call has an earlier time of reception. -/
theorem ReceivedBy.step {s s' : Queue × History} {op : Op} {ops : List Op}
    (h : ReceivedBy s.2.added ((op :: ops).filterMap Op.recvTime))
    (hclock : ((op :: ops).filterMap Op.recvTime).Pairwise (· ≤ ·))
    (hstep : stepHistory s op = .ok s') :
    ReceivedBy s'.2.added (ops.filterMap Op.recvTime) ∧
      (ops.filterMap Op.recvTime).Pairwise (· ≤ ·) := by
  obtain ⟨_, hrecord⟩ := stepHistory_ok hstep
  rw [hrecord]
  cases op with
  | addTuple QM recvTime tuples =>
    have hcons : (Op.addTuple QM recvTime tuples :: ops).filterMap Op.recvTime =
        recvTime :: ops.filterMap Op.recvTime := List.filterMap_cons_some rfl
    rw [hcons] at h hclock
    obtain ⟨hhead, htail⟩ := List.pairwise_cons.mp hclock
    refine ⟨?_, htail⟩
    intro t ht c hc
    rcases List.mem_append.mp ht with ht | ht
    · exact h t ht c (List.mem_cons_of_mem _ hc)
    · obtain ⟨u, _, rfl⟩ := List.mem_map.mp ht
      rw [stamp_recvTime]
      exact hhead c hc
  | deleteQueue now => exact ⟨h, hclock⟩
  | addListener ope => exact ⟨h, hclock⟩
  | addReferrer ope => exact ⟨h, hclock⟩

/-- The state from which a count window at index `k` is served: it listens to its
own queue and asks for some rows. -/
structure Listening (k : Nat) (w : WindowOperator) (s : Queue × History) : Prop where
  numbered : Numbered s
  listener : s.1.listenerOperatorList[k]? = some (.window w)
  streamName : w.streamName = s.1.streamName
  num : 0 < w.num

private theorem countTupleSet_tuples {q : Queue} {QM : QueueManager} {w : WindowOperator} {ts : TupleSet}
    (hstream : w.streamName = q.streamName) :
    (q.countTupleSet QM w ts).tuples =
      Scan.scan (recvVerdict q.max_worker_thread w.lastRecvTime) w.limit
        q.queue.reverse := by
  rw [countTupleSet, if_pos hstream]
  by_cases hpartition : 0 < w.getNumPartitionSize
  · simp [WindowOperator.limit, hpartition, getTupleSetAll]
  · simp [WindowOperator.limit, hpartition, getTupleSetNum]

/-- Adding a batch hands the window the tuples its scan collects from the queue with
the batch, and sets its mark to the reading. -/
theorem Listening.addTuple {k : Nat} {w : WindowOperator} {s : Queue × History}
    (h : Listening k w s) {q' : Queue} {QM : QueueManager} {recvTime : Int} {tuples : List Tuple}
    {handed : List (Option TupleSet)} (hadd : s.1.addTuple QM recvTime tuples = .ok (q', handed)) :
    Listening k (w.setLastRecvTime recvTime) (q', s.2.record s.1 (.addTuple QM recvTime tuples)) ∧
      ∃ d ts, d ≤ s.2.added.length ∧ handed[k]?.join = some ts ∧
        ts.tuples = Scan.scan (recvVerdict s.1.max_worker_thread w.lastRecvTime)
          w.limit
          ((s.2.added ++ tuples.map (stamp s.1.schema recvTime)).drop d).reverse := by
  have hstep : stepHistory s (.addTuple QM recvTime tuples) =
      .ok (q', s.2.record s.1 (.addTuple QM recvTime tuples)) := by
    simp [stepHistory, Queue.step, call, hadd, Except.map]
  have hnumbered := h.numbered.step hstep
  obtain ⟨notified, hnotified, rfl, rfl⟩ := addTuple_spec hadd
  obtain ⟨d, hd, hqueue⟩ := h.numbered
  obtain ⟨hk, hget⟩ := List.getElem?_eq_some_iff.mp h.listener
  have hk' : k < notified.length := by rw [← hnotified.length_eq]; exact hk
  have hresult := hnotified.get hk hk'
  rw [List.get_eq_getElem, hget] at hresult
  simp only [notify, gt_iff_lt, h.num, if_true, Except.ok.injEq] at hresult
  have hresult' : notified[k] = (.window (w.setLastRecvTime recvTime),
      some ((s.1.enqueue recvTime tuples).countTupleSet QM w { type := .master, recvTime })) :=
    hresult.symm
  refine ⟨⟨hnumbered, ?_, h.streamName, h.num⟩, d,
    (s.1.enqueue recvTime tuples).countTupleSet QM w { type := .master, recvTime }, hd, ?_, ?_⟩
  · simp [List.getElem?_eq_getElem hk', hresult']
  · simp [List.getElem?_eq_getElem hk', hresult']
  · rw [countTupleSet_tuples (q := s.1.enqueue recvTime tuples) h.streamName,
      List.drop_append_of_le_length hd, ← hqueue]
    rfl

/-- Calls other than an addition leave the window as it is. -/
theorem Listening.other {k : Nat} {w : WindowOperator} {s s' : Queue × History} {op : Op}
    (h : Listening k w s) (hop : op.recvTime = none) (hstep : stepHistory s op = .ok s') :
    Listening k w s' := by
  have hnumbered := h.numbered.step hstep
  obtain ⟨q', h'⟩ := s'
  obtain ⟨hcall, rfl⟩ := stepHistory_ok hstep
  cases op with
  | addTuple QM recvTime tuples => cases hop
  | deleteQueue now =>
    rw [step_deleteQueue] at hcall
    have hframe := deleteQueue_frame hcall
    refine ⟨hnumbered, ?_, ?_, h.num⟩
    · rw [hframe.listenerOperatorList]
      exact h.listener
    · rw [hframe.streamName]
      exact h.streamName
  | addListener ope =>
    obtain rfl : s.1.addListener ope = q' := by simpa using hcall
    refine ⟨hnumbered, ?_, h.streamName, h.num⟩
    obtain ⟨hk, _⟩ := List.getElem?_eq_some_iff.mp h.listener
    change (s.1.listenerOperatorList ++ [ope])[k]? = _
    rw [List.getElem?_append_left hk]
    exact h.listener
  | addReferrer ope =>
    obtain rfl : s.1.addReferrer ope = q' := by simpa using hcall
    exact ⟨hnumbered, h.listener, h.streamName, h.num⟩

/-- The processing of a sequence of calls, call by call. -/
theorem process_cons {k : Nat} {s s' : Queue × History} {op : Op} {ops : List Op}
    {batches : List Processed} (h : process k s (op :: ops) = .ok (s', batches)) :
    ∃ s₁ handed rest, s.1.call op = .ok (s₁.1, handed) ∧ stepHistory s op = .ok s₁ ∧
      process k s₁ ops = .ok (s', rest) ∧ batches = Processed.ofCall k s.2 handed op ++ rest := by
  rw [process, Except.bind_eq_ok_iff] at h
  obtain ⟨⟨q₁, handed⟩, hcall, h⟩ := h
  rw [Except.bind_eq_ok_iff] at h
  obtain ⟨⟨s'', rest⟩, hrest, h⟩ := h
  simp only [Except.ok.injEq, Prod.mk.injEq] at h
  obtain ⟨rfl, rfl⟩ := h
  refine ⟨(q₁, s.2.record s.1 op), handed, rest, hcall, ?_, hrest, rfl⟩
  simp [stepHistory, Queue.step, hcall, Except.map]

/-- The tuples that were added stay at the front of those added after more operations. -/
private theorem process_extends {k : Nat} {s s' : Queue × History} {ops : List Op} {batches : List Processed}
    (h : process k s ops = .ok (s', batches)) : s.2.added <+: s'.2.added := by
  induction ops generalizing s batches with
  | nil =>
    obtain ⟨rfl, _⟩ : s = s' ∧ [] = batches := by simpa [process] using h
    exact List.prefix_refl _
  | cons op ops ih =>
    obtain ⟨s₁, handed, rest, _, hstep, hrest, _⟩ := process_cons h
    obtain ⟨_, hrecord⟩ := stepHistory_ok hstep
    refine List.IsPrefix.trans ?_ (ih hrest)
    rw [hrecord]
    cases op with
    | addTuple QM recvTime tuples => exact List.prefix_append _ _
    | deleteQueue now => exact List.prefix_refl _
    | addListener ope => exact List.prefix_refl _
    | addReferrer ope => exact List.prefix_refl _

/-- A call receives its tuples after all that were received before. -/
theorem ReceivedBy.addTuple {s : Queue × History} {QM : QueueManager} {recvTime : Int}
    {tuples : List Tuple} {ops : List Op}
    (h : ReceivedBy s.2.added ((Op.addTuple QM recvTime tuples :: ops).filterMap Op.recvTime)) :
    ∀ t ∈ s.2.added ++ tuples.map (stamp s.1.schema recvTime), t.recvTime ≤ recvTime := by
  intro t ht
  rcases List.mem_append.mp ht with hold | hnew
  · exact h t hold recvTime (by simp [Op.recvTime])
  · obtain ⟨u, _, rfl⟩ := List.mem_map.mp hnew
    rw [stamp_recvTime]

/-- A batch received after the mark of the window is handed over as far as the rows of
the window go. -/
theorem handsOver_of_later {w : WindowOperator} (hnum : 0 < w.num) {workers recvTime : Int}
    {old tuples more : List Tuple} {schema : Schema} {d : Nat} (hd : d ≤ old.length)
    (hlater : tuples ≠ [] → w.lastRecvTime < recvTime)
    (hextends : old ++ tuples.map (stamp schema recvTime) <+: more) {ts : TupleSet}
    (htuples : ts.tuples = Scan.scan (recvVerdict workers w.lastRecvTime) w.limit
      ((old ++ tuples.map (stamp schema recvTime)).drop d).reverse) :
    HandsOver w.num more ⟨old.length, tuples.length, some ts⟩
      (Scan.positions (recvVerdict workers w.lastRecvTime) w.limit d
        (old ++ tuples.map (stamp schema recvTime))) := by
  refine ⟨⟨ts, rfl, ?_⟩, ?_⟩
  · rw [htuples]
    exact Scan.map_getElem?_extend hextends (Scan.scan_map_some _ _ _ _)
  · intro p hle hlt hnewest
    simp only at hle hlt hnewest
    refine Scan.mem_positions_of_newest (n := w.num.toNat) hd ?_ ?_ hle ?_ ?_
    · intro t ht
      obtain ⟨u, hu, rfl⟩ := List.mem_map.mp ht
      rw [recvVerdict_eq_take_iff, stamp_recvTime]
      exact hlater (List.ne_nil_of_mem hu)
    · intro m hm
      unfold WindowOperator.limit at hm
      split at hm
      · cases hm
      · obtain rfl : w.num.toNat = m := by simpa using hm
        omega
    · simpa using hlt
    · simp only [List.length_map]
      omega

/-- Batches received each later than the last are each handed over, no tuple twice, and
a tuple from before the run only where it was received after the mark of the window. -/
theorem Listening.exactlyOnce {k : Nat} {w : WindowOperator} {s s' : Queue × History}
    (h : Listening k w s) {ops : List Op}
    (hclock : (ops.filterMap Op.recvTime).Pairwise (· ≤ ·))
    (hreceived : ReceivedBy s.2.added (ops.filterMap Op.recvTime))
    (hlater : ReceivedLater w.lastRecvTime ops) {batches : List Processed}
    (hprocess : process k s ops = .ok (s', batches)) :
    ∃ arrivals, List.Forall₂ (HandsOver w.num s'.2.added) batches arrivals ∧
      arrivals.flatten.Nodup ∧
      ∀ p ∈ arrivals.flatten, ∀ t, s.2.added[p]? = some t → w.lastRecvTime < t.recvTime := by
  induction ops generalizing s w batches with
  | nil =>
    obtain ⟨_, rfl⟩ : s = s' ∧ [] = batches := by simpa [process] using hprocess
    exact ⟨[], .nil, by simp, by simp⟩
  | cons op ops ih =>
    obtain ⟨s₁, handed, rest, hcall, hstep, hrest, rfl⟩ := process_cons hprocess
    obtain ⟨hreceived', hclock'⟩ := hreceived.step hclock hstep
    cases op with
    | addTuple QM recvTime tuples =>
      obtain ⟨q₁, h₁⟩ := s₁
      obtain ⟨_, rfl⟩ := stepHistory_ok hstep
      obtain ⟨hlistening, d, ts, hd, hhanded, htuples⟩ := h.addTuple hcall
      obtain ⟨arrivals, hforall, hnodup, hmark⟩ := ih hlistening hclock' hreceived' hlater.2 hrest
      have hnow := handsOver_of_later h.num hd hlater.1 (process_extends hrest) htuples
      rw [← hhanded] at hnow
      -- what the rest of the run hands over was added after this batch
      have hnew : ∀ p ∈ arrivals.flatten, ∀ t,
          (s.2.added ++ tuples.map (stamp s.1.schema recvTime))[p]? = some t → False := by
        intro p hp t ht
        have hlt := hmark p hp t ht
        have hle := hreceived.addTuple t (List.mem_of_getElem? ht)
        simp only [WindowOperator.setLastRecvTime] at hlt
        omega
      refine ⟨_, .cons hnow hforall, ?_, ?_⟩
      · rw [List.flatten_cons, List.nodup_append]
        refine ⟨Scan.nodup_positions _ _ _ _, hnodup, ?_⟩
        intro p hp p' hp' heq
        subst heq
        obtain ⟨t, ht, _⟩ := Scan.mem_positions hp
        exact hnew p hp' t ht
      · intro p hp t ht
        have hlt := (List.getElem?_eq_some_iff.mp ht).1
        have ht' : (s.2.added ++ tuples.map (stamp s.1.schema recvTime))[p]? = some t := by
          rw [List.getElem?_append_left hlt, ht]
        rw [List.flatten_cons, List.mem_append] at hp
        rcases hp with hp | hp
        · obtain ⟨u, hu, htake⟩ := Scan.mem_positions hp
          obtain rfl : u = t := by simpa [ht'] using hu.symm
          exact recvVerdict_eq_take_iff.mp htake
        · exact (hnew p hp t ht').elim
    | deleteQueue now =>
      obtain ⟨q₁, h₁⟩ := s₁
      obtain ⟨_, rfl⟩ := stepHistory_ok hstep
      exact ih (h.other rfl hstep) hclock' hreceived' hlater hrest
    | addListener ope =>
      obtain ⟨q₁, h₁⟩ := s₁
      obtain ⟨_, rfl⟩ := stepHistory_ok hstep
      exact ih (h.other rfl hstep) hclock' hreceived' hlater hrest
    | addReferrer ope =>
      obtain ⟨q₁, h₁⟩ := s₁
      obtain ⟨_, rfl⟩ := stepHistory_ok hstep
      exact ih (h.other rfl hstep) hclock' hreceived' hlater hrest

/-- A batch of some tuples hands over some: a window of one row at least is never empty then. -/
theorem HandsOver.handed_ne_nil {n : Int} {added : List Tuple} {batch : Processed}
    {arrivals : List Nat} (h : HandsOver n added batch arrivals) (hn : 0 < n)
    (hsize : 0 < batch.size) : ∃ ts, batch.handed = some ts ∧ ts.tuples ≠ [] := by
  obtain ⟨⟨ts, hts, hmap⟩, hnewest⟩ := h
  refine ⟨ts, hts, ?_⟩
  intro hnil
  have hmem := hnewest (batch.before + batch.size - 1) (by omega) (by omega) (by omega)
  rw [hnil, List.map_nil, eq_comm, List.map_eq_nil_iff] at hmap
  rw [hmap] at hmem
  cases hmem

/-- Where every batch is handed over, each batch that is not empty was received after
the mark of the window. -/
theorem Listening.receivedLater {k : Nat} {w : WindowOperator} {s s' : Queue × History}
    (h : Listening k w s) {ops : List Op}
    (hclock : (ops.filterMap Op.recvTime).Pairwise (· ≤ ·))
    (hreceived : ReceivedBy s.2.added (ops.filterMap Op.recvTime)) {batches : List Processed}
    (hprocess : process k s ops = .ok (s', batches)) {added : List Tuple} {arrivals : List (List Nat)}
    (hforall : List.Forall₂ (HandsOver w.num added) batches arrivals) :
    ReceivedLater w.lastRecvTime ops := by
  induction ops generalizing s w batches arrivals with
  | nil => trivial
  | cons op ops ih =>
    obtain ⟨s₁, handed, rest, hcall, hstep, hrest, rfl⟩ := process_cons hprocess
    obtain ⟨hreceived', hclock'⟩ := hreceived.step hclock hstep
    cases op with
    | addTuple QM recvTime tuples =>
      obtain ⟨q₁, h₁⟩ := s₁
      obtain ⟨_, rfl⟩ := stepHistory_ok hstep
      obtain ⟨hlistening, d, ts, hd, hhanded, htuples⟩ := h.addTuple hcall
      cases hforall with
      | cons hnow hlater =>
        refine ⟨?_, ih hlistening hclock' hreceived' hrest hlater⟩
        intro hne
        by_contra hmark
        have hnil : ts.tuples = [] := by
          rw [htuples]
          apply Scan.scan_eq_nil
          intro t ht htake
          have hlt := recvVerdict_eq_take_iff.mp htake
          have hle := hreceived.addTuple t (List.mem_of_mem_drop (List.mem_reverse.mp ht))
          omega
        obtain ⟨ts', hts', hsome⟩ := hnow.handed_ne_nil h.num (List.length_pos_iff.mpr hne)
        obtain rfl : ts = ts' := by simpa [hhanded] using hts'
        exact hsome hnil
    | deleteQueue now => exact ih (h.other rfl hstep) hclock' hreceived' hrest hforall
    | addListener ope => exact ih (h.other rfl hstep) hclock' hreceived' hrest hforall
    | addReferrer ope => exact ih (h.other rfl hstep) hclock' hreceived' hrest hforall

/-- In a run by a clock that does not go back, all that was added was received by the time of
what comes next. -/
private theorem receivedBy_run {s s' : Queue × History} {ops more : List Op}
    (h : ReceivedBy s.2.added ((ops ++ more).filterMap Op.recvTime))
    (hclock : ((ops ++ more).filterMap Op.recvTime).Pairwise (· ≤ ·))
    (hrun : run stepHistory s ops = .ok s') :
    ReceivedBy s'.2.added (more.filterMap Op.recvTime) ∧
      (more.filterMap Op.recvTime).Pairwise (· ≤ ·) := by
  induction ops generalizing s with
  | nil =>
    obtain rfl : s = s' := by simpa [run] using hrun
    exact ⟨h, hclock⟩
  | cons op ops ih =>
    cases hstep : stepHistory s op with
    | ok s₁ =>
      have hhead : ReceivedBy s.2.added ((op :: (ops ++ more)).filterMap Op.recvTime) := h
      obtain ⟨hreceived, hclock'⟩ := hhead.step hclock hstep
      exact ih hreceived hclock' (by simpa [run, hstep] using hrun)
    | error e => simp [run, hstep] at hrun

/-- No operation renames the stream of a queue. -/
private theorem streamName_step {s s' : Queue × History} {op : Op} (hstep : stepHistory s op = .ok s') :
    s'.1.streamName = s.1.streamName := by
  obtain ⟨q', h'⟩ := s'
  obtain ⟨hcall, rfl⟩ := stepHistory_ok hstep
  cases op with
  | addTuple QM recvTime tuples =>
    obtain ⟨handed, hadd⟩ := step_addTuple_ok hcall
    obtain ⟨notified, _, rfl, _⟩ := addTuple_spec hadd
    rfl
  | deleteQueue now =>
    rw [step_deleteQueue] at hcall
    exact (deleteQueue_frame hcall).streamName
  | addListener ope =>
    obtain rfl : s.1.addListener ope = q' := by simpa using hcall
    rfl
  | addReferrer ope =>
    obtain rfl : s.1.addReferrer ope = q' := by simpa using hcall
    rfl

/-- A count window is registered after any calls on its queue, and further calls
follow, with clock readings that do not decrease over both. Every batch from then on
is handed to it as far as its rows go, and no tuple twice, if and only if each batch
that is not empty was received later than the batch processed before it. -/
theorem exactlyOnce_iff_receivedLater {q : Queue} (hfresh : q.Fresh) {earlier ops : List Op}
    {s s' : Queue × History} (hrun : run stepHistory (q, {}) earlier = .ok s) {w : WindowOperator}
    (hnum : 0 < w.num) (hstream : w.streamName = q.streamName) (hmark : w.lastRecvTime = 0)
    (hclock : ((earlier ++ ops).filterMap Op.recvTime).Pairwise (· ≤ ·)) {batches : List Processed}
    (hprocess : process s.1.listenerOperatorList.length (s.1.addListener (.window w), s.2) ops =
      .ok (s', batches)) :
    ExactlyOnce w.num s'.2.added batches ↔ ReceivedLater 0 ops := by
  obtain ⟨d, hd, hqueue⟩ : Numbered s :=
    run_invariant (fun _ _ _ h hstep => h.step hstep) ⟨0, by simp, by simp [hfresh.1]⟩ hrun
  have hname : s.1.streamName = q.streamName :=
    run_invariant (P := fun s => s.1.streamName = q.streamName)
      (fun _ _ _ h hstep => (streamName_step hstep).trans h) rfl hrun
  obtain ⟨hreceived, hclock'⟩ := receivedBy_run (s := (q, {})) (by simp [ReceivedBy]) hclock hrun
  have hlistening : Listening s.1.listenerOperatorList.length w
      (s.1.addListener (.window w), s.2) := by
    refine ⟨⟨d, hd, hqueue⟩, ?_, ?_, hnum⟩
    · simp [addListener]
    · exact hstream.trans hname.symm
  rw [← hmark]
  constructor
  · intro ⟨arrivals, hforall, _⟩
    exact hlistening.receivedLater hclock' hreceived hprocess hforall
  · intro hlater
    obtain ⟨arrivals, hforall, hnodup, _⟩ :=
      hlistening.exactlyOnce hclock' hreceived hlater hprocess
    exact ⟨arrivals, hforall, hnodup⟩

/-- A window of one row on the stream `s`. -/
def oneRowWindow : WindowOperator :=
  { streamName := "s".toList, num := 1 }

/-- Two batches of one tuple. -/
def twoBatches (first second : Int) : List Op :=
  [.addTuple [] first [sampleTuple 1000], .addTuple [] second [sampleTuple 1000]]

/-- Two batches at a window of one row, the second one received a microsecond after the first. -/
theorem exactlyOnce_iff_receivedLater_twoBatches :
    ∃ s' batches, process 0 (oneRowQueue.addListener (.window oneRowWindow), {})
        (twoBatches 1000000 1000001) = .ok (s', batches) ∧
      (ExactlyOnce oneRowWindow.num s'.2.added batches ↔
        ReceivedLater 0 (twoBatches 1000000 1000001)) := by
  cases h : process 0 (oneRowQueue.addListener (.window oneRowWindow), {})
      (twoBatches 1000000 1000001) with
  | error e =>
    have hok : (process 0 (oneRowQueue.addListener (.window oneRowWindow), {})
      (twoBatches 1000000 1000001)).isOk = true := by decide
    simp [h, Except.isOk, Except.toBool] at hok
  | ok r =>
    have hrun : run stepHistory (oneRowQueue, {}) [] = .ok (oneRowQueue, {}) := rfl
    exact ⟨r.1, r.2, rfl, exactlyOnce_iff_receivedLater oneRowQueue_fresh hrun (by decide) rfl rfl
      (by decide) h⟩

/-- A second batch at the same clock reading is not handed over. -/
theorem sameReading_not_exactlyOnce :
    oneRowQueue.Fresh ∧ ((twoBatches 1000000 1000000).filterMap Op.recvTime).Pairwise (· ≤ ·) ∧
      ∃ s' batches, process 0 (oneRowQueue.addListener (.window oneRowWindow), {})
          (twoBatches 1000000 1000000) = .ok (s', batches) ∧
        ¬ ExactlyOnce oneRowWindow.num s'.2.added batches := by
  refine ⟨oneRowQueue_fresh, by decide, ?_⟩
  have hsummary : (process 0 (oneRowQueue.addListener (.window oneRowWindow), {})
      (twoBatches 1000000 1000000)).toOption.map (fun r =>
        r.2.map fun b => (b.size, b.handed.map TupleSet.size)) =
      some [(1, some 1), (1, some 0)] := by decide
  cases h : process 0 (oneRowQueue.addListener (.window oneRowWindow), {})
      (twoBatches 1000000 1000000) with
  | error e => simp [h, Except.toOption] at hsummary
  | ok r =>
    obtain ⟨s', batches⟩ := r
    refine ⟨s', batches, rfl, ?_⟩
    rintro ⟨arrivals, hforall, _⟩
    simp only [h, Except.toOption, Option.map_some, Option.some.injEq] at hsummary
    obtain ⟨first, rest, rfl, -, hrest⟩ := List.map_eq_cons_iff.mp hsummary
    obtain ⟨b, hlast, hb⟩ := List.map_eq_singleton_iff.mp hrest
    subst hlast
    obtain ⟨hsize, hhanded⟩ := Prod.mk.inj hb
    rcases hforall with _ | ⟨-, _ | ⟨hdelivered, -⟩⟩
    obtain ⟨ts, hts, hne⟩ := hdelivered.handed_ne_nil (by decide) (by omega)
    rw [hts, Option.map_some, Option.some.injEq] at hhanded
    exact hne (List.length_eq_zero_iff.mp hhanded)

end Queue

end IS

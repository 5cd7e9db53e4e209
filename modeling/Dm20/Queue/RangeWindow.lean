import Dm20.Queue.State

namespace IS

namespace Queue

/-- A tuple is in a range: its newest timestamp is at most the reference time, and every
visible column is later than the start of the range and than what was notified. -/
def InRange (schema : Schema) (rangeMsec notifiedTime referenceTime : Int) (t : Tuple) : Prop :=
  t.getNewestTimestamp ≤ referenceTime ∧
    ∀ i (h : i < t.columns.length), (schema.getAttribute i).hidden = false →
      max (referenceTime - rangeMsec) notifiedTime < t.columns[i].timestamp

instance (schema : Schema) (rangeMsec notifiedTime referenceTime : Int) (t : Tuple) :
    Decidable (InRange schema rangeMsec notifiedTime referenceTime t) :=
  decidable_of_iff
    (t.getNewestTimestamp ≤ referenceTime ∧
      t.checkTimestamp (max (referenceTime - rangeMsec) notifiedTime) schema = true)
    (and_congr_right fun _ => t.checkTimestamp_iff _ schema)

/-- A queue in the order a range retrieval relies on: of the tuples up to the reference
time, one that is out of the range did not arrive after one that is in it. -/
def RangeOrdered (schema : Schema) (rangeMsec notifiedTime referenceTime : Int)
    (queue : List Tuple) : Prop :=
  queue.Pairwise fun t u => InRange schema rangeMsec notifiedTime referenceTime t →
    u.getNewestTimestamp ≤ referenceTime → InRange schema rangeMsec notifiedTime referenceTime u

/-- The scan takes a tuple just where its time is in the range, and later than what the last
notification went up to. -/
theorem rangeVerdict_eq_take_iff {schema : Schema} {rangeMsec notifiedTime referenceTime : Int}
    {t : Tuple} : rangeVerdict schema rangeMsec notifiedTime referenceTime t = .take ↔
      InRange schema rangeMsec notifiedTime referenceTime t := by
  unfold rangeVerdict InRange
  rw [← Tuple.checkTimestamp_iff]
  split_ifs with hnewest hcheck <;> simp [hnewest]
  · exact hcheck
  · simpa using hcheck

private theorem rangeVerdict_eq_skip_iff {schema : Schema} {rangeMsec notifiedTime referenceTime : Int}
    {t : Tuple} : rangeVerdict schema rangeMsec notifiedTime referenceTime t = .skip ↔
      referenceTime < t.getNewestTimestamp := by
  unfold rangeVerdict
  split_ifs with hnewest hcheck <;> simp <;> omega

/-- A range retrieval returns exactly the tuples in the range, newest arrival first, if
and only if no tuple that is out of the range arrived after one that is in it. -/
theorem getTupleSetRange_eq_iff (q : Queue) (rangeMsec notifiedTime referenceTime : Int)
    (ts : TupleSet) :
    (q.getTupleSetRange rangeMsec notifiedTime referenceTime ts).tuples =
        ts.tuples ++
          (q.queue.filter (InRange q.schema rangeMsec notifiedTime referenceTime ·)).reverse ↔
      RangeOrdered q.schema rangeMsec notifiedTime referenceTime q.queue := by
  have hskip : (q.queue.reverse.filter fun t =>
      rangeVerdict q.schema rangeMsec notifiedTime referenceTime t != .skip) =
      (q.queue.filter fun t => decide (t.getNewestTimestamp ≤ referenceTime)).reverse := by
    rw [List.filter_reverse]
    congr 1
    apply List.filter_congr
    intro t _
    rw [Bool.eq_iff_iff, bne_iff_ne, ne_eq, rangeVerdict_eq_skip_iff, decide_eq_true_eq, not_lt]
  have htake : (fun t => rangeVerdict q.schema rangeMsec notifiedTime referenceTime t == .take) =
      fun t => decide (InRange q.schema rangeMsec notifiedTime referenceTime t) := by
    funext t
    rw [Bool.eq_iff_iff, beq_iff_eq, rangeVerdict_eq_take_iff, decide_eq_true_eq]
  have hfilter : (q.queue.filter (InRange q.schema rangeMsec notifiedTime referenceTime ·)).reverse =
      (q.queue.filter fun t => decide (t.getNewestTimestamp ≤ referenceTime)).reverse.filter
        (InRange q.schema rangeMsec notifiedTime referenceTime ·) := by
    rw [List.filter_reverse, List.filter_filter]
    congr 1
    apply List.filter_congr
    intro t _
    by_cases ht : InRange q.schema rangeMsec notifiedTime referenceTime t
    · simp [ht, ht.1]
    · simp [ht]
  rw [getTupleSetRange, List.append_cancel_left_eq, Scan.scan_none, Scan.selected_eq_takeWhile, hskip,
    htake, hfilter, Scan.takeWhile_eq_filter_iff, List.pairwise_reverse, RangeOrdered,
    List.pairwise_filter]
  constructor
  · intro h
    refine h.imp ?_
    intro t u hpair ht hu
    simpa using hpair (by simpa using ht.1) (by simpa using hu) (by simpa using ht)
  · intro h
    refine h.imp ?_
    intro t u hpair _ hu ht
    simpa using hpair (by simpa using ht) (by simpa using hu)

/-- A queue with a current tuple and, behind it, one that arrived late. -/
def lateQueue : Queue :=
  { streamName := "s".toList, queue := [{ columns := [{ timestamp := 9000 }] },
      { columns := [{ timestamp := 1000 }] }] }

/-- The late tuple hides the current one from a retrieval of the last five seconds. -/
theorem lateQueue_hides :
    (lateQueue.getTupleSetRange 5000 0 10000 {}).tuples ≠
      (lateQueue.queue.filter (InRange lateQueue.schema 5000 0 10000 ·)).reverse := by
  intro h
  have hlength := congrArg List.length h
  exact absurd hlength (by decide)

end Queue

end IS

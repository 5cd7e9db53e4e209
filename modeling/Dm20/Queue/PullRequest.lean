import Dm20.Queue.RangeWindow
import Dm20.Queue.AddTuple

open Scan

namespace IS

namespace WindowOperator

/-- The tuples that a window hands over when data is requested. The reference time comes in
microseconds and goes on in milliseconds. -/
def requestData (QM : QueueManager) (w : WindowOperator) (referenceTime : Int) : TupleSet :=
  let ts : TupleSet := { type := .pull, recvTime := referenceTime }
  let referenceTime := referenceTime.tdiv 1000
  if w.num > 0 then QM.getTupleSetNum w.streamName w.num referenceTime ts
  else QM.getTupleSetRange w.streamName w.msec 0 referenceTime ts

end WindowOperator

namespace QueueManager

/-- The tuples of a stream, in the order in which they arrived. -/
def content (QM : QueueManager) (streamName : Str) : List Tuple :=
  ((QM.lookup streamName).map Queue.queue).getD []

end QueueManager

namespace WindowOperator

/-- A request sees the tuples that were received at or before the reference time, and a
window of rows without a partition the newest of all of them. -/
structure SeesPast (QM : QueueManager) (w : WindowOperator) (referenceTime : Int) : Prop where
  past : ∀ t ∈ (w.requestData QM referenceTime).tuples, t.recvTime ≤ referenceTime
  rows : 0 < w.num → w.partitionList = [] → (w.requestData QM referenceTime).tuples.Perm
    (((QM.content w.streamName).reverse.filter (·.recvTime ≤ referenceTime)).take w.num.toNat)

/-- A tuple received after the reference time is not taken, or lies beyond the end of the search. -/
def OutOfReach (verdict : Tuple → Verdict) (limit : Option Nat) (referenceTime : Int) (queue : List Tuple) : Prop :=
  ∀ newer t older, queue.reverse = newer ++ t :: older → referenceTime < t.recvTime →
    verdict t = .take → Over verdict limit newer

/-- The newest rows were received between the reference time in milliseconds, read as one in
microseconds, and the reference time. -/
def Recent (num referenceTime : Int) (queue : List Tuple) : Prop :=
  ∀ t ∈ queue.reverse.take num.toNat, referenceTime.tdiv 1000 < t.recvTime ∧ t.recvTime ≤ referenceTime

/-- What the queue of a window must be like at a reference time. -/
def Answers (w : WindowOperator) (referenceTime : Int) (q : Queue) : Prop :=
  let verdict := Queue.recvVerdict q.max_worker_thread (referenceTime.tdiv 1000)
  if w.num ≤ 0 then
    OutOfReach (Queue.rangeVerdict q.schema w.msec 0 (referenceTime.tdiv 1000)) none referenceTime q.queue
  else if w.partitionList ≠ [] then OutOfReach verdict (some w.num.toNat) referenceTime q.queue
  else if 0 ≤ referenceTime then Recent w.num referenceTime q.queue
  else OutOfReach verdict (some w.num.toNat) referenceTime q.queue ∧ ∀ t ∈ q.queue, referenceTime < t.recvTime

variable {verdict : Tuple → Verdict} {limit : Option Nat} {referenceTime : Int} {queue : List Tuple}

/-- A search finds only tuples of the past where those of the future are out of its reach. -/
theorem forall_scan_iff : (∀ t ∈ scan verdict limit queue.reverse, t.recvTime ≤ referenceTime) ↔
    OutOfReach verdict limit referenceTime queue := by
  constructor
  · intro h newer t older hqueue hlater htake
    by_contra hover
    have hle := h t (mem_scan_iff.mpr ⟨newer, older, hqueue, htake, hover⟩)
    omega
  · intro h t ht
    obtain ⟨newer, older, hqueue, htake, hover⟩ := mem_scan_iff.mp ht
    by_contra hlater
    exact hover (h newer t older hqueue (by omega) htake)

section Rows

variable {workers : Int} {n : Nat}

/-- After the epoch a search finds the newest tuples of the past where they are the newest of all. -/
theorem perm_newest_iff (hn : 0 < n) (hreference : 0 ≤ referenceTime) :
    (scan (Queue.recvVerdict workers (referenceTime.tdiv 1000)) (some n) queue.reverse).Perm
        ((queue.reverse.filter (·.recvTime ≤ referenceTime)).take n) ↔
      ∀ t ∈ queue.reverse.take n, referenceTime.tdiv 1000 < t.recvTime ∧ t.recvTime ≤ referenceTime := by
  have hmillis : referenceTime.tdiv 1000 ≤ referenceTime := by
    rw [Int.tdiv_eq_ediv_of_nonneg hreference]
    omega
  constructor
  · intro hperm
    have hmem : ∀ t ∈ (queue.reverse.filter (·.recvTime ≤ referenceTime)).take n,
        referenceTime.tdiv 1000 < t.recvTime := fun t ht =>
      Queue.recvVerdict_eq_take_iff.mp (verdict_of_mem_scan (hperm.mem_iff.mpr ht))
    have hpast : ∀ t ∈ scan (Queue.recvVerdict workers (referenceTime.tdiv 1000)) (some n) queue.reverse,
        t.recvTime ≤ referenceTime := fun t ht =>
      of_decide_eq_true (List.mem_filter.mp (List.mem_of_mem_take (hperm.mem_iff.mp ht))).2
    generalize queue.reverse = xs at hmem hpast
    clear hperm
    induction xs generalizing n with
    | nil => simp
    | cons x xs ih =>
      obtain ⟨m, rfl⟩ := Nat.exists_eq_add_of_le' hn
      have hx : x.recvTime ≤ referenceTime := by
        by_contra hlater
        have htake : Queue.recvVerdict workers (referenceTime.tdiv 1000) x = .take :=
          Queue.recvVerdict_eq_take_iff.mpr (by omega)
        exact hlater (hpast x (mem_scan_iff.mpr ⟨[], xs, rfl, htake, not_over_nil _ _⟩))
      have hfilter : (x :: xs).filter (·.recvTime ≤ referenceTime) = x :: xs.filter (·.recvTime ≤ referenceTime) :=
        List.filter_cons_of_pos (by simpa using hx)
      rw [hfilter, List.take_succ_cons, List.forall_mem_cons] at hmem
      rw [List.take_succ_cons, List.forall_mem_cons]
      refine ⟨⟨hmem.1, hx⟩, ?_⟩
      have htake : Queue.recvVerdict workers (referenceTime.tdiv 1000) x = .take :=
        Queue.recvVerdict_eq_take_iff.mpr hmem.1
      rcases Nat.eq_zero_or_pos m with rfl | hm
      · simp
      · have hscan : scan (Queue.recvVerdict workers (referenceTime.tdiv 1000)) (some (m + 1)) (x :: xs) =
            x :: scan (Queue.recvVerdict workers (referenceTime.tdiv 1000)) (some m) xs := by
          simp [scan, htake, show ¬ m = 0 by omega]
        rw [hscan, List.forall_mem_cons] at hpast
        exact ih hm hmem.2 hpast.2
  · intro h
    have hall : (queue.reverse.filter (·.recvTime ≤ referenceTime)).take n = queue.reverse.take n := by
      conv_lhs => rw [← List.take_append_drop n queue.reverse, List.filter_append,
        List.filter_eq_self.mpr fun t ht => decide_eq_true (h t ht).2]
      rcases Nat.le_total n queue.reverse.length with hle | hle
      · rw [List.take_append_of_le_length (by rw [List.length_take]; omega), List.take_take, Nat.min_self]
      · rw [List.drop_eq_nil_of_le hle, List.filter_nil, List.append_nil, List.take_take, Nat.min_self]
    rw [hall, scan_some_of_take hn fun t ht => Queue.recvVerdict_eq_take_iff.mpr (h t ht).1]

/-- Before the epoch a search and the past have no tuple in common. -/
theorem perm_newest_iff_of_neg (hn : 0 < n) (hreference : referenceTime < 0) :
    (scan (Queue.recvVerdict workers (referenceTime.tdiv 1000)) (some n) queue.reverse).Perm
        ((queue.reverse.filter (·.recvTime ≤ referenceTime)).take n) ↔
      OutOfReach (Queue.recvVerdict workers (referenceTime.tdiv 1000)) (some n) referenceTime queue ∧
        ∀ t ∈ queue, referenceTime < t.recvTime := by
  have hmillis : referenceTime ≤ referenceTime.tdiv 1000 := by
    rw [← Int.neg_neg referenceTime, Int.neg_tdiv, Int.tdiv_eq_ediv_of_nonneg (by omega)]
    omega
  have hlater : ∀ t ∈ scan (Queue.recvVerdict workers (referenceTime.tdiv 1000)) (some n) queue.reverse,
      referenceTime < t.recvTime := fun t ht =>
    Int.lt_of_le_of_lt hmillis (Queue.recvVerdict_eq_take_iff.mp (verdict_of_mem_scan ht))
  rw [← forall_scan_iff]
  constructor
  · intro hperm
    have hpast : ∀ t ∈ scan (Queue.recvVerdict workers (referenceTime.tdiv 1000)) (some n) queue.reverse,
        t.recvTime ≤ referenceTime := fun t ht =>
      of_decide_eq_true (List.mem_filter.mp (List.mem_of_mem_take (hperm.mem_iff.mp ht))).2
    have hempty : scan (Queue.recvVerdict workers (referenceTime.tdiv 1000)) (some n) queue.reverse = [] := by
      rw [List.eq_nil_iff_forall_not_mem]
      intro t ht
      have hle := hpast t ht
      have hlt := hlater t ht
      omega
    rw [hempty, List.nil_perm, List.take_eq_nil_iff, List.filter_eq_nil_iff] at hperm
    refine ⟨hpast, fun t ht => ?_⟩
    have hnot := (hperm.resolve_left (by omega)) t (List.mem_reverse.mpr ht)
    rw [decide_eq_true_eq] at hnot
    omega
  · rintro ⟨hpast, hqueue⟩
    have hempty : scan (Queue.recvVerdict workers (referenceTime.tdiv 1000)) (some n) queue.reverse = [] := by
      rw [List.eq_nil_iff_forall_not_mem]
      intro t ht
      have hle := hpast t ht
      have hlt := hlater t ht
      omega
    have hnone : queue.reverse.filter (·.recvTime ≤ referenceTime) = [] := by
      rw [List.filter_eq_nil_iff]
      intro t ht
      have hlt := hqueue t (List.mem_reverse.mp ht)
      rw [decide_eq_true_eq]
      omega
    rw [hempty, hnone, List.take_nil]

end Rows

/-- For every content of the queues, every window and every reference time a request sees
the past just where the queue of the window answers it. -/
theorem seesPast_iff (QM : QueueManager) (w : WindowOperator) (referenceTime : Int) :
    SeesPast QM w referenceTime ↔ ∀ q, QM.lookup w.streamName = some q → Answers w referenceTime q := by
  cases hlookup : QM.lookup w.streamName with
  | none =>
    have hdata : (w.requestData QM referenceTime).tuples = [] := by
      unfold requestData
      split
      · simp only [QueueManager.getTupleSetNum, hlookup]
      · simp only [QueueManager.getTupleSetRange, hlookup]
    have hcontent : QM.content w.streamName = [] := by
      rw [QueueManager.content, hlookup]
      rfl
    refine iff_of_true ⟨?_, ?_⟩ (by rintro q ⟨⟩)
    · rw [hdata]
      exact fun _ h => absurd h List.not_mem_nil
    · rw [hdata, hcontent]
      exact fun _ _ => by rw [List.reverse_nil, List.filter_nil, List.take_nil]
  | some q =>
    have hcontent : QM.content w.streamName = q.queue := by
      rw [QueueManager.content, hlookup]
      rfl
    have hone : (∀ q', some q = some q' → Answers w referenceTime q') ↔ Answers w referenceTime q := by
      constructor
      · exact fun h => h q rfl
      · intro h q' hq'
        rw [← Option.some.inj hq']
        exact h
    rw [hone, Answers]
    by_cases hnum : w.num ≤ 0
    · have hdata : (w.requestData QM referenceTime).tuples =
          scan (Queue.rangeVerdict q.schema w.msec 0 (referenceTime.tdiv 1000)) none q.queue.reverse := by
        rw [requestData, if_neg (by omega), QueueManager.getTupleSetRange, hlookup]
        rfl
      rw [if_pos hnum, ← forall_scan_iff]
      constructor
      · intro h
        rw [← hdata]
        exact h.past
      · intro h
        refine ⟨hdata ▸ h, fun hpositive => ?_⟩
        omega
    · have hpositive : 0 < w.num.toNat := by omega
      have hdata : (w.requestData QM referenceTime).tuples =
          scan (Queue.recvVerdict q.max_worker_thread (referenceTime.tdiv 1000)) (some w.num.toNat)
            q.queue.reverse := by
        rw [requestData, if_pos (by omega), QueueManager.getTupleSetNum, hlookup]
        rfl
      have hsees : SeesPast QM w referenceTime ↔
          (∀ t ∈ scan (Queue.recvVerdict q.max_worker_thread (referenceTime.tdiv 1000)) (some w.num.toNat)
            q.queue.reverse, t.recvTime ≤ referenceTime) ∧
          (w.partitionList = [] →
            (scan (Queue.recvVerdict q.max_worker_thread (referenceTime.tdiv 1000)) (some w.num.toNat)
              q.queue.reverse).Perm ((q.queue.reverse.filter (·.recvTime ≤ referenceTime)).take w.num.toNat)) := by
        rw [← hdata, ← hcontent]
        exact ⟨fun h => ⟨h.past, h.rows (by omega)⟩, fun h => ⟨h.1, fun _ => h.2⟩⟩
      have hpast : ∀ {xs : List Tuple},
          xs.Perm ((q.queue.reverse.filter (·.recvTime ≤ referenceTime)).take w.num.toNat) →
            ∀ t ∈ xs, t.recvTime ≤ referenceTime := fun hperm t ht =>
        of_decide_eq_true (List.mem_filter.mp (List.mem_of_mem_take (hperm.mem_iff.mp ht))).2
      rw [if_neg hnum, hsees]
      by_cases hpartition : w.partitionList = []
      · have hrows : ∀ {P R : Prop}, (R → P) → ((P ∧ (w.partitionList = [] → R)) ↔ R) := fun hRP =>
          ⟨fun h => h.2 hpartition, fun h => ⟨hRP h, fun _ => h⟩⟩
        rw [if_neg (not_not.mpr hpartition), hrows hpast]
        by_cases hreference : 0 ≤ referenceTime
        · rw [if_pos hreference, perm_newest_iff hpositive hreference, Recent]
        · rw [if_neg hreference, perm_newest_iff_of_neg hpositive (by omega)]
      · rw [if_pos hpartition, forall_scan_iff]
        exact and_iff_left fun h => absurd h hpartition

/-- A tuple received in the ninth second, and one received in the eleventh. -/
def laterQueue : Queue :=
  { streamName := "s".toList
    queue := [{ columns := [], recvTime := 9000000 }, { columns := [], recvTime := 11000000 }] }

/-- A request for the newest row at the tenth second returns the one received in the eleventh. -/
theorem laterQueue_not_seesPast :
    ¬ SeesPast [("s".toList, laterQueue)] { streamName := "s".toList, num := 1 } 10000000 := by
  intro h
  exact absurd h.past (by decide)

end WindowOperator

end IS

import Dm20.Lib.Run
import Dm20.Queue.AddTuple

open Run

namespace IS

namespace Queue

/-- The bookkeeping of deletion: the reservations count the tuples before the
search index, and the search index is a position of the queue. -/
def Accounting (q : Queue) : Prop :=
  (q.reservedNum : Int) = q.deleteSearchIdx ∧ q.deleteSearchIdx ≤ q.queue.length

/-- The queue as it is created: no tuple, no reservation. -/
def Fresh (q : Queue) : Prop :=
  q.queue = [] ∧ q.deleteReservationList = [] ∧ q.deleteSearchIdx = 0

/-- A fresh queue has no reservations, and nothing in it to reserve. -/
theorem Fresh.accounting {q : Queue} (h : q.Fresh) : q.Accounting := by
  obtain ⟨hqueue, hlist, hidx⟩ := h
  simp [Accounting, reservedNum, hqueue, hlist, hidx]

/-- The tuples that are not reserved yet are those behind the reserved ones. -/
theorem Accounting.unreserved_eq {q : Queue} (h : q.Accounting) :
    q.unreserved = q.queue.drop q.reservedNum := by
  obtain ⟨hsum, _⟩ := h
  have hnonneg : ¬ q.deleteSearchIdx < 0 := by omega
  have hidx : q.deleteSearchIdx.toNat = q.reservedNum := by omega
  rw [unreserved, if_neg hnonneg, hidx]

/-- After the reservation step every tuple of the queue has a reservation. -/
theorem Accounting.reserve {q : Queue} (h : q.Accounting) :
    q.reserve.reservedNum = q.queue.length ∧ q.reserve.deleteSearchIdx = q.queue.length := by
  have hunreserved := congrArg List.length h.unreserved_eq
  rw [List.length_drop] at hunreserved
  obtain ⟨hsum, hle⟩ := h
  have htotal := q.reserve_reservedNum
  have hidx : q.reserve.deleteSearchIdx = q.deleteSearchIdx + q.unreserved.length := rfl
  omega

/-- Deletion by time from a state of correct bookkeeping never erases past the
end and leaves the bookkeeping correct. -/
theorem Accounting.deleteByTime {q : Queue} (hreserved : q.reservedNum = q.queue.length)
    (hidx : q.deleteSearchIdx = q.queue.length) (now : Int) :
    ∃ q', q.deleteByTime now = .ok q' ∧ q'.Accounting := by
  have hfits : expiredNum now q.deleteReservationList ≤ q.queue.length := by
    rw [← hreserved]
    exact expiredNum_le now q.deleteReservationList
  refine ⟨_, deleteByTime_eq q now hfits, ?_⟩
  have hsum := expiredNum_add_live now q.deleteReservationList
  unfold Accounting reservedNum at *
  simp only [List.length_drop]
  omega

/-- A deletion that does not go by count succeeds and keeps the bookkeeping. -/
theorem Accounting.deleteQueue {q : Queue} (h : q.Accounting) {now : Int}
    (hbranch : ¬ q.DeletesByNum now) : ∃ q', q.deleteQueue now = .ok q' ∧ q'.Accounting := by
  obtain ⟨hreserved, hidx⟩ := h.reserve
  by_cases hempty : q.queue.length = 0
  · exact ⟨q, deleteQueue_empty hempty now, h⟩
  · by_cases htime : q.DeletesByTime now
    · obtain ⟨q', hdelete, hacc⟩ := Accounting.deleteByTime hreserved hidx now
      refine ⟨q'.countReceived, ?_, hacc⟩
      rw [deleteQueue_byTime htime, hdelete]
      rfl
    · refine ⟨q.reserve.countReceived, deleteQueue_none hempty hbranch htime, ?_⟩
      refine ⟨?_, ?_⟩
      · change (q.reserve.reservedNum : Int) = q.reserve.deleteSearchIdx
        omega
      · change q.reserve.deleteSearchIdx ≤ q.queue.length
        omega

/-- A deletion by count succeeds, as the largest row count is positive and leaves
a tuple in front, and puts the search index behind the end of the queue. -/
theorem Accounting.deletesByNum {q : Queue} (h : q.Accounting) {now : Int}
    (hbranch : q.DeletesByNum now) :
    ∃ q', q.deleteQueue now = .ok q' ∧ (q'.queue.length : Int) < q'.deleteSearchIdx := by
  obtain ⟨hreserved, hidx⟩ := h.reserve
  have hexpired : q.reserve.deleteNumByTime now ≤ q.queue.length := by
    rw [deleteNumByTime_eq, ← hreserved]
    exact_mod_cast expiredNum_le now q.reserve.deleteReservationList
  rw [deleteQueue_byNum hbranch]
  obtain ⟨_, hpos, hmore⟩ := hbranch
  have hlt : q.reserve.deleteNumByNum.toNat < q.reserve.queue.length := by
    rw [reserve_deleteNumByNum, reserve_queue]
    omega
  obtain ⟨front, rest, hrest⟩ := List.exists_cons_of_length_pos
    (l := q.reserve.queue.drop q.reserve.deleteNumByNum.toNat)
    (by simp only [List.length_drop]; omega)
  have hlength := congrArg List.length hrest
  simp only [List.length_drop, reserve_queue, reserve_deleteNumByNum, List.length_cons] at hlength
  simp only [deleteByNum, popFront_eq_drop hlt.le, hrest, bind, Except.bind, Except.map]
  refine ⟨_, rfl, ?_⟩
  simp only [countReceived, List.length_cons, hidx]
  omega

/-- Tuples are added at the end, behind the reserved ones. -/
theorem Accounting.addTuple {q q' : Queue} (h : q.Accounting) {QM : QueueManager} {recvTime : Int}
    {tuples : List Tuple} {handed : List (Option TupleSet)}
    (hadd : q.addTuple QM recvTime tuples = .ok (q', handed)) : q'.Accounting := by
  obtain ⟨notified, _, rfl, _⟩ := addTuple_spec hadd
  obtain ⟨hsum, hle⟩ := h
  refine ⟨hsum, ?_⟩
  simp only [enqueue, List.length_append, List.length_map]
  omega

/-- The condition on a call: it is not a deletion by count. -/
def NotByNum (q : Queue) : Op → Prop
  | .deleteQueue now => ¬ q.DeletesByNum now
  | _ => True

instance (q : Queue) : Decidable q.Accounting :=
  inferInstanceAs (Decidable (_ ∧ _))

instance (q : Queue) : ∀ op, Decidable (q.NotByNum op)
  | .deleteQueue now => inferInstanceAs (Decidable (¬ q.DeletesByNum now))
  | .addTuple _ _ _ => .isTrue trivial
  | .addListener _ => .isTrue trivial
  | .addReferrer _ => .isTrue trivial

/-- Each call that deletes by time keeps the reservations in step with the front of the queue. -/
theorem Accounting.step {q q' : Queue} (h : q.Accounting) {op : Op} (hop : q.NotByNum op)
    (hstep : q.step op = .ok q') : q'.Accounting := by
  cases op with
  | addTuple QM recvTime tuples =>
    obtain ⟨handed, hadd⟩ := step_addTuple_ok hstep
    exact h.addTuple hadd
  | deleteQueue now =>
    rw [step_deleteQueue] at hstep
    obtain ⟨q₁, hdelete, hacc⟩ := h.deleteQueue hop
    rw [hdelete] at hstep
    obtain rfl : q₁ = q' := by simpa using hstep
    exact hacc
  | addListener ope =>
    obtain rfl : q.addListener ope = q' := by simpa using hstep
    exact h
  | addReferrer ope =>
    obtain rfl : q.addReferrer ope = q' := by simpa using hstep
    exact h

/-- A queue is created empty. Through any sequence of calls its bookkeeping is
correct and no erasure passes its end, if and only if no deletion goes by count. -/
theorem accounting_iff_notByNum {q : Queue} (hfresh : q.Fresh) (ops : List Op) :
    Throughout step (· = .eraseBeyondEnd) Accounting q ops ↔ Along step NotByNum q ops := by
  constructor
  · apply Along.of_throughout
    · intro s op s' hs hstep hs'
      cases op with
      | deleteQueue now =>
        intro hbranch
        obtain ⟨q₁, hdelete, hlt⟩ := hs.deletesByNum hbranch
        rw [step_deleteQueue, hdelete] at hstep
        obtain rfl : q₁ = s' := by simpa using hstep
        exact absurd hs'.2 (not_le.mpr hlt)
      | addTuple QM recvTime tuples => trivial
      | addListener ope => trivial
      | addReferrer ope => trivial
    · intro s op e hs hstep _
      cases op with
      | deleteQueue now =>
        intro hbranch
        obtain ⟨q₁, hdelete, _⟩ := hs.deletesByNum hbranch
        rw [step_deleteQueue, hdelete] at hstep
        cases hstep
      | addTuple QM recvTime tuples => trivial
      | addListener ope => trivial
      | addReferrer ope => trivial
  · apply Throughout.of_along (fun s op s' hs hop hstep => hs.step hop hstep) ?_ hfresh.accounting
    intro s op e hs hop hstep
    cases op with
    | deleteQueue now =>
      obtain ⟨q₁, hdelete, _⟩ := hs.deleteQueue hop
      rw [step_deleteQueue, hdelete] at hstep
      cases hstep
    | addTuple QM recvTime tuples => simp [step_addTuple_fault hstep]
    | addListener ope => cases hstep
    | addReferrer ope => cases hstep

/-- A queue referred to by a window of one row. -/
def oneRowQueue : Queue :=
  { streamName := "s".toList, referrerOperatorList := [.window { streamName := "s".toList, num := 1 }] }

/-- A tuple of one column with the given timestamp. -/
def sampleTuple (timestamp : Int) : Tuple :=
  { columns := [{ value := .scalar .int 7, timestamp }] }

/-- A burst of two tuples that both expire before the first deletion. -/
def expiredBurst : List Op :=
  [.addTuple [] 1000000 [sampleTuple 1000, sampleTuple 1000], .deleteQueue 20000]

theorem oneRowQueue_fresh : oneRowQueue.Fresh :=
  ⟨rfl, rfl, rfl⟩

/-- A burst of tuples at a window of one row, and a deletion when they have all expired. -/
theorem accounting_iff_notByNum_oneRowQueue :
    Throughout step (· = .eraseBeyondEnd) Accounting oneRowQueue expiredBurst ↔
      Along step NotByNum oneRowQueue expiredBurst :=
  accounting_iff_notByNum oneRowQueue_fresh expiredBurst

/-- After the burst expires the search index is two, in a queue of one tuple. -/
theorem expiredBurst_not_accounting :
    oneRowQueue.Fresh ∧ ¬ Throughout step (· = .eraseBeyondEnd) Accounting oneRowQueue expiredBurst :=
  ⟨oneRowQueue_fresh, by decide⟩

end Queue

end IS

import Dm20.Lib.Except
import Dm20.Queue.State

namespace IS

namespace Queue

/-- The largest row count of the referring windows, or the default. -/
def maxNum (q : Queue) : Int :=
  let maxNum := q.referrerOperatorList.foldl (fun maxNum ope =>
    match ope with
    | .window w => if w.num > maxNum then w.num else maxNum
    | .other => maxNum) 0
  if maxNum = 0 then q.defaultNum else maxNum

/-- The largest time range of the referring windows, or the default where it is smaller. -/
def maxMsec (q : Queue) : Int :=
  let maxMsec := q.referrerOperatorList.foldl (fun maxMsec ope =>
    match ope with
    | .window w => if w.msec > maxMsec then w.msec else maxMsec
    | .other => maxMsec) 0
  if maxMsec = 0 ∨ maxMsec < q.defaultMsec then q.defaultMsec else maxMsec

/-- The tuples from the search index on. A negative index is an unsigned number
beyond any queue. -/
def unreserved (q : Queue) : List Tuple :=
  if q.deleteSearchIdx < 0 then [] else q.queue.drop q.deleteSearchIdx.toNat

/-- The newest timestamp of a batch, or zero where none is positive. -/
def newestTime (tuples : List Tuple) : Int :=
  tuples.foldl (fun newestTime t =>
    if t.getNewestTimestamp > newestTime then t.getNewestTimestamp else newestTime) 0

/-- The sum of two values of type `long`, which wraps around at `2 ^ 63`. -/
def long (sum : Int) : Int :=
  sum.bmod (2 ^ 64)

/-- Wrapping around makes a sum smaller only where it is too large for the type. -/
theorem le_long {sum : Int} (h : sum < 2 ^ 63) : sum ≤ long sum := by
  rw [long, Int.bmod_def]
  split <;> omega

/-- Reserves the deletion of the tuples that have no reservation. The time at which it
expires is a `long`: for a timestamp near the largest one it lies in the past. -/
def reserve (q : Queue) : Queue :=
  let num := q.unreserved.length
  { q with
    deleteSearchIdx := q.deleteSearchIdx + num
    deleteReservationList :=
      if 0 < num then
        q.deleteReservationList ++ [{ deleteMsec := long (newestTime q.unreserved + q.maxMsec), num }]
      else q.deleteReservationList }

/-- The number of tuples with an expired reservation. -/
def deleteNumByTime (q : Queue) (now : Int) : Int :=
  q.deleteReservationList.foldl (fun n data =>
    if data.deleteMsec < now then n + (data.num : Int) else n) 0

/-- The number of tuples beyond the largest row count. -/
def deleteNumByNum (q : Queue) : Int :=
  q.queue.length - q.maxNum

/-- Removes the given number of tuples from the front. -/
def popFront : Nat → List Tuple → Except Fault (List Tuple)
  | 0, queue => .ok queue
  | _ + 1, [] => .error .popEmpty
  | n + 1, _ :: queue => popFront n queue

/-- Deletion by count: the surplus goes from the front, and with it each
reservation older than the tuple now in front. -/
def deleteByNum (q : Queue) : Except Fault Queue := do
  let queue ← popFront q.deleteNumByNum.toNat q.queue
  match queue with
  | [] => .error .outOfRange
  | front :: _ =>
    .ok { q with
      queue
      deleteReservationList :=
        q.deleteReservationList.filter fun data => !decide (data.deleteMsec < front.getNewestTimestamp) }

/-- Erases from the front as many tuples as the expired reservations count. -/
def eraseExpired (now : Int) : List DeleteReservation → Queue → Except Fault Queue
  | [], q => .ok q
  | data :: rest, q =>
    if data.deleteMsec < now then
      if q.queue.length < data.num then .error .eraseBeyondEnd
      else eraseExpired now rest
        { q with queue := q.queue.drop data.num, deleteSearchIdx := q.deleteSearchIdx - data.num }
    else eraseExpired now rest q

/-- Deletion by time: the expired tuples and their reservations go. -/
def deleteByTime (q : Queue) (now : Int) : Except Fault Queue := do
  let deleteList := (q.deleteReservationList.filter (·.deleteMsec < now)).map (·.deleteMsec)
  let q ← eraseExpired now q.deleteReservationList q
  .ok { q with
    deleteReservationList :=
      q.deleteReservationList.filter fun data => !deleteList.contains data.deleteMsec }

/-- The statistics `deleteQueue` keeps of the tuples received since its last call. -/
def countReceived (q : Queue) : Queue :=
  { q with
    streamRcvNum := q.totalQueueNum - q.beforeQueueNum
    beforeQueueNum := q.totalQueueNum }

/-- Deletes what no referring window can need, by count or by time, whichever is less. -/
def deleteQueue (q : Queue) (now : Int) : Except Fault Queue :=
  if q.queue.length = 0 then .ok q
  else do
    let q := q.reserve
    let q ←
      if q.deleteNumByTime now > q.deleteNumByNum then
        if q.deleteNumByNum > 0 then q.deleteByNum else .ok q
      else if q.deleteNumByTime now > 0 then q.deleteByTime now else .ok q
    .ok q.countReceived

/-- A deletion that goes by count: there is a surplus over the largest row
count, and more tuples than that have expired. -/
def DeletesByNum (q : Queue) (now : Int) : Prop :=
  q.queue.length ≠ 0 ∧ 0 < q.deleteNumByNum ∧ q.deleteNumByNum < q.reserve.deleteNumByTime now

/-- A deletion that goes by time: tuples have expired, and no more than the surplus. -/
def DeletesByTime (q : Queue) (now : Int) : Prop :=
  q.queue.length ≠ 0 ∧ 0 < q.reserve.deleteNumByTime now ∧
    q.reserve.deleteNumByTime now ≤ q.deleteNumByNum

instance (q : Queue) (now : Int) : Decidable (q.DeletesByNum now) :=
  inferInstanceAs (Decidable (_ ∧ _ ∧ _))

instance (q : Queue) (now : Int) : Decidable (q.DeletesByTime now) :=
  inferInstanceAs (Decidable (_ ∧ _ ∧ _))

/-- The number of tuples the expired ones of some reservations count. -/
def expiredNum (now : Int) (reservations : List DeleteReservation) : Nat :=
  ((reservations.filter (·.deleteMsec < now)).map (·.num)).sum

/-- The number of tuples with a reservation. -/
def reservedNum (q : Queue) : Nat :=
  (q.deleteReservationList.map (·.num)).sum

/-- No more tuples expire than are reserved. -/
theorem expiredNum_le (now : Int) (reservations : List DeleteReservation) :
    expiredNum now reservations ≤ (reservations.map (·.num)).sum := by
  induction reservations with
  | nil => simp [expiredNum]
  | cons data rest ih =>
    by_cases h : data.deleteMsec < now
    · simp only [expiredNum, List.filter_cons, h, decide_true, if_true, List.map_cons, List.sum_cons]
      exact Nat.add_le_add_left ih _
    · simp only [expiredNum, List.filter_cons, h, decide_false, List.map_cons, List.sum_cons,
        Bool.false_eq_true, if_false]
      exact ih.trans (Nat.le_add_left _ _)

/-- The expired reservations and the live ones make up all of them. -/
theorem expiredNum_add_live (now : Int) (reservations : List DeleteReservation) :
    expiredNum now reservations +
      ((reservations.filter fun data => !decide (data.deleteMsec < now)).map (·.num)).sum =
        (reservations.map (·.num)).sum := by
  induction reservations with
  | nil => simp [expiredNum]
  | cons data rest ih =>
    by_cases h : data.deleteMsec < now
    · simp [expiredNum, h] at ih ⊢
      omega
    · simp [expiredNum, h] at ih ⊢
      omega

/-- The loop sums up the numbers of the reservations that have expired. -/
private theorem foldl_expired (now : Int) (reservations : List DeleteReservation) (n : Int) :
    reservations.foldl (fun n data => if data.deleteMsec < now then n + (data.num : Int) else n) n =
      n + expiredNum now reservations := by
  induction reservations generalizing n with
  | nil => simp [expiredNum]
  | cons data rest ih =>
    by_cases h : data.deleteMsec < now
    · simp [expiredNum, h, ih]
      omega
    · simp [expiredNum, h, ih]

/-- The loop of the source counts the tuples of the expired reservations. -/
theorem deleteNumByTime_eq (q : Queue) (now : Int) :
    q.deleteNumByTime now = expiredNum now q.deleteReservationList := by
  rw [deleteNumByTime, foldl_expired, Int.zero_add]

@[simp] theorem reserve_queue (q : Queue) : q.reserve.queue = q.queue := rfl

@[simp] theorem reserve_maxNum (q : Queue) : q.reserve.maxNum = q.maxNum := rfl

@[simp] theorem reserve_deleteNumByNum (q : Queue) : q.reserve.deleteNumByNum = q.deleteNumByNum := rfl

/-- A reservation is for all tuples that were not reserved before. -/
theorem reserve_reservedNum (q : Queue) :
    q.reserve.reservedNum = q.reservedNum + q.unreserved.length := by
  by_cases h : 0 < q.unreserved.length
  · simp [reserve, reservedNum, h]
  · have hzero : q.unreserved.length = 0 := by omega
    simp [reserve, reservedNum, hzero]

/-- Popping as many tuples as there are drops them. -/
theorem popFront_eq_drop {n : Nat} {queue : List Tuple} (h : n ≤ queue.length) :
    popFront n queue = .ok (queue.drop n) := by
  induction n generalizing queue with
  | zero => rfl
  | succ n ih =>
    cases queue with
    | nil => simp at h
    | cons t queue => simpa [popFront] using ih (by simpa using h)

private theorem popFront_eq_ok {n : Nat} {queue rest : List Tuple} (h : popFront n queue = .ok rest) :
    n ≤ queue.length ∧ rest = queue.drop n := by
  induction n generalizing queue with
  | zero => simpa [popFront, eq_comm] using h
  | succ n ih =>
    cases queue with
    | nil => simp [popFront] at h
    | cons t queue => simpa using ih h

/-- Erasing the expired reservations takes their total from the front. -/
theorem eraseExpired_eq (now : Int) (reservations : List DeleteReservation) (q : Queue)
    (h : expiredNum now reservations ≤ q.queue.length) :
    eraseExpired now reservations q =
      .ok { q with
        queue := q.queue.drop (expiredNum now reservations)
        deleteSearchIdx := q.deleteSearchIdx - expiredNum now reservations } := by
  induction reservations generalizing q with
  | nil => simp [eraseExpired, expiredNum]
  | cons data rest ih =>
    by_cases hexpired : data.deleteMsec < now
    · have hsum : expiredNum now (data :: rest) = data.num + expiredNum now rest := by
        simp [expiredNum, hexpired]
      rw [hsum] at h ⊢
      have hfits : ¬ q.queue.length < data.num := by omega
      rw [eraseExpired, if_pos hexpired, if_neg hfits, ih]
      · simp only [List.drop_drop, Nat.cast_add, Int.sub_sub]
      · simp only [List.length_drop]
        omega
    · have hsum : expiredNum now (data :: rest) = expiredNum now rest := by
        simp [expiredNum, hexpired]
      rw [hsum] at h ⊢
      rw [eraseExpired, if_neg hexpired, ih q h]

/-- A time is among the expired ones exactly if it has expired. -/
private theorem contains_expired (now : Int) (reservations : List DeleteReservation)
    {data : DeleteReservation} (hmem : data ∈ reservations) :
    ((reservations.filter (·.deleteMsec < now)).map (·.deleteMsec)).contains data.deleteMsec =
      decide (data.deleteMsec < now) := by
  rw [Bool.eq_iff_iff, List.contains_iff_mem, decide_eq_true_iff]
  simp only [List.mem_map, List.mem_filter, decide_eq_true_eq]
  constructor
  · intro ⟨other, ⟨_, hexpired⟩, heq⟩
    omega
  · intro hexpired
    exact ⟨data, ⟨hmem, hexpired⟩, rfl⟩

/-- Where the queue holds the expired tuples, deletion by time takes their number
from the front and leaves the live reservations. -/
theorem deleteByTime_eq (q : Queue) (now : Int)
    (h : expiredNum now q.deleteReservationList ≤ q.queue.length) :
    q.deleteByTime now = .ok { q with
      queue := q.queue.drop (expiredNum now q.deleteReservationList)
      deleteSearchIdx := q.deleteSearchIdx - expiredNum now q.deleteReservationList
      deleteReservationList :=
        q.deleteReservationList.filter fun data => !decide (data.deleteMsec < now) } := by
  have hfilter : (q.deleteReservationList.filter fun data =>
      !((q.deleteReservationList.filter (·.deleteMsec < now)).map (·.deleteMsec)).contains
        data.deleteMsec) =
      q.deleteReservationList.filter fun data => !decide (data.deleteMsec < now) := by
    apply List.filter_congr
    intro data hmem
    rw [contains_expired now _ hmem]
  simp only [deleteByTime, eraseExpired_eq now q.deleteReservationList q h, bind, Except.bind, hfilter]

/-- Whether or not the counts fit, erasing takes tuples from the front only. -/
theorem eraseExpired_frame {now : Int} {reservations : List DeleteReservation} {q q' : Queue}
    (h : eraseExpired now reservations q = .ok q') :
    ∃ k idx, q' = { q with queue := q.queue.drop k, deleteSearchIdx := idx } := by
  induction reservations generalizing q with
  | nil =>
    obtain rfl : q = q' := by simpa [eraseExpired] using h
    exact ⟨0, q.deleteSearchIdx, rfl⟩
  | cons data rest ih =>
    rw [eraseExpired] at h
    split_ifs at h with hexpired hlong
    · obtain ⟨k, idx, rfl⟩ := ih h
      exact ⟨data.num + k, idx, by simp only [List.drop_drop]⟩
    · exact ih h

/-- Tuples went from the front of a queue; what its listeners see of it besides
the tuples is unchanged. -/
structure ErasedFront (q q' : Queue) : Prop where
  suffix : ∃ k, q'.queue = q.queue.drop k
  streamName : q'.streamName = q.streamName
  schema : q'.schema = q.schema
  max_worker_thread : q'.max_worker_thread = q.max_worker_thread
  listenerOperatorList : q'.listenerOperatorList = q.listenerOperatorList

/-- To reserve tuples erases none. -/
theorem ErasedFront.of_reserve {q q' : Queue} (h : ErasedFront q.reserve q') : ErasedFront q q' :=
  ⟨h.suffix, h.streamName, h.schema, h.max_worker_thread, h.listenerOperatorList⟩

private theorem deleteByTime_frame {now : Int} {q q' : Queue} (h : q.deleteByTime now = .ok q') :
    ErasedFront q q' := by
  rw [deleteByTime, Except.bind_eq_ok_iff] at h
  obtain ⟨q₁, herase, h⟩ := h
  obtain ⟨k, idx, rfl⟩ := eraseExpired_frame herase
  simp only [Except.ok.injEq] at h
  rw [← h]
  exact ⟨⟨k, rfl⟩, rfl, rfl, rfl, rfl⟩

private theorem deleteByNum_frame {q q' : Queue} (h : q.deleteByNum = .ok q') : ErasedFront q q' := by
  rw [deleteByNum, Except.bind_eq_ok_iff] at h
  obtain ⟨rest, hpop, h⟩ := h
  cases rest with
  | nil => cases h
  | cons front rest =>
    simp only [Except.ok.injEq] at h
    rw [← h]
    exact ⟨⟨_, (popFront_eq_ok hpop).2⟩, rfl, rfl, rfl, rfl⟩

/-- A queue without tuples is left as it is. -/
theorem deleteQueue_empty {q : Queue} (h : q.queue.length = 0) (now : Int) :
    q.deleteQueue now = .ok q := by
  simp [deleteQueue, h]

/-- What is deleted by number is the surplus over the rows to keep. -/
theorem deleteQueue_byNum {q : Queue} {now : Int} (h : q.DeletesByNum now) :
    q.deleteQueue now = q.reserve.deleteByNum.map countReceived := by
  obtain ⟨hempty, hpos, hmore⟩ := h
  have hmore' : q.reserve.deleteNumByTime now > q.reserve.deleteNumByNum := hmore
  have hpos' : q.reserve.deleteNumByNum > 0 := hpos
  rw [deleteQueue, if_neg hempty]
  simp only [if_pos hmore', if_pos hpos', bind, Except.bind]
  cases q.reserve.deleteByNum <;> rfl

/-- What is deleted by time is what the expired reservations are for. -/
theorem deleteQueue_byTime {q : Queue} {now : Int} (h : q.DeletesByTime now) :
    q.deleteQueue now = (q.reserve.deleteByTime now).map countReceived := by
  obtain ⟨hempty, hpos, hle⟩ := h
  have hmore : ¬ q.reserve.deleteNumByTime now > q.reserve.deleteNumByNum := not_lt.mpr hle
  rw [deleteQueue, if_neg hempty]
  simp only [if_neg hmore, if_pos hpos, bind, Except.bind]
  cases q.reserve.deleteByTime now <;> rfl

/-- Where neither the number nor the time asks for it, nothing is deleted. -/
theorem deleteQueue_none {q : Queue} {now : Int} (hempty : q.queue.length ≠ 0)
    (hnum : ¬ q.DeletesByNum now) (htime : ¬ q.DeletesByTime now) :
    q.deleteQueue now = .ok q.reserve.countReceived := by
  rw [deleteQueue, if_neg hempty]
  by_cases hmore : q.reserve.deleteNumByTime now > q.reserve.deleteNumByNum
  · have hpos : ¬ q.reserve.deleteNumByNum > 0 := fun hpos => hnum ⟨hempty, hpos, hmore⟩
    simp only [if_pos hmore, if_neg hpos, bind, Except.bind]
  · have hpos : ¬ q.reserve.deleteNumByTime now > 0 :=
      fun hpos => htime ⟨hempty, hpos, not_lt.mp hmore⟩
    simp only [if_neg hmore, if_neg hpos, bind, Except.bind]

private theorem map_countReceived_frame {q q' : Queue} {x : Except Fault Queue}
    (hx : ∀ q₁, x = .ok q₁ → ErasedFront q q₁) (h : x.map countReceived = .ok q') :
    ErasedFront q q' := by
  cases x with
  | error e => cases h
  | ok q₁ =>
    obtain rfl : q₁.countReceived = q' := by simpa [Except.map] using h
    obtain ⟨hsuffix, hname, hschema, hworkers, hlisteners⟩ := hx q₁ rfl
    exact ⟨hsuffix, hname, hschema, hworkers, hlisteners⟩

/-- In any state, a deletion only takes tuples from the front. -/
theorem deleteQueue_frame {q q' : Queue} {now : Int} (h : q.deleteQueue now = .ok q') :
    ErasedFront q q' := by
  by_cases hempty : q.queue.length = 0
  · rw [deleteQueue_empty hempty] at h
    obtain rfl : q = q' := by simpa using h
    exact ⟨⟨0, rfl⟩, rfl, rfl, rfl, rfl⟩
  · by_cases hnum : q.DeletesByNum now
    · rw [deleteQueue_byNum hnum] at h
      exact map_countReceived_frame (fun _ hdelete => (deleteByNum_frame hdelete).of_reserve) h
    · by_cases htime : q.DeletesByTime now
      · rw [deleteQueue_byTime htime] at h
        exact map_countReceived_frame (fun _ hdelete => (deleteByTime_frame hdelete).of_reserve) h
      · rw [deleteQueue_none hempty hnum htime] at h
        obtain rfl : q.reserve.countReceived = q' := by simpa using h
        exact ⟨⟨0, rfl⟩, rfl, rfl, rfl, rfl⟩

end Queue

end IS

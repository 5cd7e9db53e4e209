import Dm20.Queue.Accounting

open Run

namespace IS

namespace Queue

/-- What happened to a queue so far: the tuples added, as they were queued and
in arrival order, and the time of the latest deletion. -/
structure History where
  added : List Tuple := []
  lastDelete : Option Int := none

def History.record (h : History) (q : Queue) : Op → History
  | .addTuple _ recvTime tuples => { h with added := h.added ++ tuples.map (stamp q.schema recvTime) }
  | .deleteQueue now => { h with lastDelete := some now }
  | .addListener _ => h
  | .addReferrer _ => h

/-- A step of the queue that also records the history. -/
def stepHistory (s : Queue × History) (op : Op) : Except Fault (Queue × History) :=
  (s.1.step op).map fun q => (q, s.2.record s.1 op)

/-- The queue holds, in arrival order, the tuples from some position on, and with
them each tuple that a window can still need: one among the newest `maxNum` by
arrival, or one whose range is not over at the latest deletion. -/
def Retained (s : Queue × History) : Prop :=
  ∃ d, s.1.queue = s.2.added.drop d ∧
    ∀ i (hi : i < s.2.added.length),
      ((s.2.added.length : Int) ≤ i + s.1.maxNum ∨
        ∀ now, s.2.lastDelete = some now → now ≤ s.2.added[i].getNewestTimestamp + s.1.maxMsec) →
      d ≤ i

/-- The reservations that have expired come before those that have not. -/
def ExpiredFirst (now : Int) (reservations : List DeleteReservation) : Prop :=
  reservations.Pairwise fun a b => b.deleteMsec < now → a.deleteMsec < now

/-- The time at which the tuples without a reservation expire is a `long`. -/
def ExpiryFits (q : Queue) : Prop :=
  newestTime q.unreserved + q.maxMsec < 2 ^ 63

/-- The condition on a call: a deletion does not go by count, the expiry of what it
reserves is a `long`, and where it goes by time the expired reservations are the
oldest ones. -/
def ExpiresInOrder (s : Queue × History) : Op → Prop
  | .deleteQueue now => ¬ s.1.DeletesByNum now ∧ s.1.ExpiryFits ∧
      (s.1.DeletesByTime now → ExpiredFirst now s.1.reserve.deleteReservationList)
  | _ => True

instance (now : Int) (reservations : List DeleteReservation) :
    Decidable (ExpiredFirst now reservations) :=
  inferInstanceAs (Decidable (List.Pairwise _ _))

instance (q : Queue) : Decidable q.ExpiryFits :=
  inferInstanceAs (Decidable (_ < _))

instance (s : Queue × History) : ∀ op, Decidable (ExpiresInOrder s op)
  | .deleteQueue now => inferInstanceAs (Decidable (¬ s.1.DeletesByNum now ∧ s.1.ExpiryFits ∧
      (s.1.DeletesByTime now → ExpiredFirst now s.1.reserve.deleteReservationList)))
  | .addTuple _ _ _ => .isTrue trivial
  | .addListener _ => .isTrue trivial
  | .addReferrer _ => .isTrue trivial

/-- The time of a deletion. -/
def Op.deleteTime : Op → Option Int
  | .deleteQueue now => some now
  | _ => none

def Op.isAddReferrer : Op → Bool
  | .addReferrer _ => true
  | _ => false

/-- The calls the retention is about: the referring windows are fixed, and a
deletion is not earlier than the one before. -/
def InOrder (s : Queue × History) (op : Op) : Prop :=
  op.isAddReferrer = false ∧
    ∀ now, op.deleteTime = some now → ∀ t, s.2.lastDelete = some t → t ≤ now

/-- The last time of a deletion is that of this call, if it deletes, or the one before. -/
theorem History.record_lastDelete (h : History) (q : Queue) (op : Op) :
    (h.record q op).lastDelete = op.deleteTime.or h.lastDelete := by
  cases op <;> rfl

/-- Each reservation covers the next tuples from the front and outlasts them. -/
def Covers (maxMsec : Int) : List DeleteReservation → List Tuple → Prop
  | [], _ => True
  | r :: rs, tuples =>
    (∀ t ∈ tuples.take r.num, t.getNewestTimestamp + maxMsec ≤ r.deleteMsec) ∧
      Covers maxMsec rs (tuples.drop r.num)

/-- A reservation for the tuples behind the others covers them until its own time. -/
theorem Covers.snoc {maxMsec : Int} {rs : List DeleteReservation} {r : DeleteReservation}
    {tuples : List Tuple} (h : Covers maxMsec rs tuples)
    (hr : ∀ t ∈ tuples.drop (rs.map (·.num)).sum, t.getNewestTimestamp + maxMsec ≤ r.deleteMsec) :
    Covers maxMsec (rs ++ [r]) tuples := by
  induction rs generalizing tuples with
  | nil =>
    refine ⟨?_, trivial⟩
    intro t ht
    exact hr t (by simpa using List.mem_of_mem_take ht)
  | cons r' rs ih =>
    refine ⟨h.1, ih h.2 ?_⟩
    intro t ht
    apply hr t
    rwa [List.drop_drop] at ht

/-- Tuples behind the reserved ones are covered by no reservation yet. -/
theorem Covers.append {maxMsec : Int} {rs : List DeleteReservation} {tuples : List Tuple}
    (h : Covers maxMsec rs tuples) (hle : (rs.map (·.num)).sum ≤ tuples.length) (more : List Tuple) :
    Covers maxMsec rs (tuples ++ more) := by
  induction rs generalizing tuples with
  | nil => trivial
  | cons r rs ih =>
    rw [List.map_cons, List.sum_cons] at hle
    refine ⟨?_, ?_⟩
    · rw [List.take_append_of_le_length (by omega)]
      exact h.1
    · rw [List.drop_append_of_le_length (by omega)]
      exact ih h.2 (by rw [List.length_drop]; omega)

private theorem expired_eq_nil {now : Int} {r : DeleteReservation} {rs : List DeleteReservation}
    (h : ExpiredFirst now (r :: rs)) (hlive : ¬ r.deleteMsec < now) :
    rs.filter (·.deleteMsec < now) = [] := by
  rw [List.filter_eq_nil_iff]
  intro b hb hexpired
  exact hlive ((List.pairwise_cons.mp h).1 b hb (by simpa using hexpired))

/-- Where the expired reservations come first, their total covers expired tuples
only, and the live reservations cover the rest. -/
theorem Covers.expire {maxMsec now : Int} {rs : List DeleteReservation} {tuples : List Tuple}
    (h : Covers maxMsec rs tuples) (hfirst : ExpiredFirst now rs) :
    (∀ t ∈ tuples.take (expiredNum now rs), t.getNewestTimestamp + maxMsec < now) ∧
      Covers maxMsec (rs.filter fun data => !decide (data.deleteMsec < now))
        (tuples.drop (expiredNum now rs)) := by
  induction rs generalizing tuples with
  | nil => exact ⟨by simp [expiredNum], trivial⟩
  | cons r rs ih =>
    by_cases hexpired : r.deleteMsec < now
    · have hsum : expiredNum now (r :: rs) = r.num + expiredNum now rs := by
        simp [expiredNum, hexpired]
      obtain ⟨hold, hrest⟩ := ih h.2 (List.pairwise_cons.mp hfirst).2
      have hlist : ((r :: rs).filter fun data => !decide (data.deleteMsec < now)) =
          rs.filter fun data => !decide (data.deleteMsec < now) := by
        simp [hexpired]
      rw [hsum, hlist, List.take_add, ← List.drop_drop]
      refine ⟨?_, hrest⟩
      intro t ht
      rcases List.mem_append.mp ht with ht | ht
      · have hle := h.1 t ht
        omega
      · exact hold t ht
    · have hnone := expired_eq_nil hfirst hexpired
      have hsum : expiredNum now (r :: rs) = 0 := by
        simp [expiredNum, hexpired, hnone]
      have hlist : ((r :: rs).filter fun data => !decide (data.deleteMsec < now)) = r :: rs := by
        rw [List.filter_eq_self]
        intro data hdata
        rcases List.mem_cons.mp hdata with rfl | hdata
        · simp [hexpired]
        · have := List.filter_eq_nil_iff.mp hnone data hdata
          simpa using this
      rw [hsum, hlist]
      exact ⟨by simp, h⟩

/-- The newest time of a batch is at least the time that the search starts from and that of each
tuple. -/
private theorem le_foldl_newest (tuples : List Tuple) (start : Int) :
    start ≤ tuples.foldl (fun newestTime t =>
        if t.getNewestTimestamp > newestTime then t.getNewestTimestamp else newestTime) start ∧
      ∀ t ∈ tuples, t.getNewestTimestamp ≤ tuples.foldl (fun newestTime t =>
        if t.getNewestTimestamp > newestTime then t.getNewestTimestamp else newestTime) start := by
  induction tuples generalizing start with
  | nil => simp
  | cons t tuples ih =>
    rw [List.foldl_cons]
    by_cases h : t.getNewestTimestamp > start
    · obtain ⟨hstart, hall⟩ := ih t.getNewestTimestamp
      rw [if_pos h]
      refine ⟨by omega, ?_⟩
      intro u hu
      rcases List.mem_cons.mp hu with rfl | hu
      · exact hstart
      · exact hall u hu
    · obtain ⟨hstart, hall⟩ := ih start
      rw [if_neg h]
      refine ⟨hstart, ?_⟩
      intro u hu
      rcases List.mem_cons.mp hu with rfl | hu
      · omega
      · exact hall u hu

private theorem le_newestTime {tuples : List Tuple} {t : Tuple} (ht : t ∈ tuples) :
    t.getNewestTimestamp ≤ newestTime tuples :=
  (le_foldl_newest tuples 0).2 t ht

@[simp] theorem reserve_maxMsec (q : Queue) : q.reserve.maxMsec = q.maxMsec := rfl

@[simp] theorem countReceived_queue (q : Queue) : q.countReceived.queue = q.queue := rfl

/-- The reservation step reserves the remaining tuples by the newest of them. -/
theorem Covers.reserve {q : Queue} (hacc : q.Accounting) (hfits : q.ExpiryFits)
    (h : Covers q.maxMsec q.deleteReservationList q.queue) :
    Covers q.maxMsec q.reserve.deleteReservationList q.queue := by
  by_cases hnum : 0 < q.unreserved.length
  · have hlist : q.reserve.deleteReservationList = q.deleteReservationList ++
        [{ deleteMsec := long (newestTime q.unreserved + q.maxMsec), num := q.unreserved.length }] := by
      simp [Queue.reserve, hnum]
    rw [hlist]
    apply h.snoc
    intro t ht
    have hmem : t ∈ q.unreserved := by
      rw [hacc.unreserved_eq]
      exact ht
    have hle := le_newestTime hmem
    have hlong := le_long hfits
    change t.getNewestTimestamp + q.maxMsec ≤ long (newestTime q.unreserved + q.maxMsec)
    omega
  · have hlist : q.reserve.deleteReservationList = q.deleteReservationList := by
      simp [Queue.reserve, hnum]
    rw [hlist]
    exact h

/-- The invariant of the runs that expire in order: besides the retention, correct
bookkeeping and reservations that cover the queue from the front. -/
structure RetentionInvariant (s : Queue × History) : Prop where
  accounting : s.1.Accounting
  covers : Covers s.1.maxMsec s.1.deleteReservationList s.1.queue
  suffix : ∃ d, s.1.queue = s.2.added.drop d ∧ d ≤ s.2.added.length ∧
    (d = 0 ∨ (d : Int) + s.1.maxNum ≤ s.2.added.length) ∧
    ∀ t ∈ s.2.added.take d, ∃ now, s.2.lastDelete = some now ∧
      t.getNewestTimestamp + s.1.maxMsec < now

/-- Under the invariant each tuple that is to be kept is in the queue. -/
theorem RetentionInvariant.retained {s : Queue × History} (h : RetentionInvariant s) :
    Retained s := by
  obtain ⟨d, hqueue, hd, hnum, hold⟩ := h.suffix
  refine ⟨d, hqueue, ?_⟩
  intro i hi hneeded
  by_contra hlt
  have hmem : s.2.added[i] ∈ s.2.added.take d := by
    rw [List.mem_take_iff_getElem]
    exact ⟨i, by omega, rfl⟩
  obtain ⟨now, hnow, hexpired⟩ := hold _ hmem
  rcases hneeded with hrecent | hfresh
  · omega
  · have := hfresh now hnow
    omega

/-- An addition takes no tuple out. -/
theorem RetentionInvariant.addTuple {s : Queue × History} (h : RetentionInvariant s)
    {q' : Queue} {QM : QueueManager} {recvTime : Int} {tuples : List Tuple}
    {handed : List (Option TupleSet)} (hadd : s.1.addTuple QM recvTime tuples = .ok (q', handed)) :
    RetentionInvariant (q', s.2.record s.1 (.addTuple QM recvTime tuples)) := by
  have hacc := h.accounting.addTuple hadd
  obtain ⟨notified, _, rfl, _⟩ := addTuple_spec hadd
  obtain ⟨d, hqueue, hd, hnum, hold⟩ := h.suffix
  refine ⟨hacc, ?_, d, ?_, ?_, ?_, ?_⟩
  · apply h.covers.append
    have hsum := h.accounting
    unfold Accounting reservedNum at hsum
    omega
  · change s.1.queue ++ _ = (s.2.added ++ _).drop d
    rw [List.drop_append_of_le_length hd, hqueue]
  · simp only [History.record, List.length_append]
    omega
  · change d = 0 ∨ (d : Int) + s.1.maxNum ≤ _
    simp only [History.record, List.length_append, List.length_map]
    omega
  · intro t ht
    change t ∈ (s.2.added ++ _).take d at ht
    rw [List.take_append_of_le_length hd] at ht
    exact hold t ht

/-- Deletion by time from an invariant state whose reservations expire in order. -/
theorem RetentionInvariant.deleteByTime {s : Queue × History} (h : RetentionInvariant s)
    (hexpiry : s.1.ExpiryFits) {now : Int} (htime : s.1.DeletesByTime now)
    (hfirst : ExpiredFirst now s.1.reserve.deleteReservationList)
    (horder : ∀ t, s.2.lastDelete = some t → t ≤ now) :
    ∃ q', s.1.deleteQueue now = .ok q' ∧
      RetentionInvariant (q', s.2.record s.1 (.deleteQueue now)) := by
  obtain ⟨hreserved, hidx⟩ := h.accounting.reserve
  have hfits : expiredNum now s.1.reserve.deleteReservationList ≤ s.1.reserve.queue.length := by
    rw [reserve_queue, ← hreserved]
    exact expiredNum_le now _
  obtain ⟨q', hdelete, hacc⟩ := Accounting.deleteByTime (q := s.1.reserve) hreserved hidx now
  have hresult := deleteByTime_eq s.1.reserve now hfits
  refine ⟨q'.countReceived, by rw [deleteQueue_byTime htime, hdelete]; rfl, ?_⟩
  obtain rfl := (Except.ok.injEq _ _).mp (hresult.symm.trans hdelete)
  obtain ⟨hexpired, hlive⟩ := (Covers.reserve h.accounting hexpiry h.covers).expire hfirst
  obtain ⟨d, hqueue, hd, hnum, hold⟩ := h.suffix
  obtain ⟨_, hpos, hle⟩ := htime
  rw [deleteNumByTime_eq] at hle hpos
  have hlength := congrArg List.length hqueue
  rw [List.length_drop] at hlength
  rw [reserve_queue] at hfits
  refine ⟨hacc, hlive, d + expiredNum now s.1.reserve.deleteReservationList, ?_, ?_, ?_, ?_⟩
  · change s.1.queue.drop _ = s.2.added.drop _
    rw [hqueue, List.drop_drop]
  · change _ ≤ s.2.added.length
    omega
  · change _ ∨ _ + s.1.maxNum ≤ (s.2.added.length : Int)
    unfold deleteNumByNum at hle
    omega
  · intro t ht
    refine ⟨now, rfl, ?_⟩
    change t.getNewestTimestamp + s.1.maxMsec < now
    change t ∈ s.2.added.take _ at ht
    rw [List.take_add, List.mem_append, ← hqueue] at ht
    rcases ht with ht | ht
    · obtain ⟨earlier, hearlier, hlt⟩ := hold t ht
      have := horder earlier hearlier
      omega
    · exact hexpired t ht

/-- A deletion in order takes out only tuples that are no longer to be kept. -/
theorem RetentionInvariant.deleteQueue {s : Queue × History} (h : RetentionInvariant s) {now : Int}
    (hcond : ExpiresInOrder s (.deleteQueue now))
    (horder : ∀ t, s.2.lastDelete = some t → t ≤ now) :
    ∃ q', s.1.deleteQueue now = .ok q' ∧
      RetentionInvariant (q', s.2.record s.1 (.deleteQueue now)) := by
  obtain ⟨d, hqueue, hd, hnum, hold⟩ := h.suffix
  have hold' : ∀ t ∈ s.2.added.take d, ∃ now', some now = some now' ∧
      t.getNewestTimestamp + s.1.maxMsec < now' := by
    intro t ht
    obtain ⟨earlier, hearlier, hlt⟩ := hold t ht
    have := horder earlier hearlier
    exact ⟨now, rfl, by omega⟩
  by_cases hempty : s.1.queue.length = 0
  · exact ⟨s.1, deleteQueue_empty hempty now, h.accounting, h.covers, d, hqueue, hd, hnum, hold'⟩
  · by_cases htime : s.1.DeletesByTime now
    · exact h.deleteByTime hcond.2.1 htime (hcond.2.2 htime) horder
    · obtain ⟨q', hdelete, hacc⟩ := h.accounting.deleteQueue hcond.1
      have hnone := deleteQueue_none hempty hcond.1 htime
      obtain rfl := (Except.ok.injEq _ _).mp (hnone.symm.trans hdelete)
      exact ⟨_, hnone, hacc, Covers.reserve h.accounting hcond.2.1 h.covers, d, hqueue, hd, hnum, hold'⟩

/-- A step with its history is a step of the queue, and the history notes it. -/
theorem stepHistory_ok {s s' : Queue × History} {op : Op} (h : stepHistory s op = .ok s') :
    s.1.step op = .ok s'.1 ∧ s'.2 = s.2.record s.1 op := by
  cases hstep : s.1.step op with
  | error e => simp [stepHistory, hstep, Except.map] at h
  | ok q =>
    simp only [stepHistory, hstep, Except.map, Except.ok.injEq] at h
    rw [← h]
    exact ⟨rfl, rfl⟩

private theorem stepHistory_error {s : Queue × History} {op : Op} {e : Fault}
    (h : stepHistory s op = .error e) : s.1.step op = .error e := by
  cases hstep : s.1.step op with
  | error e' => simpa [stepHistory, hstep, Except.map] using h
  | ok q => simp [stepHistory, hstep, Except.map] at h

/-- One call keeps the invariant, under the conditions on the call. -/
theorem RetentionInvariant.step {s s' : Queue × History} {op : Op} (h : RetentionInvariant s)
    (hcond : ExpiresInOrder s op) (horder : InOrder s op) (hstep : stepHistory s op = .ok s') :
    RetentionInvariant s' := by
  obtain ⟨q', h'⟩ := s'
  obtain ⟨hcall, rfl⟩ := stepHistory_ok hstep
  cases op with
  | addTuple QM recvTime tuples =>
    obtain ⟨handed, hadd⟩ := step_addTuple_ok hcall
    exact h.addTuple hadd
  | deleteQueue now =>
    obtain ⟨q₁, hdelete, hinv⟩ := h.deleteQueue hcond (horder.2 now rfl)
    rw [step_deleteQueue, hdelete] at hcall
    obtain rfl : q₁ = q' := by simpa using hcall
    exact hinv
  | addListener ope =>
    obtain rfl : s.1.addListener ope = q' := by simpa using hcall
    exact ⟨h.accounting, h.covers, h.suffix⟩
  | addReferrer ope => exact absurd horder.1 (by simp [Op.isAddReferrer])

/-- Deletion times that do not decrease, with no window registered, are in order along the run. -/
theorem along_inOrder {s : Queue × History} {ops : List Op}
    (hfixed : ∀ op ∈ ops, op.isAddReferrer = false)
    (htimes : (ops.filterMap Op.deleteTime).Pairwise (· ≤ ·))
    (hlast : ∀ t, s.2.lastDelete = some t → ∀ now ∈ ops.filterMap Op.deleteTime, t ≤ now) :
    Along stepHistory InOrder s ops := by
  induction ops generalizing s with
  | nil => trivial
  | cons op ops ih =>
    have hfixed' : ∀ op ∈ ops, op.isAddReferrer = false := fun o ho => hfixed o (by simp [ho])
    refine Along.cons ⟨hfixed op (by simp), ?_⟩ ?_
    · intro now hnow t ht
      exact hlast t ht now (by simp [List.filterMap_cons_some hnow])
    · intro s' hstep
      have hrecord := congrArg History.lastDelete (stepHistory_ok hstep).2
      rw [History.record_lastDelete] at hrecord
      cases hop : op.deleteTime with
      | none =>
        rw [List.filterMap_cons_none hop] at htimes hlast
        apply ih hfixed' htimes
        intro t ht
        rw [hrecord, hop, Option.none_or] at ht
        exact hlast t ht
      | some now =>
        rw [List.filterMap_cons_some hop] at htimes
        obtain ⟨hhead, htail⟩ := List.pairwise_cons.mp htimes
        apply ih hfixed' htail
        intro t ht
        rw [hrecord, hop, Option.some_or, Option.some.injEq] at ht
        rw [← ht]
        exact hhead

/-- A fresh queue has nothing to keep. -/
theorem RetentionInvariant.fresh {q : Queue} (h : q.Fresh) : RetentionInvariant (q, {}) := by
  have hacc := h.accounting
  obtain ⟨hqueue, hlist, _⟩ := h
  refine ⟨hacc, ?_, 0, ?_, ?_, ?_, ?_⟩
  · simp only [hlist]
    trivial
  · simp [hqueue]
  · simp
  · simp
  · simp

/-- With fixed windows and deletions at non-decreasing times, a queue retains what
a window can need after any sequence of calls in which no deletion goes by count,
the time at which a reservation expires is a `long`, and deletions by time find the
expired reservations in front of the others. -/
theorem retained_of_expiresInOrder {q : Queue} (hfresh : q.Fresh) {ops : List Op}
    (hfixed : ∀ op ∈ ops, op.isAddReferrer = false)
    (htimes : (ops.filterMap Op.deleteTime).Pairwise (· ≤ ·))
    (hcond : Along stepHistory ExpiresInOrder (q, {}) ops) :
    Throughout stepHistory (· = .eraseBeyondEnd) Retained (q, {}) ops := by
  have horder := along_inOrder (s := (q, {})) hfixed htimes (by simp)
  have hinv : Throughout stepHistory (· = .eraseBeyondEnd) RetentionInvariant (q, {}) ops := by
    apply Throughout.of_along (C := fun s op => ExpiresInOrder s op ∧ InOrder s op)
    · intro s op s' hs hC hstep
      exact hs.step hC.1 hC.2 hstep
    · intro s op e hs hC hstep
      have hstep := stepHistory_error hstep
      cases op with
      | addTuple QM recvTime tuples => simp [step_addTuple_fault hstep]
      | deleteQueue now =>
        obtain ⟨q₁, hdelete, _⟩ := hs.accounting.deleteQueue hC.1.1
        rw [step_deleteQueue, hdelete] at hstep
        cases hstep
      | addListener ope => cases hstep
      | addReferrer ope => cases hstep
    · exact RetentionInvariant.fresh hfresh
    · exact hcond.and horder
  exact hinv.imp fun s hs => hs.retained

/-- A tuple that expires, and another that keeps the row the window needs. -/
def expiryInOrder : List Op :=
  [.addTuple [] 1000000 [sampleTuple 1000], .deleteQueue 5000,
    .addTuple [] 15000000 [sampleTuple 15000], .deleteQueue 20000]

/-- A tuple that has expired may go, and one that the window has a row for stays. -/
theorem retained_expiryInOrder :
    Throughout stepHistory (· = .eraseBeyondEnd) Retained (oneRowQueue, {}) expiryInOrder :=
  retained_of_expiresInOrder oneRowQueue_fresh (by decide) (by decide) (by decide)

/-- A tuple that arrives fifteen seconds late, behind a current one. -/
def lateTuple : List Op :=
  [.addTuple [] 15000000 [sampleTuple 15000], .deleteQueue 15100,
    .addTuple [] 15500000 [sampleTuple 1000], .deleteQueue 16000]

/-- When the reservation of the late tuple expires, the current tuple is erased in
its place. -/
theorem lateTuple_not_retained :
    oneRowQueue.Fresh ∧ (∀ op ∈ lateTuple, op.isAddReferrer = false) ∧
      (lateTuple.filterMap Op.deleteTime).Pairwise (· ≤ ·) ∧
      ¬ Throughout stepHistory (· = .eraseBeyondEnd) Retained (oneRowQueue, {}) lateTuple := by
  refine ⟨oneRowQueue_fresh, by decide, by decide, ?_⟩
  intro h
  have hrun : ((run stepHistory (oneRowQueue, {}) lateTuple).toOption.map fun s =>
      (s.1.queue.length, s.2.added.map Tuple.getNewestTimestamp, s.2.lastDelete, s.1.maxMsec)) =
        some (1, [15000, 1000], some 16000, 10000) := by decide
  cases hend : run stepHistory (oneRowQueue, {}) lateTuple with
  | error e => simp [hend, Except.toOption] at hrun
  | ok s =>
    simp only [hend, Except.toOption, Option.map_some, Option.some.injEq, Prod.mk.injEq] at hrun
    obtain ⟨hlength, hadded, hlast, hmsec⟩ := hrun
    obtain ⟨d, hqueue, hneeded⟩ := h.final hend
    have hsize : s.2.added.length = 2 := by simpa using congrArg List.length hadded
    have hfirst : s.2.added[0].getNewestTimestamp = 15000 := by
      have := congrArg (·[0]?) hadded
      simpa [hsize] using this
    have hd : d ≤ 0 := by
      apply hneeded 0 (by omega)
      right
      intro now hnow
      obtain rfl : 16000 = now := by simpa [hlast] using hnow
      omega
    have hkept := congrArg List.length hqueue
    rw [List.length_drop] at hkept
    omega

end Queue

end IS

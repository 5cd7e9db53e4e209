import Dm20.Lib.Run
import Dm20.Queue.AddTuple
import Dm20.Queue.RangeWindow

open Run

namespace IS

namespace RangeWindow

/-- One notification of a window: the tuples that had arrived by then, in their
order, the reference time and what was handed over. -/
structure Notification where
  arrived : List Tuple
  referenceTime : Int
  handed : TupleSet

/-- A queue and the notifications that one of its listeners got, the latest first. -/
structure State where
  queue : Queue
  notifications : List Notification := []

/-- A batch with its clock reading, and the other queues at that time. -/
structure Batch where
  QM : QueueManager := []
  recvTime : Int
  tuples : List Tuple

/-- The batch as it is queued. -/
def Batch.stamped (b : Batch) (q : Queue) : List Tuple :=
  b.tuples.map (Queue.stamp q.schema b.recvTime)

/-- The newest timestamp of the first tuple of the batch. -/
def Batch.referenceTime (b : Batch) (q : Queue) : Int :=
  ((b.stamped q).head?.map Tuple.getNewestTimestamp).getD 0

/-- Adds a batch and records what the listener at the index receives. -/
def step (k : Nat) (s : State) (b : Batch) : Except Fault State :=
  match s.queue.addTuple b.QM b.recvTime b.tuples with
  | .error e => .error e
  | .ok (queue, handed) =>
    .ok
      { queue
        notifications :=
          { arrived := queue.queue
            referenceTime := b.referenceTime s.queue
            handed := (handed[k]?.join).getD {} } :: s.notifications }

/-- A tuple, by its place among those that arrived, has its moment at a
notification: its reference time is the first one since the tuple arrived that
is not before its newest timestamp. -/
def Moment (earlier : List Notification) (referenceTime : Int) (p : Nat) (t : Tuple) : Prop :=
  t.getNewestTimestamp ≤ referenceTime ∧
    ∀ m ∈ earlier, p < m.arrived.length → m.referenceTime < t.getNewestTimestamp

/-- A tuple is within the range of the window at a reference time. -/
def WithinRange (schema : Schema) (rangeMsec referenceTime : Int) (t : Tuple) : Prop :=
  t.checkTimestamp (referenceTime - rangeMsec) schema = true

instance (schema : Schema) (rangeMsec referenceTime : Int) (t : Tuple) :
    Decidable (WithinRange schema rangeMsec referenceTime t) :=
  inferInstanceAs (Decidable (_ = true))

/-- A notification delivers exactly the tuples that have their moment there and
are within the range, each once. -/
def Delivers (schema : Schema) (rangeMsec : Int) (earlier : List Notification) (n : Notification) : Prop :=
  ∃ ps : List Nat, ps.Nodup ∧ n.handed.tuples.map some = ps.map (n.arrived[·]?) ∧
    ∀ p t, n.arrived[p]? = some t →
      (p ∈ ps ↔ Moment earlier n.referenceTime p t ∧ WithinRange schema rangeMsec n.referenceTime t)

/-- Each tuple is delivered in one notification, that at which it has its
moment, if it is within the range then, and in no other one. -/
def DeliveredOnce (rangeMsec : Int) (s : State) : Prop :=
  ∀ n earlier, n :: earlier <:+ s.notifications → Delivers s.queue.schema rangeMsec earlier n

/-- A range window without duplicate data listens to its own stream. -/
structure Listening (k : Nat) (w : WindowOperator) (s : State) : Prop where
  listener : s.queue.listenerOperatorList[k]? = some (.window w)
  streamName : w.streamName = s.queue.streamName
  num : w.num ≤ 0
  msec : 0 < w.msec
  noDuplicates : w.allowDuplicateData = false

/-- A tuple, by its place among those that arrived, is due at a notification: it has its moment
there and is within the range. -/
def Due (schema : Schema) (rangeMsec : Int) (earlier : List Notification) (referenceTime : Int) (c : Tuple × Nat) :
    Prop :=
  Moment earlier referenceTime c.2 c.1 ∧ WithinRange schema rangeMsec referenceTime c.1

instance (schema : Schema) (rangeMsec : Int) (earlier : List Notification) (referenceTime : Int) (c : Tuple × Nat) :
    Decidable (Due schema rangeMsec earlier referenceTime c) :=
  inferInstanceAs (Decidable ((_ ∧ ∀ m ∈ earlier, _ → _) ∧ _))

/-- Of the tuples due at a notification the one that arrived last. -/
def lastDue (schema : Schema) (rangeMsec : Int) (earlier : List Notification) (referenceTime : Int)
    (arrived : List Tuple) : Option Tuple :=
  (arrived.zipIdx.reverse.find? fun c => decide (Due schema rangeMsec earlier referenceTime c)).map Prod.fst

/-- The newest timestamp of the tuple that arrived last of those due at the latest notification
at which any was due; a given time where none was due so far. -/
def dueTime (schema : Schema) (rangeMsec initial : Int) : List Notification → Int
  | [] => initial
  | n :: earlier =>
    ((lastDue schema rangeMsec earlier n.referenceTime n.arrived).map Tuple.getNewestTimestamp).getD
      (dueTime schema rangeMsec initial earlier)

/-- Of the tuples that have arrived and are not newer than the reference time, those that are due
arrived behind all others and are later than a time; and the last of the others is not later than
it, or not within the range. -/
structure InOrder (schema : Schema) (rangeMsec time : Int) (earlier : List Notification) (referenceTime : Int)
    (arrived : List Tuple) : Prop where
  later : ∀ c ∈ arrived.zipIdx, Due schema rangeMsec earlier referenceTime c → c.1.checkTimestamp time schema = true
  behind : ∀ c ∈ arrived.zipIdx, Due schema rangeMsec earlier referenceTime c →
    ∀ d ∈ arrived.zipIdx, c.2 < d.2 → d.1.getNewestTimestamp ≤ referenceTime →
      Due schema rangeMsec earlier referenceTime d
  closed : ∀ c ∈ arrived.zipIdx, c.1.getNewestTimestamp ≤ referenceTime →
    ¬ Due schema rangeMsec earlier referenceTime c →
    (∀ d ∈ arrived.zipIdx, c.2 < d.2 → d.1.getNewestTimestamp ≤ referenceTime →
      Due schema rangeMsec earlier referenceTime d) →
    c.1.checkTimestamp time schema = false ∨ ¬ WithinRange schema rangeMsec referenceTime c.1

instance (schema : Schema) (rangeMsec time : Int) (earlier : List Notification) (referenceTime : Int)
    (arrived : List Tuple) : Decidable (InOrder schema rangeMsec time earlier referenceTime arrived) :=
  decidable_of_iff (_ ∧ _ ∧ _) ⟨fun h => ⟨h.1, h.2.1, h.2.2⟩, fun h => ⟨h.later, h.behind, h.closed⟩⟩

/-- The condition on a batch with a tuple in it, of the timestamps of the tuples that have arrived
with it: they are in order with regard to the last tuple due before. -/
def Orderly (w : WindowOperator) (s : State) (b : Batch) : Prop :=
  b.tuples ≠ [] → InOrder s.queue.schema w.msec (dueTime s.queue.schema w.msec w.notifiedTime s.notifications)
    s.notifications (b.referenceTime s.queue) (s.queue.queue ++ b.stamped s.queue)

instance (w : WindowOperator) (s : State) (b : Batch) : Decidable (Orderly w s b) :=
  inferInstanceAs (Decidable (¬ _ = [] → _))

/-- The code takes a tuple exactly if it is not newer than the reference time, within the range
of it, and not notified yet. -/
private theorem inRange_iff {schema : Schema} {rangeMsec notified referenceTime : Int} {t : Tuple} :
    Queue.InRange schema rangeMsec notified referenceTime t ↔
      t.getNewestTimestamp ≤ referenceTime ∧ WithinRange schema rangeMsec referenceTime t ∧
        t.checkTimestamp notified schema = true := by
  unfold Queue.InRange WithinRange
  rw [Tuple.checkTimestamp_iff, Tuple.checkTimestamp_iff]
  refine and_congr_right fun _ =>
    ⟨fun h => ⟨fun i hi hvisible => ?_, fun i hi hvisible => ?_⟩, fun h i hi hvisible => ?_⟩
  · exact lt_of_le_of_lt (le_max_left _ _) (h i hi hvisible)
  · exact lt_of_le_of_lt (le_max_right _ _) (h i hi hvisible)
  · exact max_lt (h.1 i hi hvisible) (h.2 i hi hvisible)

/-- The range retrieval goes back to a tuple where it and each later arrival up
to the reference time are in the range. -/
theorem mem_positions_range_iff {schema : Schema} {rangeMsec notified referenceTime : Int} {arrived : List Tuple}
    {p : Nat} {t : Tuple} (ht : arrived[p]? = some t) :
    p ∈ Scan.positions (Queue.rangeVerdict schema rangeMsec notified referenceTime) none 0 arrived ↔
      Queue.InRange schema rangeMsec notified referenceTime t ∧
        ∀ p' u, p < p' → arrived[p']? = some u → u.getNewestTimestamp ≤ referenceTime →
          Queue.InRange schema rangeMsec notified referenceTime u := by
  have hstop : ∀ u, Queue.rangeVerdict schema rangeMsec notified referenceTime u ≠ .stop ↔
      (u.getNewestTimestamp ≤ referenceTime → Queue.InRange schema rangeMsec notified referenceTime u) := by
    intro u
    rw [← Queue.rangeVerdict_eq_take_iff]
    unfold Queue.rangeVerdict
    split_ifs with hnewest hcheck <;> simp [hnewest]
  rw [Scan.mem_positions_none_iff]
  simp only [hstop, Queue.rangeVerdict_eq_take_iff]
  constructor
  · rintro ⟨u, hu, hrange, hall⟩
    obtain rfl : t = u := Option.some.inj (ht.symm.trans hu)
    exact ⟨hrange, hall⟩
  · rintro ⟨hrange, hall⟩
    exact ⟨t, ht, hrange, hall⟩

section Scans

variable {schema : Schema} {rangeMsec time referenceTime : Int} {earlier : List Notification} {arrived : List Tuple}

/-- Of the tuples that are not due and not newer than the reference time, one is the last. -/
theorem exists_last {c : Tuple × Nat} (hc : c ∈ arrived.zipIdx) (hnewest : c.1.getNewestTimestamp ≤ referenceTime)
    (hnot : ¬ Due schema rangeMsec earlier referenceTime c) :
    ∃ d ∈ arrived.zipIdx, c.2 ≤ d.2 ∧ d.1.getNewestTimestamp ≤ referenceTime ∧
      ¬ Due schema rangeMsec earlier referenceTime d ∧
      ∀ e ∈ arrived.zipIdx, d.2 < e.2 → e.1.getNewestTimestamp ≤ referenceTime →
        Due schema rangeMsec earlier referenceTime e := by
  -- induction on the number of tuples behind the one that is not due
  induction hleft : arrived.length - c.2 using Nat.strong_induction_on generalizing c with
  | _ left ih =>
    by_cases hlast : ∀ e ∈ arrived.zipIdx, c.2 < e.2 → e.1.getNewestTimestamp ≤ referenceTime →
        Due schema rangeMsec earlier referenceTime e
    · exact ⟨c, hc, le_rfl, hnewest, hnot, hlast⟩
    · push Not at hlast
      obtain ⟨e, he, hlt, henewest, henot⟩ := hlast
      have hbound : e.2 < arrived.length := (List.mem_zipIdx' he).1
      obtain ⟨d, hd, hle, hrest⟩ := ih (arrived.length - e.2) (by omega) he henewest henot rfl
      exact ⟨d, hd, by omega, hrest⟩

/-- The retrieval goes back to exactly the tuples that are due where the tuples are in order. -/
theorem inOrder_iff : InOrder schema rangeMsec time earlier referenceTime arrived ↔
    ∀ c ∈ arrived.zipIdx, c.2 ∈ Scan.positions (Queue.rangeVerdict schema rangeMsec time referenceTime) none 0 arrived ↔
      Due schema rangeMsec earlier referenceTime c := by
  have hget : ∀ c ∈ arrived.zipIdx, arrived[c.2]? = some c.1 := fun c hc => List.mem_zipIdx_iff_getElem?.mp hc
  constructor
  · intro h c hc
    rw [mem_positions_range_iff (hget c hc)]
    constructor
    · rintro ⟨hrange, hall⟩
      obtain ⟨hnewest, hwithin, -⟩ := inRange_iff.mp hrange
      by_contra hnot
      obtain ⟨d, hd, hle, hdnewest, hdnot, hlast⟩ := exists_last hc hnewest hnot
      have hdrange : Queue.InRange schema rangeMsec time referenceTime d.1 := by
        rcases Nat.eq_or_lt_of_le hle with heq | hlt
        · have hsame := (heq ▸ hget c hc).symm.trans (hget d hd)
          rwa [← Option.some.inj hsame]
        · exact hall d.2 d.1 hlt (hget d hd) hdnewest
      obtain ⟨-, hdwithin, hdlater⟩ := inRange_iff.mp hdrange
      rcases h.closed d hd hdnewest hdnot hlast with hearly | hout
      · exact absurd (hdlater.symm.trans hearly) (by simp)
      · exact hout hdwithin
    · intro hdue
      refine ⟨inRange_iff.mpr ⟨hdue.1.1, hdue.2, h.later c hc hdue⟩, fun p u hlt hu hnewest => ?_⟩
      have hd : (u, p) ∈ arrived.zipIdx := List.mem_zipIdx_iff_getElem?.mpr hu
      have hdDue := h.behind c hc hdue (u, p) hd hlt hnewest
      exact inRange_iff.mpr ⟨hnewest, hdDue.2, h.later (u, p) hd hdDue⟩
  · intro h
    refine ⟨fun c hc hdue => ?_, fun c hc hdue d hd hlt hnewest => ?_, fun c hc hnewest hnot hlast => ?_⟩
    · have hrange := ((mem_positions_range_iff (hget c hc)).mp ((h c hc).mpr hdue)).1
      exact (inRange_iff.mp hrange).2.2
    · obtain ⟨-, hall⟩ := (mem_positions_range_iff (hget c hc)).mp ((h c hc).mpr hdue)
      refine (h d hd).mp ((mem_positions_range_iff (hget d hd)).mpr ⟨hall d.2 d.1 hlt (hget d hd) hnewest, ?_⟩)
      exact fun p u hbehind => hall p u (hlt.trans hbehind)
    · by_contra hboth
      push Not at hboth
      refine hnot ((h c hc).mp ((mem_positions_range_iff (hget c hc)).mpr ⟨inRange_iff.mpr ⟨hnewest, hboth.2, ?_⟩, ?_⟩))
      · exact Bool.eq_true_of_not_eq_false hboth.1
      · intro p u hlt hu hunewest
        have hd : (u, p) ∈ arrived.zipIdx := List.mem_zipIdx_iff_getElem?.mpr hu
        have hpositions := (h (u, p) hd).mpr (hlast (u, p) hd hlt hunewest)
        exact ((mem_positions_range_iff hu).mp hpositions).1

/-- Where the tuples that the retrieval goes back to are those that are due, they stand at the
places that are due: of two equal tuples the one that arrived first is due only with the other. -/
theorem mem_positions_iff_of_delivers {ps : List Nat} (hps : ps.Nodup)
    (hsame : (Scan.positions (Queue.rangeVerdict schema rangeMsec time referenceTime) none 0 arrived).map
      (arrived[·]?) = ps.map (arrived[·]?))
    (hdue : ∀ p t, arrived[p]? = some t → (p ∈ ps ↔ Due schema rangeMsec earlier referenceTime (t, p))) (p : Nat) :
    p ∈ Scan.positions (Queue.rangeVerdict schema rangeMsec time referenceTime) none 0 arrived ↔ p ∈ ps := by
  have hsub : ∀ p ∈ ps, p ∈ Scan.positions (Queue.rangeVerdict schema rangeMsec time referenceTime) none 0 arrived := by
    intro p hp
    by_contra hnot
    obtain ⟨q, hq, hqnot, hvalue⟩ := Scan.exists_of_map_eq hsame (Scan.nodup_positions _ _ _ _) hp hnot
    obtain ⟨t, ht⟩ : ∃ t, arrived[q]? = some t := by
      obtain ⟨t, ht, -⟩ := Scan.mem_positions_none_iff.mp hq
      exact ⟨t, ht⟩
    have hpt : arrived[p]? = some t := hvalue.symm.trans ht
    obtain ⟨hrange, hall⟩ := (mem_positions_range_iff ht).mp hq
    have hlt : p < q := by
      by_contra hle
      rcases Nat.eq_or_lt_of_le (Nat.le_of_not_lt hle) with rfl | hlt
      · exact hnot hq
      · exact hnot ((mem_positions_range_iff hpt).mpr ⟨hrange, fun p' u hbehind => hall p' u (hlt.trans hbehind)⟩)
    obtain ⟨hmoment, hwithin⟩ := (hdue p t hpt).mp hp
    refine hqnot ((hdue q t ht).mpr ⟨⟨hmoment.1, fun m hm hbefore => ?_⟩, hwithin⟩)
    exact hmoment.2 m hm (hlt.trans hbefore)
  refine ⟨fun hp => ?_, hsub p⟩
  by_contra hnot
  obtain ⟨q, hq, hqnot, -⟩ := Scan.exists_of_map_eq hsame.symm hps hp hnot
  exact hqnot (hsub q hq)

/-- A notification of what the retrieval goes back to delivers what is due exactly where the tuples
are in order. -/
theorem delivers_iff {handed : TupleSet} (hhanded : handed.tuples =
      Scan.scan (Queue.rangeVerdict schema rangeMsec time referenceTime) none arrived.reverse) :
    Delivers schema rangeMsec earlier ⟨arrived, referenceTime, handed⟩ ↔
      InOrder schema rangeMsec time earlier referenceTime arrived := by
  have hscan : handed.tuples.map some = (Scan.positions (Queue.rangeVerdict schema rangeMsec time referenceTime)
      none 0 arrived).map (arrived[·]?) := by
    rw [hhanded]
    exact Scan.scan_map_some _ none 0 _
  rw [inOrder_iff]
  constructor
  · rintro ⟨ps, hps, htuples, hdue⟩ c hc
    rw [mem_positions_iff_of_delivers hps (hscan.symm.trans htuples) hdue]
    exact hdue c.2 c.1 (List.mem_zipIdx_iff_getElem?.mp hc)
  · intro h
    refine ⟨_, Scan.nodup_positions _ _ _ _, hscan, fun p t ht => ?_⟩
    exact h (t, p) (List.mem_zipIdx_iff_getElem?.mpr ht)

/-- Where the tuples are in order, the first tuple handed over is the last one due. -/
theorem InOrder.head?_scan (h : InOrder schema rangeMsec time earlier referenceTime arrived) :
    (Scan.scan (Queue.rangeVerdict schema rangeMsec time referenceTime) none arrived.reverse).head? =
      lastDue schema rangeMsec earlier referenceTime arrived :=
  Scan.head?_scan_reverse fun c hc => (inOrder_iff.mp h c hc).trans decide_eq_true_iff.symm

end Scans

/-- A window by time on its own stream is handed a range of it, and goes on with the newest
timestamp of the first tuple of it. -/
theorem notify_range {q : Queue} {QM : QueueManager} {recvTime : Int} {tuples : List Tuple} {w : WindowOperator}
    (hstream : w.streamName = q.streamName) (hnum : w.num ≤ 0) (hmsec : 0 < w.msec)
    (hdup : w.allowDuplicateData = false) {r : Operator × Option TupleSet}
    (h : q.notify QM recvTime tuples (.window w) = .ok r) :
    ∃ t rest handed, tuples = t :: rest ∧ r.2 = some handed ∧
      handed = q.getTupleSetRange w.msec w.notifiedTime t.getNewestTimestamp { type := .master, recvTime } ∧
      r.1 = .window { w with
        notifiedTime := (handed.tuples.head?.map Tuple.getNewestTimestamp).getD w.notifiedTime } := by
  cases tuples with
  | nil => simp [Queue.notify, not_lt.mpr hnum, hmsec] at h
  | cons t rest =>
    have hown : q.timeTupleSet QM w t.getNewestTimestamp { type := .master, recvTime } =
        q.getTupleSetRange w.msec w.notifiedTime t.getNewestTimestamp { type := .master, recvTime } := by
      rw [Queue.timeTupleSet, if_pos hstream]
    simp only [Queue.notify, gt_iff_lt, not_lt.mpr hnum, if_false, hmsec, if_true, hown] at h
    refine ⟨t, rest, _, rfl, ?_, rfl, ?_⟩
    · split at h <;> cases h <;> rfl
    · split at h
      · next hnone =>
        cases h
        rw [hnone]
        rfl
      · next newest _ hsome =>
        cases h
        rw [hsome, WindowOperator.setNotifiedTime, if_neg (by simp [hdup])]
        rfl

/-- What a batch adds to the record: one notification, of a scan of all that arrived; and the
window goes on with the newest timestamp of the first tuple handed over. -/
theorem Listening.step {k : Nat} {w : WindowOperator} {s s' : State} {b : Batch} (h : Listening k w s)
    (hstep : step k s b = .ok s') :
    ∃ handed, handed.tuples = Scan.scan (Queue.rangeVerdict s.queue.schema w.msec w.notifiedTime
        (b.referenceTime s.queue)) none (s.queue.queue ++ b.stamped s.queue).reverse ∧
      Listening k { w with
        notifiedTime := (handed.tuples.head?.map Tuple.getNewestTimestamp).getD w.notifiedTime } s' ∧
      s'.queue.schema = s.queue.schema ∧ b.tuples ≠ [] ∧
      s'.notifications = ⟨s.queue.queue ++ b.stamped s.queue, b.referenceTime s.queue, handed⟩ :: s.notifications := by
  unfold RangeWindow.step at hstep
  split at hstep
  · cases hstep
  · next queue handed hadd =>
    cases hstep
    obtain ⟨notified, hnotified, rfl, rfl⟩ := Queue.addTuple_spec hadd
    obtain ⟨hk, hget⟩ := List.getElem?_eq_some_iff.mp h.listener
    have hk' : k < notified.length := by rw [← hnotified.length_eq]; exact hk
    have hresult := hnotified.get hk hk'
    rw [List.get_eq_getElem, hget] at hresult
    obtain ⟨t, rest, handed, hbatch, hhanded, hrange, hwindow⟩ :=
      notify_range (q := s.queue.enqueue b.recvTime b.tuples) h.streamName h.num h.msec h.noDuplicates hresult
    rw [List.get_eq_getElem] at hwindow hhanded
    have hreference : b.referenceTime s.queue = t.getNewestTimestamp := by
      rw [Batch.referenceTime, Batch.stamped, hbatch]
      rfl
    refine ⟨handed, ?_, ⟨?_, h.streamName, h.num, h.msec, h.noDuplicates⟩, rfl, ?_, ?_⟩
    · rw [hreference, hrange]
      rfl
    · simp [List.getElem?_eq_getElem hk', hwindow]
    · rintro hnil
      rw [hnil] at hbatch
      cases hbatch
    · simp only [List.getElem?_map, List.getElem?_eq_getElem hk', Option.map_some, hhanded, Option.join_some,
        Option.getD_some]
      rfl

/-- A batch of which the listeners cannot be notified has no tuple. -/
theorem eq_nil_of_step_error {k : Nat} {s : State} {b : Batch} {e : Fault} (h : step k s b = .error e) :
    b.tuples = [] := by
  unfold step at h
  split at h
  · next hadd => exact Queue.eq_nil_of_addTuple_fault hadd
  · cases h

/-- A queue before its first batch, with a range window that listens to it. -/
structure Initial (k : Nat) (w : WindowOperator) (s : State) : Prop extends Listening k w s where
  queue : s.queue.queue = []
  notifications : s.notifications = []

/-- So far each tuple has been delivered once, and the window has the time of the last one due. -/
structure Kept (k : Nat) (w : WindowOperator) (s : State) : Prop where
  listening : Listening k
    { w with notifiedTime := dueTime s.queue.schema w.msec w.notifiedTime s.notifications } s
  delivered : DeliveredOnce w.msec s

/-- Before any batch nothing is due and nothing was handed on. -/
theorem Initial.kept {k : Nat} {w : WindowOperator} {s : State} (h : Initial k w s) : Kept k w s where
  listening := by
    rw [h.notifications]
    exact h.toListening
  delivered := fun n earlier hsuffix => by
    rw [h.notifications] at hsuffix
    cases List.suffix_nil.mp hsuffix

/-- A batch goes on delivering each tuple once exactly where it meets the condition. -/
theorem Kept.step {k : Nat} {w : WindowOperator} {s s' : State} {b : Batch} (h : Kept k w s)
    (hstep : step k s b = .ok s') :
    (DeliveredOnce w.msec s' ↔ Orderly w s b) ∧ (DeliveredOnce w.msec s' → Kept k w s') := by
  obtain ⟨handed, hhanded, hlistening, hschema, hne, hnotifications⟩ := h.listening.step hstep
  have hiff : DeliveredOnce w.msec s' ↔ Orderly w s b := by
    rw [Orderly, ← delivers_iff hhanded, forall_prop_of_true hne]
    constructor
    · intro hdelivered
      rw [← hschema]
      exact hdelivered _ _ (hnotifications ▸ List.suffix_refl _)
    · intro hnew n earlier hsuffix
      rw [hnotifications, List.suffix_cons_iff] at hsuffix
      rw [hschema]
      rcases hsuffix with heq | hsuffix
      · cases heq
        exact hnew
      · exact h.delivered n earlier hsuffix
  refine ⟨hiff, fun hdelivered => ⟨?_, hdelivered⟩⟩
  have hhead := (hiff.mp hdelivered hne).head?_scan
  rw [hhanded, hhead] at hlistening
  rw [hnotifications, hschema]
  exact hlistening

/-- In every run of batches each tuple is delivered once exactly where all batches meet the
condition. -/
theorem deliveredOnce_iff_orderly {k : Nat} {w : WindowOperator} {s : State} (hinitial : Initial k w s)
    (batches : List Batch) : Throughout (step k) (fun _ => False) (DeliveredOnce w.msec) s batches ↔
      Along (step k) (Orderly w) s batches :=
  throughout_iff_along (fun _ hkept => hkept.delivered) (fun _ _ _ hkept hstep => hkept.step hstep)
    (fun _ _ _ _ herror => ⟨fun hne => absurd (eq_nil_of_step_error herror) hne, id⟩) hinitial.kept batches

/-- A stream with a window of the last five seconds. -/
def sampleState : State :=
  { queue :=
      { streamName := "s".toList
        schema := { tablename := "s".toList, attributes := [{}] }
        listenerOperatorList := [.window { streamName := "s".toList, msec := 5000 }] } }

def sampleWindow : WindowOperator :=
  { streamName := "s".toList, msec := 5000 }

private theorem sampleState_initial : Initial 0 sampleWindow sampleState :=
  ⟨⟨rfl, rfl, by decide, by decide, rfl⟩, rfl, rfl⟩

/-- A batch of tuples with the given timestamps. -/
def batchOf (recvTime : Int) (timestamps : List Int) : Batch :=
  { recvTime, tuples := timestamps.map fun timestamp => { columns := [{ value := .scalar .int 7, timestamp }] } }

/-- A tuple of the second batch is newer than its reference time, and delivered with the third. -/
theorem deliveredOnce_iff_orderly_ahead :
    Throughout (step 0) (fun _ => False) (DeliveredOnce 5000) sampleState
      [batchOf 1 [9000], batchOf 2 [10000, 12000], batchOf 3 [12500]] :=
  (deliveredOnce_iff_orderly sampleState_initial _).mpr (by decide +kernel)

/-- The second tuple has the timestamp that was notified with the first one. -/
theorem sameTimestamp_not_deliveredOnce :
    Initial 0 sampleWindow sampleState ∧
      ¬ Throughout (step 0) (fun _ => False) (DeliveredOnce 5000) sampleState [batchOf 1 [9000], batchOf 2 [9000]] := by
  refine ⟨sampleState_initial, fun h => ?_⟩
  have hfinal := h.final (rfl : run (step 0) sampleState [batchOf 1 [9000], batchOf 2 [9000]] = .ok _)
  obtain ⟨ps, -, htuples, hmem⟩ := hfinal _ _ (List.suffix_refl _)
  have hnone : ps = [] := by
    have hlength := congrArg List.length htuples
    rw [List.length_map, List.length_map] at hlength
    exact List.length_eq_zero_iff.mp (hlength.symm.trans (by decide +kernel))
  have hsecond := (hmem 1 _ rfl).mpr ⟨⟨by decide +kernel, ?_⟩, by decide +kernel⟩
  · rw [hnone] at hsecond
    exact absurd hsecond List.not_mem_nil
  · intro m hm hlt
    cases List.mem_singleton.mp hm
    exact absurd hlt (by decide)

end RangeWindow

end IS

import Mathlib.Data.List.Range
import Dm20.Lib.Run
import Dm20.Queue.AddTuple

open Run

namespace IS

namespace MasterWindow

/-- How far an `addTuple` of the trigger stream has come. It holds the mutex of its
queue in every phase but `idle`. -/
inductive TriggerPhase where
  | idle
  | locked
  | received (recvTime : Int) (addedBefore : Nat)
  | reading (recvTime : Int) (addedBefore : Nat)
  | done (recvTime : Int)
deriving DecidableEq, Repr

/-- Who holds the mutex of the target queue. -/
inductive TargetMutex where
  | free
  | adding
  | added
  | trigger
deriving DecidableEq, Repr

/-- One retrieval of the window: the number of target tuples added before the
trigger read its clock, the number of target tuples received after the mark at the
time of the retrieval, and the tuples retrieved. -/
structure Retrieval where
  addedBefore : Nat
  fresh : Nat
  handed : TupleSet

/-- A window on the target stream `B` that is triggered by the stream `A`. The
retrievals are listed with the latest first. -/
structure State where
  A : Queue
  B : Queue
  window : WindowOperator
  clock : Int := 0
  trigger : TriggerPhase := .idle
  target : TargetMutex := .free
  retrievals : List Retrieval := []

/-- The atomic actions of the threads that add to the two streams. -/
inductive Act where
  | triggerLock
  | triggerReceive (recvTime : Int) (tuples : List Tuple)
  | triggerLockTarget
  | triggerRead
  | triggerFinish
  | targetLock
  | targetReceive (recvTime : Int) (tuples : List Tuple)
  | targetUnlock

/-- The tuples of the target queue received after the mark of the window. -/
def State.freshNum (s : State) : Nat :=
  (s.B.queue.filter fun t => decide (s.window.lastRecvTime < t.recvTime)).length

/-- One action, where it is enabled. A clock reading is later than the one before. -/
def step (s : State) : Act → Except Unit State
  | .triggerLock =>
    if s.trigger = .idle then .ok { s with trigger := .locked } else .error ()
  | .triggerReceive recvTime tuples =>
    if s.trigger = .locked ∧ s.clock < recvTime then
      .ok { s with
        A := s.A.enqueue recvTime tuples
        clock := recvTime
        trigger := .received recvTime s.B.queue.length }
    else .error ()
  | .triggerLockTarget =>
    match s.trigger with
    | .received recvTime addedBefore =>
      if s.target = .free then
        .ok { s with trigger := .reading recvTime addedBefore, target := .trigger }
      else .error ()
    | _ => .error ()
  | .triggerRead =>
    match s.trigger with
    | .reading recvTime addedBefore =>
      let handed := s.A.countTupleSet [(s.window.streamName, s.B)] s.window
        { type := .master, recvTime }
      .ok { s with
        trigger := .done recvTime
        target := .free
        retrievals := ⟨addedBefore, s.freshNum, handed⟩ :: s.retrievals }
    | _ => .error ()
  | .triggerFinish =>
    match s.trigger with
    | .done recvTime =>
      .ok { s with trigger := .idle, window := s.window.setLastRecvTime recvTime }
    | _ => .error ()
  | .targetLock =>
    if s.target = .free then .ok { s with target := .adding } else .error ()
  | .targetReceive recvTime tuples =>
    if s.target = .adding ∧ s.clock < recvTime then
      .ok { s with B := s.B.enqueue recvTime tuples, clock := recvTime, target := .added }
    else .error ()
  | .targetUnlock =>
    if s.target = .added then .ok { s with target := .free } else .error ()

/-- The system before any addition: a count window on another stream than its trigger. -/
structure Initial (s : State) : Prop where
  queue : s.B.queue = []
  trigger : s.trigger = .idle
  target : s.target = .free
  retrievals : s.retrievals = []
  mark : s.window.lastRecvTime ≤ s.clock
  other : s.window.streamName ≠ s.A.streamName
  num : 0 < s.window.num

/-- The retrievals returned the target tuples with the given arrival numbers. -/
def Returned (s : State) (arrivals : List (List Nat)) : Prop :=
  List.Forall₂ (fun (r : Retrieval) ps => r.handed.tuples.map some = ps.map (s.B.queue[·]?))
    s.retrievals arrivals

/-- The retrieval returned each tuple that had been added before the trigger read its
clock, was not returned by the earlier retrievals and is among the newest of those,
as many as the window takes. -/
def ReturnedNewest (limit : Option Nat) (r : Retrieval) (earlier now : List Nat) : Prop :=
  ∀ p, p < r.addedBefore → p ∉ earlier →
    (∀ n, limit = some n → r.addedBefore ≤ p + n) → p ∈ now

/-- As `ReturnedNewest`, for the tuples that are among the newest of those not
returned by the earlier retrievals. -/
def ReturnedUnretrieved (limit : Option Nat) (r : Retrieval) (earlier now : List Nat) : Prop :=
  ∀ p, p < r.addedBefore → p ∉ earlier →
    (∀ n, limit = some n →
      ((List.range r.addedBefore).filter fun p' => decide (p < p' ∧ p' ∉ earlier)).length < n) →
    p ∈ now

/-- A property of each retrieval, given the arrival numbers returned by it and by the
earlier ones. -/
def EachRetrieval (P : Retrieval → List Nat → List Nat → Prop) :
    List Retrieval → List (List Nat) → Prop
  | [], [] => True
  | r :: rs, ps :: pss => P r pss.flatten ps ∧ EachRetrieval P rs pss
  | _, _ => False

/-- No target tuple was returned by two retrievals, and each retrieval returned the
newest tuples that it had to. -/
def RetrievedOnce (s : State) : Prop :=
  ∃ arrivals, Returned s arrivals ∧ arrivals.flatten.Nodup ∧
    EachRetrieval (ReturnedNewest s.window.limit) s.retrievals arrivals

/-- As `RetrievedOnce`, where a retrieval has to return the newest of the tuples not
returned before. -/
def RetrievedAll (s : State) : Prop :=
  ∃ arrivals, Returned s arrivals ∧ arrivals.flatten.Nodup ∧
    EachRetrieval (ReturnedUnretrieved s.window.limit) s.retrievals arrivals

/-- The condition on a retrieval: no target tuple was received after the trigger read
its clock. -/
def ReadsInTime (s : State) : Act → Prop
  | .triggerRead =>
    match s.trigger with
    | .reading recvTime _ => ∀ t ∈ s.B.queue, t.recvTime ≤ recvTime
    | _ => True
  | _ => True

/-- The condition on a retrieval of some rows: where an earlier one found more new
tuples than it takes, this one finds as many as it takes. -/
def KeepsUp (s : State) : Act → Prop
  | .triggerRead => ∀ n ∈ s.window.limit, n ≤ s.freshNum ∨ ∀ r ∈ s.retrievals, r.fresh ≤ n
  | _ => True

instance (s : State) (a : Act) : Decidable (ReadsInTime s a) := by
  unfold ReadsInTime
  cases a <;> first | infer_instance | (cases s.trigger <;> infer_instance)

instance (s : State) (a : Act) : Decidable (KeepsUp s a) := by
  unfold KeepsUp
  cases a <;> infer_instance

/-- The arrival numbers of the retrievals so far, where all target tuples received up
to a bound were within reach of one of them. -/
structure Log (queue : List Tuple) (limit : Option Nat) (bound : Int) (retrievals : List Retrieval)
    (arrivals : List (List Nat)) : Prop where
  returned : List.Forall₂ (fun (r : Retrieval) ps => r.handed.tuples.map some = ps.map (queue[·]?))
    retrievals arrivals
  nodup : arrivals.flatten.Nodup
  newest : EachRetrieval (ReturnedNewest limit) retrievals arrivals
  retrieved : ∀ p ∈ arrivals.flatten, ∃ t, queue[p]? = some t ∧ t.recvTime ≤ bound
  kept : ∀ p t, queue[p]? = some t → t.recvTime ≤ bound → p ∉ arrivals.flatten →
    ∃ n, limit = some n ∧ p + n < queue.length
  caughtUp : (∀ n, limit = some n → ∀ r ∈ retrievals, r.fresh ≤ n) →
    ∀ p t, queue[p]? = some t → t.recvTime ≤ bound → p ∈ arrivals.flatten

private theorem getElem?_append_of_some {queue new : List Tuple} {p : Nat} {t : Tuple}
    (h : queue[p]? = some t) : (queue ++ new)[p]? = some t := by
  rw [List.getElem?_append_left (List.getElem?_eq_some_iff.mp h).1, h]

/-- Target tuples received after the bound do not change what the log says. -/
theorem Log.append {queue new : List Tuple} {limit : Option Nat} {bound : Int}
    {retrievals : List Retrieval} {arrivals : List (List Nat)}
    (h : Log queue limit bound retrievals arrivals) (hnew : ∀ t ∈ new, bound < t.recvTime) :
    Log (queue ++ new) limit bound retrievals arrivals := by
  have hold : ∀ (p : Nat) (t : Tuple), (queue ++ new)[p]? = some t → t.recvTime ≤ bound → queue[p]? = some t := by
    intro p t ht hle
    by_cases hp : p < queue.length
    · rwa [List.getElem?_append_left hp] at ht
    · rw [List.getElem?_append_right (by omega)] at ht
      have := hnew t (List.mem_of_getElem? ht)
      omega
  refine ⟨?_, h.nodup, h.newest, ?_, ?_, ?_⟩
  · exact h.returned.imp fun _ _ hmap => Scan.map_getElem?_extend (List.prefix_append _ _) hmap
  · intro p hp
    obtain ⟨t, ht, hle⟩ := h.retrieved p hp
    exact ⟨t, getElem?_append_of_some ht, hle⟩
  · intro p t ht hle hp
    obtain ⟨n, hn, hlt⟩ := h.kept p t (hold p t ht hle) hle hp
    exact ⟨n, hn, by rw [List.length_append]; omega⟩
  · intro hfresh p t ht hle
    exact h.caughtUp hfresh p t (hold p t ht hle) hle

/-- A queue in the order of reception splits at a mark. -/
theorem exists_split {queue : List Tuple}
    (hsorted : queue.Pairwise fun (t u : Tuple) => t.recvTime ≤ u.recvTime)
    (mark : Int) : ∃ old new, queue = old ++ new ∧ (∀ t ∈ old, t.recvTime ≤ mark) ∧
      ∀ t ∈ new, mark < t.recvTime := by
  induction queue with
  | nil => exact ⟨[], [], rfl, by simp, by simp⟩
  | cons t queue ih =>
    obtain ⟨hhead, htail⟩ := List.pairwise_cons.mp hsorted
    by_cases ht : t.recvTime ≤ mark
    · obtain ⟨old, new, rfl, hold, hnew⟩ := ih htail
      refine ⟨t :: old, new, rfl, ?_, hnew⟩
      intro u hu
      rcases List.mem_cons.mp hu with rfl | hu
      · exact ht
      · exact hold u hu
    · refine ⟨[], t :: queue, rfl, by simp, ?_⟩
      intro u hu
      rcases List.mem_cons.mp hu with rfl | hu
      · omega
      · have := hhead u hu
        omega

/-- As many places stand behind one as are left of the list. -/
private theorem length_filter_range_lt (p n : Nat) :
    ((List.range n).filter fun p' => decide (p < p')).length = n - (p + 1) := by
  induction n with
  | zero => simp
  | succ n ih =>
    rw [List.range_succ, List.filter_append, List.length_append, ih]
    by_cases h : p < n
    · simp [h]
      omega
    · simp [h]
      omega

section Retrieve

variable {old new : List Tuple} {limit : Option Nat} {mark recvTime workers : Int} {retrievals : List Retrieval}
  {arrivals : List (List Nat)}

/-- Of tuples that are divided by a time, those after it are the second part. -/
private theorem filter_split (hold : ∀ t ∈ old, t.recvTime ≤ mark) (hnew : ∀ t ∈ new, mark < t.recvTime) :
    (old ++ new).filter (fun t => decide (mark < t.recvTime)) = new := by
  have hnone : old.filter (fun t => decide (mark < t.recvTime)) = [] := by
    rw [List.filter_eq_nil_iff]
    intro t ht
    have := hold t ht
    simp only [decide_eq_true_eq]
    omega
  have hall : new.filter (fun t => decide (mark < t.recvTime)) = new := by
    rw [List.filter_eq_self]
    intro t ht
    simpa using hnew t ht
  rw [List.filter_append, hnone, hall, List.nil_append]

private theorem exists_old (hold : ∀ t ∈ old, t.recvTime ≤ mark) {p : Nat} (hp : p < old.length) :
    ∃ t, (old ++ new)[p]? = some t ∧ t.recvTime ≤ mark := by
  refine ⟨old[p], ?_, hold _ (List.getElem_mem hp)⟩
  rw [List.getElem?_append_left hp, List.getElem?_eq_getElem hp]

/-- A tuple behind the mark is new to a log up to the mark. -/
theorem Log.lt_of_retrieved (h : Log (old ++ new) limit mark retrievals arrivals)
    (hnew : ∀ t ∈ new, mark < t.recvTime) {p : Nat} (hp : p ∈ arrivals.flatten) : p < old.length := by
  obtain ⟨t, ht, hle⟩ := h.retrieved p hp
  by_contra hge
  rw [List.getElem?_append_right (by omega)] at ht
  have := hnew t (List.mem_of_getElem? ht)
  omega

/-- A retrieval returns each tuple behind the mark that is within the reach of the window,
which is a positive number of rows. -/
theorem mem_positions_of_reach (hnew : ∀ t ∈ new, mark < t.recvTime) (hlimit : ∀ n, limit = some n → 0 < n)
    {p : Nat} (hle : old.length ≤ p) (hlt : p < (old ++ new).length)
    (hreach : ∀ n, limit = some n → (old ++ new).length ≤ p + n) :
    p ∈ Scan.positions (Queue.recvVerdict workers mark) limit 0 (old ++ new) := by
  rw [List.length_append] at hlt
  refine Scan.mem_positions_of_newest (n := (old ++ new).length - p) (by omega) ?_ ?_ hle hlt ?_
  · intro t ht
    exact Queue.recvVerdict_eq_take_iff.mpr (hnew t ht)
  · intro n hn'
    have := hreach n hn'
    have := hlimit n hn'
    omega
  · rw [List.length_append]
    omega

/-- The tuples behind the mark are among those not returned before: as many of them
are newer than a given one as stand behind it. -/
theorem Log.le_unretrieved (h : Log (old ++ new) limit mark retrievals arrivals)
    (hnew : ∀ t ∈ new, mark < t.recvTime) {p q : Nat} (hpq : p ≤ q) (hq : old.length ≤ q + 1) :
    (old ++ new).length - (q + 1) ≤
      ((List.range (old ++ new).length).filter fun p' => decide (p < p' ∧ p' ∉ arrivals.flatten)).length := by
  rw [← length_filter_range_lt q (old ++ new).length, ← List.countP_eq_length_filter,
    ← List.countP_eq_length_filter]
  apply List.countP_mono_left
  intro p' _ hlt
  simp only [decide_eq_true_eq] at hlt ⊢
  refine ⟨by omega, ?_⟩
  intro hmem
  have := h.lt_of_retrieved hnew hmem
  omega

/-- A retrieval in time, with the tuples behind the mark, is one more of the log. -/
theorem Log.cons (h : Log (old ++ new) limit mark retrievals arrivals) (hold : ∀ t ∈ old, t.recvTime ≤ mark)
    (hnew : ∀ t ∈ new, mark < t.recvTime) (hintime : ∀ t ∈ old ++ new, t.recvTime ≤ recvTime)
    (hmark : mark ≤ recvTime) (hlimit : ∀ n, limit = some n → 0 < n) {r : Retrieval}
    (hadded : r.addedBefore = (old ++ new).length) (hfresh : r.fresh = new.length)
    (hhanded : r.handed.tuples = Scan.scan (Queue.recvVerdict workers mark) limit (old ++ new).reverse) :
    Log (old ++ new) limit recvTime (r :: retrievals)
      (Scan.positions (Queue.recvVerdict workers mark) limit 0 (old ++ new) :: arrivals) := by
  refine ⟨.cons ?_ h.returned, ?_, ⟨?_, h.newest⟩, ?_, ?_, ?_⟩
  · rw [hhanded]
    exact Scan.scan_map_some _ _ 0 _
  · rw [List.flatten_cons, List.nodup_append]
    refine ⟨Scan.nodup_positions _ _ _ _, h.nodup, ?_⟩
    intro p hp p' hp' heq
    subst heq
    obtain ⟨t, ht, htake⟩ := Scan.mem_positions hp
    obtain ⟨u, hu, hle⟩ := h.retrieved p hp'
    obtain rfl : t = u := by simpa [ht] using hu
    have := Queue.recvVerdict_eq_take_iff.mp htake
    omega
  · intro p hp hunretrieved hn
    rw [hadded] at hp hn
    by_cases hpos : p < old.length
    · obtain ⟨t, ht, hle⟩ := exists_old hold hpos
      obtain ⟨n, hsome, hlt⟩ := h.kept p t ht hle hunretrieved
      have := hn n hsome
      omega
    · exact mem_positions_of_reach hnew hlimit (by omega) hp hn
  · intro p hp
    rcases List.mem_append.mp hp with hp | hp
    · obtain ⟨t, ht, _⟩ := Scan.mem_positions hp
      exact ⟨t, ht, hintime t (List.mem_of_getElem? ht)⟩
    · obtain ⟨t, ht, hle⟩ := h.retrieved p hp
      exact ⟨t, ht, by omega⟩
  · intro p t ht _ hp
    rw [List.flatten_cons, List.mem_append, not_or] at hp
    by_cases hpos : p < old.length
    · obtain ⟨u, hu, hle⟩ := exists_old hold hpos
      exact h.kept p u hu hle hp.2
    · by_contra hnone
      apply hp.1
      refine mem_positions_of_reach hnew hlimit (by omega) (List.getElem?_eq_some_iff.mp ht).1 ?_
      intro n hsome
      by_contra hlt
      exact hnone ⟨n, hsome, by omega⟩
  · intro hall p t ht _
    rw [List.flatten_cons, List.mem_append]
    by_cases hpos : p < old.length
    · obtain ⟨u, hu, hle⟩ := exists_old hold hpos
      right
      exact h.caughtUp (fun n hn r' hr' => hall n hn r' (List.mem_cons_of_mem _ hr')) p u hu hle
    · left
      have hlt := (List.getElem?_eq_some_iff.mp ht).1
      refine mem_positions_of_reach hnew hlimit (by omega) hlt ?_
      intro n hn
      have := hall n hn r (List.mem_cons_self ..)
      rw [List.length_append] at hlt ⊢
      omega

/-- Where it keeps up, it returns the newest of the tuples not returned before. -/
theorem Log.unretrieved (h : Log (old ++ new) limit mark retrievals arrivals) (hold : ∀ t ∈ old, t.recvTime ≤ mark)
    (hnew : ∀ t ∈ new, mark < t.recvTime) (hlimit : ∀ n, limit = some n → 0 < n) {r : Retrieval}
    (hadded : r.addedBefore = (old ++ new).length) (hfresh : r.fresh = new.length)
    (hkeep : ∀ n, limit = some n → n ≤ r.fresh ∨ ∀ r' ∈ retrievals, r'.fresh ≤ n) :
    ReturnedUnretrieved limit r arrivals.flatten
      (Scan.positions (Queue.recvVerdict workers mark) limit 0 (old ++ new)) := by
  intro p hp hunretrieved hfew
  rw [hadded] at hp hfew
  have hpos : ¬ p < old.length := by
    intro hpos
    obtain ⟨t, ht, hle⟩ := exists_old hold hpos
    obtain ⟨n, hsome, _⟩ := h.kept p t ht hle hunretrieved
    rcases hkeep n hsome with hmany | hcaught
    · have hlt := hfew n hsome
      have hle : _ ≤ _ := h.le_unretrieved (p := p) (q := old.length - 1) hnew (by omega) (by omega)
      rw [List.length_append] at hle hlt
      omega
    · apply hunretrieved
      refine h.caughtUp ?_ p t ht hle
      intro m hm
      obtain rfl : n = m := by simpa [hsome] using hm
      exact hcaught
  refine mem_positions_of_reach hnew hlimit (by omega) hp ?_
  intro n hsome
  have hlt := hfew n hsome
  have hle := h.le_unretrieved hnew (le_refl p) (by omega)
  omega

end Retrieve

/-- What one retrieval does to the log: it returns the newest of the tuples received
after the mark, so nothing that was returned before. -/
theorem Log.retrieve {queue : List Tuple} {limit : Option Nat} {mark recvTime workers : Int}
    {retrievals : List Retrieval} {arrivals : List (List Nat)}
    (h : Log queue limit mark retrievals arrivals)
    (hsorted : queue.Pairwise fun (t u : Tuple) => t.recvTime ≤ u.recvTime)
    (hintime : ∀ t ∈ queue, t.recvTime ≤ recvTime) (hmark : mark ≤ recvTime)
    (hlimit : ∀ n, limit = some n → 0 < n) {r : Retrieval} (hadded : r.addedBefore = queue.length)
    (hfresh : r.fresh = (queue.filter fun t => decide (mark < t.recvTime)).length)
    (hhanded : r.handed.tuples =
      Scan.scan (Queue.recvVerdict workers mark) limit queue.reverse) :
    Log queue limit recvTime (r :: retrievals)
        (Scan.positions (Queue.recvVerdict workers mark) limit 0 queue :: arrivals) ∧
      ((∀ n, limit = some n → n ≤ r.fresh ∨ ∀ r' ∈ retrievals, r'.fresh ≤ n) →
        ReturnedUnretrieved limit r arrivals.flatten
          (Scan.positions (Queue.recvVerdict workers mark) limit 0 queue)) := by
  obtain ⟨old, new, rfl, hold, hnew⟩ := exists_split hsorted mark
  rw [filter_split hold hnew] at hfresh
  exact ⟨h.cons hold hnew hintime hmark hlimit hadded hfresh hhanded,
    h.unretrieved hold hnew hlimit hadded hfresh⟩

/-- The reception time up to which the retrievals have looked. -/
def State.bound (s : State) : Int :=
  match s.trigger with
  | .done recvTime => recvTime
  | _ => s.window.lastRecvTime

/-- What a trigger step knows of the clock: its reading is not before the mark, and
separates the target tuples added before it from those added after it. -/
def PhaseInvariant (s : State) : Prop :=
  match s.trigger with
  | .idle => True
  | .locked => True
  | .received recvTime addedBefore | .reading recvTime addedBefore =>
    s.window.lastRecvTime ≤ recvTime ∧ recvTime ≤ s.clock ∧ addedBefore ≤ s.B.queue.length ∧
      ∀ t ∈ s.B.queue.drop addedBefore, recvTime < t.recvTime
  | .done recvTime => recvTime ≤ s.clock

/-- The clock is ahead of the target queue, which is in the order of reception, and of the mark. -/
structure Timing (s : State) : Prop where
  sorted : s.B.queue.Pairwise fun (t u : Tuple) => t.recvTime ≤ u.recvTime
  queue : ∀ t ∈ s.B.queue, t.recvTime ≤ s.clock
  mark : s.window.lastRecvTime ≤ s.clock
  phase : PhaseInvariant s
  other : s.window.streamName ≠ s.A.streamName
  num : 0 < s.window.num

/-- No retrieval has looked beyond the clock. -/
theorem Timing.bound_le {s : State} (h : Timing s) : s.bound ≤ s.clock := by
  have hphase := h.phase
  unfold PhaseInvariant at hphase
  unfold State.bound
  cases htrigger : s.trigger with
  | done recvTime =>
    rw [htrigger] at hphase
    exact hphase
  | idle => exact h.mark
  | locked => exact h.mark
  | received recvTime addedBefore => exact h.mark
  | reading recvTime addedBefore => exact h.mark

/-- An addition to the target stream comes after the reading of a trigger that has
read its clock. -/
theorem Timing.targetReceive {s : State} (h : Timing s) {recvTime : Int}
    (hclock : s.clock < recvTime) {tuples : List Tuple} :
    PhaseInvariant { s with
      B := s.B.enqueue recvTime tuples, clock := recvTime, target := .added } := by
  have hafter : ∀ reading addedBefore, (s.window.lastRecvTime ≤ reading ∧ reading ≤ s.clock ∧
      addedBefore ≤ s.B.queue.length ∧ ∀ t ∈ s.B.queue.drop addedBefore, reading < t.recvTime) →
      s.window.lastRecvTime ≤ reading ∧ reading ≤ recvTime ∧
        addedBefore ≤ (s.B.enqueue recvTime tuples).queue.length ∧
        ∀ t ∈ (s.B.enqueue recvTime tuples).queue.drop addedBefore, reading < t.recvTime := by
    intro reading addedBefore ⟨hmark, hreading, hadded, hdrop⟩
    refine ⟨hmark, by omega, ?_, ?_⟩
    · simp only [Queue.enqueue, List.length_append]
      omega
    · intro t ht
      simp only [Queue.enqueue, List.drop_append_of_le_length hadded] at ht
      rcases List.mem_append.mp ht with ht | ht
      · exact hdrop t ht
      · obtain ⟨u, _, rfl⟩ := List.mem_map.mp ht
        rw [Queue.stamp_recvTime]
        omega
  have hphase := h.phase
  unfold PhaseInvariant at hphase ⊢
  cases htrigger : s.trigger with
  | idle => trivial
  | locked => trivial
  | received reading addedBefore =>
    rw [htrigger] at hphase
    exact hafter reading addedBefore hphase
  | reading reading addedBefore =>
    rw [htrigger] at hphase
    exact hafter reading addedBefore hphase
  | done reading =>
    rw [htrigger] at hphase
    simp only at hphase ⊢
    omega

/-- The trigger reads its clock, which is ahead of the mark and of the target queue. -/
theorem Timing.triggerReceive {s : State} (h : Timing s) {recvTime : Int} (hclock : s.clock < recvTime)
    (tuples : List Tuple) :
    Timing { s with
      A := s.A.enqueue recvTime tuples, clock := recvTime, trigger := .received recvTime s.B.queue.length } := by
  have hmark := h.mark
  refine ⟨h.sorted, ?_, ?_, ?_, h.other, h.num⟩
  · intro t htmem
    have := h.queue t htmem
    simp only
    omega
  · simp only
    omega
  · refine ⟨?_, le_rfl, le_rfl, by simp⟩
    simp only
    omega

private theorem recvTime_of_mem_stamp {s : State} {recvTime : Int} {tuples : List Tuple} {t : Tuple}
    (ht : t ∈ tuples.map (Queue.stamp s.B.schema recvTime)) : t.recvTime = recvTime := by
  obtain ⟨u, _, rfl⟩ := List.mem_map.mp ht
  rw [Queue.stamp_recvTime]

/-- An addition to the target stream keeps its queue in the order of reception and behind
the clock. -/
theorem Timing.enqueue {s : State} (h : Timing s) {recvTime : Int} (hclock : s.clock < recvTime)
    (tuples : List Tuple) :
    Timing { s with B := s.B.enqueue recvTime tuples, clock := recvTime, target := .added } := by
  have hmark := h.mark
  refine ⟨?_, ?_, ?_, h.targetReceive hclock, h.other, h.num⟩
  · change (s.B.queue ++ _).Pairwise _
    rw [List.pairwise_append]
    refine ⟨h.sorted, List.pairwise_of_forall_mem_list ?_, ?_⟩
    · intro t htmem u humem
      rw [recvTime_of_mem_stamp htmem, recvTime_of_mem_stamp humem]
    · intro t htmem u humem
      have := h.queue t htmem
      rw [recvTime_of_mem_stamp humem]
      omega
  · intro t htmem
    change t ∈ s.B.queue ++ _ at htmem
    change t.recvTime ≤ recvTime
    rcases List.mem_append.mp htmem with htmem | htmem
    · have := h.queue t htmem
      omega
    · rw [recvTime_of_mem_stamp htmem]
  · simp only
    omega

/-- A trigger that reads in time finds no target tuple that was added after it read its clock. -/
theorem addedBefore_eq {s : State} (ht : Timing s) {recvTime : Int} {addedBefore : Nat}
    (htrigger : s.trigger = .reading recvTime addedBefore) (hread : ∀ t ∈ s.B.queue, t.recvTime ≤ recvTime) :
    addedBefore = s.B.queue.length := by
  have hphase := ht.phase
  rw [PhaseInvariant, htrigger] at hphase
  obtain ⟨-, -, hadded, hafter⟩ := hphase
  have hnil : s.B.queue.drop addedBefore = [] := by
    rw [List.eq_nil_iff_forall_not_mem]
    intro t htmem
    have := hafter t htmem
    have := hread t (List.mem_of_mem_drop htmem)
    omega
  have := List.drop_eq_nil_iff.mp hnil
  omega

private theorem limit_pos {window : WindowOperator} (hnum : 0 < window.num) : ∀ n, window.limit = some n → 0 < n := by
  intro n hn
  unfold WindowOperator.limit at hn
  split_ifs at hn
  obtain rfl : window.num.toNat = n := by simpa using hn
  omega

/-- A retrieval in time is one more of the log, and where it keeps up it returns the newest of
the rows that were not returned before. -/
theorem Timing.retrieve {s : State} (ht : Timing s) {arrivals : List (List Nat)} {recvTime : Int} {addedBefore : Nat}
    (hlog : Log s.B.queue s.window.limit s.bound s.retrievals arrivals)
    (htrigger : s.trigger = .reading recvTime addedBefore) (hread : ∀ t ∈ s.B.queue, t.recvTime ≤ recvTime) :
    ∃ now, Log s.B.queue s.window.limit recvTime (⟨addedBefore, s.freshNum,
        s.A.countTupleSet [(s.window.streamName, s.B)] s.window { type := .master, recvTime }⟩ :: s.retrievals)
        (now :: arrivals) ∧
      (KeepsUp s .triggerRead → ReturnedUnretrieved s.window.limit ⟨addedBefore, s.freshNum,
        s.A.countTupleSet [(s.window.streamName, s.B)] s.window { type := .master, recvTime }⟩
        arrivals.flatten now) := by
  have hphase := ht.phase
  rw [PhaseInvariant, htrigger] at hphase
  have hbound : s.bound = s.window.lastRecvTime := by simp [State.bound, htrigger]
  rw [hbound] at hlog
  exact ⟨_, hlog.retrieve ht.sorted hread hphase.1 (limit_pos ht.num) (addedBefore_eq ht htrigger hread) rfl
    (Queue.countTupleSet_other ht.other)⟩

/-- The trigger takes the target's lock only behind its own addition and while the lock is free. -/
private theorem of_step_triggerLockTarget {s s' : State} (h : step s .triggerLockTarget = .ok s') :
    ∃ recvTime addedBefore, s.trigger = .received recvTime addedBefore ∧ s.target = .free ∧
      s' = { s with trigger := .reading recvTime addedBefore, target := .trigger } := by
  simp only [step] at h
  cases htrigger : s.trigger with
  | received recvTime addedBefore =>
    rw [htrigger] at h
    simp only at h
    split_ifs at h with hfree
    exact ⟨recvTime, addedBefore, rfl, hfree, (Except.ok.inj h).symm⟩
  | idle => simp [htrigger] at h
  | locked => simp [htrigger] at h
  | reading recvTime addedBefore => simp [htrigger] at h
  | done recvTime => simp [htrigger] at h

/-- The trigger reads under both locks, and releases the target's with the retrieval made. -/
private theorem of_step_triggerRead {s s' : State} (h : step s .triggerRead = .ok s') :
    ∃ recvTime addedBefore, s.trigger = .reading recvTime addedBefore ∧
      s' = { s with
        trigger := .done recvTime
        target := .free
        retrievals := ⟨addedBefore, s.freshNum, s.A.countTupleSet [(s.window.streamName, s.B)] s.window
          { type := .master, recvTime }⟩ :: s.retrievals } := by
  simp only [step] at h
  cases htrigger : s.trigger with
  | reading recvTime addedBefore =>
    rw [htrigger] at h
    exact ⟨recvTime, addedBefore, rfl, (Except.ok.inj h).symm⟩
  | idle => simp [htrigger] at h
  | locked => simp [htrigger] at h
  | received recvTime addedBefore => simp [htrigger] at h
  | done recvTime => simp [htrigger] at h

/-- The trigger marks the time of its addition as the last one that was read. -/
private theorem of_step_triggerFinish {s s' : State} (h : step s .triggerFinish = .ok s') :
    ∃ recvTime, s.trigger = .done recvTime ∧
      s' = { s with trigger := .idle, window := s.window.setLastRecvTime recvTime } := by
  simp only [step] at h
  cases htrigger : s.trigger with
  | done recvTime =>
    rw [htrigger] at h
    exact ⟨recvTime, rfl, (Except.ok.inj h).symm⟩
  | idle => simp [htrigger] at h
  | locked => simp [htrigger] at h
  | received recvTime addedBefore => simp [htrigger] at h
  | reading recvTime addedBefore => simp [htrigger] at h

/-- A step in time keeps the log, and where it keeps up also the stronger property of
its retrievals. -/
theorem step_log {s s' : State} {a : Act} {arrivals : List (List Nat)} (ht : Timing s)
    (hlog : Log s.B.queue s.window.limit s.bound s.retrievals arrivals) (hintime : ReadsInTime s a)
    (hstep : step s a = .ok s') :
    Timing s' ∧ ∃ arrivals', Log s'.B.queue s'.window.limit s'.bound s'.retrievals arrivals' ∧
      (KeepsUp s a → EachRetrieval (ReturnedUnretrieved s.window.limit) s.retrievals arrivals →
        EachRetrieval (ReturnedUnretrieved s'.window.limit) s'.retrievals arrivals') := by
  have hphase := ht.phase
  unfold PhaseInvariant at hphase
  cases a with
  | triggerLock =>
    simp only [step] at hstep
    split_ifs at hstep with hidle
    obtain rfl := (Except.ok.injEq _ _).mp hstep
    refine ⟨⟨ht.sorted, ht.queue, ht.mark, trivial, ht.other, ht.num⟩, arrivals, ?_, fun _ h => h⟩
    simpa [State.bound, hidle] using hlog
  | triggerReceive recvTime tuples =>
    simp only [step] at hstep
    split_ifs at hstep with hlocked
    obtain ⟨hlocked, hclock⟩ := hlocked
    obtain rfl := (Except.ok.injEq _ _).mp hstep
    refine ⟨ht.triggerReceive hclock tuples, arrivals, ?_, fun _ h => h⟩
    simpa [State.bound, hlocked] using hlog
  | triggerLockTarget =>
    obtain ⟨recvTime, addedBefore, htrigger, -, rfl⟩ := of_step_triggerLockTarget hstep
    rw [htrigger] at hphase
    refine ⟨⟨ht.sorted, ht.queue, ht.mark, hphase, ht.other, ht.num⟩, arrivals, ?_, fun _ h => h⟩
    simpa [State.bound, htrigger] using hlog
  | triggerRead =>
    obtain ⟨recvTime, addedBefore, htrigger, rfl⟩ := of_step_triggerRead hstep
    rw [htrigger] at hphase
    obtain ⟨-, hclock, -⟩ := hphase
    have hread : ∀ t ∈ s.B.queue, t.recvTime ≤ recvTime := by
      simpa [ReadsInTime, htrigger] using hintime
    obtain ⟨now, hlog', hkeep⟩ := ht.retrieve hlog htrigger hread
    refine ⟨⟨ht.sorted, ht.queue, ht.mark, hclock, ht.other, ht.num⟩, _, hlog', ?_⟩
    intro hkeeps heach
    exact ⟨hkeep hkeeps, heach⟩
  | triggerFinish =>
    obtain ⟨recvTime, htrigger, rfl⟩ := of_step_triggerFinish hstep
    rw [htrigger] at hphase
    refine ⟨⟨ht.sorted, ht.queue, hphase, trivial, ht.other, ht.num⟩, arrivals, ?_, fun _ h => h⟩
    have hbound : s.bound = recvTime := by simp [State.bound, htrigger]
    rw [hbound] at hlog
    exact hlog
  | targetLock =>
    simp only [step] at hstep
    split_ifs at hstep
    obtain rfl := (Except.ok.injEq _ _).mp hstep
    exact ⟨⟨ht.sorted, ht.queue, ht.mark, ht.phase, ht.other, ht.num⟩, arrivals, hlog, fun _ h => h⟩
  | targetReceive recvTime tuples =>
    simp only [step] at hstep
    split_ifs at hstep with hadding
    obtain ⟨_, hclock⟩ := hadding
    obtain rfl := (Except.ok.injEq _ _).mp hstep
    have hbound := ht.bound_le
    refine ⟨ht.enqueue hclock tuples, arrivals, hlog.append ?_, fun _ h => h⟩
    intro t htmem
    rw [recvTime_of_mem_stamp htmem]
    exact lt_of_le_of_lt hbound hclock
  | targetUnlock =>
    simp only [step] at hstep
    split_ifs at hstep
    obtain rfl := (Except.ok.injEq _ _).mp hstep
    exact ⟨⟨ht.sorted, ht.queue, ht.mark, ht.phase, ht.other, ht.num⟩, arrivals, hlog, fun _ h => h⟩

/-- Before any addition the clock is ahead of everything. -/
theorem Initial.timing {s : State} (h : Initial s) : Timing s := by
  refine ⟨?_, ?_, h.mark, ?_, h.other, h.num⟩
  · simp [h.queue]
  · simp [h.queue]
  · simp [PhaseInvariant, h.trigger]

/-- Before any addition there is no retrieval, and nothing to retrieve. -/
theorem Initial.log {s : State} (h : Initial s) :
    Log s.B.queue s.window.limit s.bound s.retrievals [] := by
  rw [h.retrievals, h.queue]
  exact ⟨.nil, by simp, trivial, by simp, by simp, by simp⟩

/-- For every interleaving of additions to the trigger stream and to the target stream,
with strictly increasing clock readings: if no retrieval finds a target tuple received
after the reading of its trigger, no target tuple is returned twice and each retrieval
returns the newest rows that were not returned before; and if the retrievals also keep
up with the target stream, each returns the newest of the rows not returned before. -/
theorem retrievedOnce_of_readsInTime {s : State} (hinitial : Initial s) {acts : List Act}
    (hintime : Along step ReadsInTime s acts) :
    Throughout step (fun _ => False) RetrievedOnce s acts ∧
      (Along step KeepsUp s acts → Throughout step (fun _ => False) RetrievedAll s acts) := by
  have hfirst : Throughout step (fun _ => False) (fun s => Timing s ∧ ∃ arrivals,
      Log s.B.queue s.window.limit s.bound s.retrievals arrivals) s acts := by
    apply Throughout.of_along (C := ReadsInTime) ?_ (fun _ _ _ _ _ _ => id) ?_ hintime
    · intro s a s' ⟨ht, arrivals, hlog⟩ ha hstep
      obtain ⟨ht', arrivals', hlog', _⟩ := step_log ht hlog ha hstep
      exact ⟨ht', arrivals', hlog'⟩
    · exact ⟨hinitial.timing, [], hinitial.log⟩
  refine ⟨hfirst.imp fun s ⟨_, arrivals, hlog⟩ => ⟨arrivals, hlog.returned, hlog.nodup, hlog.newest⟩,
    ?_⟩
  intro hkeeps
  have hsecond : Throughout step (fun _ => False) (fun s => Timing s ∧ ∃ arrivals,
      Log s.B.queue s.window.limit s.bound s.retrievals arrivals ∧
        EachRetrieval (ReturnedUnretrieved s.window.limit) s.retrievals arrivals) s acts := by
    apply Throughout.of_along (C := fun s a => ReadsInTime s a ∧ KeepsUp s a) ?_
      (fun _ _ _ _ _ _ => id) ?_ (hintime.and hkeeps)
    · intro s a s' ⟨ht, arrivals, hlog, heach⟩ ⟨ha, hkeep⟩ hstep
      obtain ⟨ht', arrivals', hlog', hkept⟩ := step_log ht hlog ha hstep
      exact ⟨ht', arrivals', hlog', hkept hkeep heach⟩
    · refine ⟨hinitial.timing, [], hinitial.log, ?_⟩
      rw [hinitial.retrievals]
      trivial
  exact hsecond.imp fun s ⟨_, arrivals, hlog, heach⟩ =>
    ⟨arrivals, hlog.returned, hlog.nodup, heach⟩

/-- A window of one row on the stream `b`, triggered by the stream `a`. -/
def sampleState : State :=
  { A := { streamName := "a".toList }, B := { streamName := "b".toList },
    window := { streamName := "b".toList, num := 1 } }

private theorem sampleState_initial : Initial sampleState :=
  ⟨rfl, rfl, rfl, rfl, by decide, by decide, by decide⟩

/-- An addition to the target stream, all of it at once. -/
def addTarget (recvTime : Int) : List Act :=
  [.targetLock, .targetReceive recvTime [{ columns := [{}] }], .targetUnlock]

/-- A trigger step up to its clock reading. -/
def startTrigger (recvTime : Int) : List Act :=
  [.triggerLock, .triggerReceive recvTime [{ columns := [{}] }]]

/-- The rest of a trigger step. -/
def endTrigger : List Act :=
  [.triggerLockTarget, .triggerRead, .triggerFinish]

/-- A target tuple, and two trigger steps after it. -/
def earlyTarget : List Act :=
  addTarget 5 ++ startTrigger 10 ++ endTrigger ++ startTrigger 20 ++ endTrigger

/-- A target tuple that comes before two trigger steps is retrieved once. -/
theorem retrievedOnce_of_readsInTime_earlyTarget :
    Throughout step (fun _ => False) RetrievedOnce sampleState earlyTarget ∧
      (Along step KeepsUp sampleState earlyTarget →
        Throughout step (fun _ => False) RetrievedAll sampleState earlyTarget) :=
  retrievedOnce_of_readsInTime sampleState_initial (by decide)

/-- A target tuple that is received after the first trigger reads its clock and before
it locks the target queue. -/
def lateTarget : List Act :=
  startTrigger 10 ++ addTarget 11 ++ endTrigger ++ startTrigger 20 ++ endTrigger

/-- The late tuple is retrieved by the first trigger, and again by the second. -/
theorem lateTarget_not_retrievedOnce :
    Initial sampleState ∧ ¬ Throughout step (fun _ => False) RetrievedOnce sampleState lateTarget := by
  refine ⟨sampleState_initial, ?_⟩
  intro h
  have hsummary : (run step sampleState lateTarget).toOption.map (fun s =>
      (s.B.queue.length, s.retrievals.map fun r => r.handed.size)) = some (1, [1, 1]) := by decide
  cases hend : run step sampleState lateTarget with
  | error e => simp [hend, Except.toOption] at hsummary
  | ok s =>
    simp only [hend, Except.toOption, Option.map_some, Option.some.injEq, Prod.mk.injEq] at hsummary
    obtain ⟨hqueue, hretrievals⟩ := hsummary
    obtain ⟨arrivals, hreturned, hnodup, _⟩ := h.final hend
    have hzero : ∀ {ts : List Tuple} {ps : List Nat}, ts.length = 1 →
        ts.map some = ps.map (s.B.queue[·]?) → ps = [0] := by
      intro ts ps hlength hmap
      match ts, ps with
      | [t], [p] =>
        have hp : s.B.queue[p]? = some t := by simpa using hmap.symm
        have := (List.getElem?_eq_some_iff.mp hp).1
        have hp0 : p = 0 := by omega
        rw [hp0]
      | [_], [] => simp at hmap
      | [_], _ :: _ :: _ => simp at hmap
    have htwo := congrArg List.length hretrievals
    rw [List.length_map] at htwo
    obtain ⟨r, r', hrs⟩ := List.length_eq_two.mp htwo
    rw [Returned, hrs] at hreturned
    rw [hrs] at hretrievals
    simp only [List.map_cons, List.map_nil, List.cons.injEq, and_true] at hretrievals
    cases hreturned with
    | cons hps hrest =>
      cases hrest with
      | cons hps' hnil =>
        cases hnil
        rw [hzero hretrievals.1 hps, hzero hretrievals.2 hps'] at hnodup
        simp at hnodup

end MasterWindow

end IS

import Mathlib.Order.Basic
import Dm20.Operator.PartitionWindow

namespace IS

open Run Latest

namespace PartitionWindow

/-- The tuples kept of one partition. -/
def stored (s : State) (k : Str) : List Tuple :=
  if s.window.num = 1 then (s.latestTuple1.lookup k).toList else (s.latestTupleN.lookup k).getD []

/-- Each accepted tuple that became the newest of its partition in the step that
took it was handed on. -/
def Emitted (s : State) (accepted : List (List Tuple)) : Prop :=
  ∀ before batch after, accepted = before ++ batch :: after → ∀ t ∈ batch,
    Newest s.window.makePartitionKey Tuple.getTimestamp (before.flatten ++ batch) t →
    ∃ ts ∈ s.emitted, t ∈ ts.tuples

/-- No update is lost: each tuple added to the window's own stream is handed to
the window, and between the process steps every tuple that became the newest of
its partition has been handed on. -/
structure NoUpdateLost (s : State) : Prop where
  handed : ∀ t ∈ s.added, ∃ ts ∈ s.handed, t ∈ ts.tuples
  emitted : s.processing = none → Emitted s s.accepted

/-- The window before the first notification. -/
structure Initial (s : State) : Prop where
  num_pos : 0 < s.window.num
  partitioned : 0 < s.window.getNumPartitionSize
  buffer : s.buffer = []
  latestTuple1 : s.latestTuple1 = []
  latestTupleN : s.latestTupleN = []
  processing : s.processing = none
  added : s.added = []
  accepted : s.accepted = []

/-- The condition on a notification: the tuple sets of the earlier ones have
been processed (where duplicates are allowed this does not matter), and on its
own stream the clock reading is later than the last one. -/
def Unhurried (s : State) : Act → Prop
  | .addTuple _ recvTime tuples =>
    (s.window.allowDuplicateData = true ∨ (s.buffer = [] ∧ s.processing = none)) ∧
      (s.window.streamName = s.queue.streamName → tuples ≠ [] →
        s.window.lastRecvTime < recvTime ∧ s.queue.schema.tablename ≠ Schema.UNKNOWN)
  | _ => True

/-- What the process steps keep: a tuple set that is not processed yet, or only
by half, was received after the mark before the last one. -/
structure Inv (s : State) : Prop where
  num_pos : 0 < s.window.num
  partitioned : 0 < s.window.getNumPartitionSize
  kept : Kept s.window.makePartitionKey Tuple.getTimestamp (stored s) s.accepted.flatten
  buffer : s.window.allowDuplicateData = false → ∀ ts ∈ s.buffer, ∀ t ∈ ts.tuples,
    s.window.preLastRecvTime < t.recvTime
  processing : s.processing ≠ none → ∃ before batch, s.accepted = before ++ [batch] ∧ Emitted s before ∧
    (s.window.allowDuplicateData = false → ∀ t ∈ batch, s.window.preLastRecvTime < t.recvTime)
  emitted : s.processing = none → Emitted s s.accepted
  handed : ∀ t ∈ s.added, ∃ ts ∈ s.handed, t ∈ ts.tuples

/-- At first no batch has come and nothing was handed on. -/
theorem Initial.inv {s : State} (h : Initial s) : Inv s where
  num_pos := h.num_pos
  partitioned := h.partitioned
  kept := by
    rw [h.accepted]
    refine ⟨fun k t ht => ?_, fun t ht => by cases ht⟩
    simp [stored, h.latestTuple1, h.latestTupleN] at ht
  buffer _ ts hts := by simp [h.buffer] at hts
  processing hne := absurd h.processing hne
  emitted _ before batch after heq := by simp [h.accepted] at heq
  handed t ht := by simp [h.added] at ht

/-- What the window stores of a partition is kept. -/
private theorem stored_sub_kept {s : State} {k : Str} {t : Tuple} (h : t ∈ stored s k) : t ∈ kept s := by
  unfold stored at h
  unfold kept
  split
  · next hone =>
    rw [if_pos hone, Option.mem_toList] at h
    obtain ⟨before, after, heq, -⟩ := List.lookup_eq_some_iff.mp h
    simp [heq]
  · next hmany =>
    rw [if_neg hmany] at h
    cases hlookup : s.latestTupleN.lookup k with
    | none => simp [hlookup] at h
    | some dq =>
      obtain ⟨before, after, heq, -⟩ := List.lookup_eq_some_iff.mp hlookup
      rw [hlookup, Option.getD_some] at h
      simp [heq, h]

section Keep

variable {s : State} {seen : List Tuple}

/-- With one row, a tuple takes the place of the one before unless it is older. -/
private theorem kept_keepLatest1 (hone : s.window.num = 1)
    (h : Kept s.window.makePartitionKey Tuple.getTimestamp (stored s) seen) (t : Tuple) :
    Kept s.window.makePartitionKey Tuple.getTimestamp (stored (keepLatest1 s t)) (seen ++ [t]) := by
  have hstored : ∀ k, stored s k = (s.latestTuple1.lookup k).toList := fun k => by rw [stored, if_pos hone]
  cases hlookup : s.latestTuple1.lookup (s.window.makePartitionKey t) with
  | none =>
    have hnew : ∀ k, stored (keepLatest1 s t) k =
        if k = s.window.makePartitionKey t then [t] else stored s k := by
      intro k
      simp only [keepLatest1, hlookup, stored, hone, if_true, AssocList.lookup_append_singleton hlookup]
      split <;> rfl
    have hold : stored s (s.window.makePartitionKey t) = [] := by rw [hstored, hlookup]; rfl
    refine h.append t (fun k hk => by rw [hnew, if_neg hk]) ?_ ⟨t, ?_, ?_⟩
    · simp [hnew]
    · simp [hnew]
    · simp [hold]
  | some latest =>
    have hold : stored s (s.window.makePartitionKey t) = [latest] := by rw [hstored, hlookup]; rfl
    by_cases hlater : t.getTimestamp > latest.getTimestamp
    · have hnew : ∀ k, stored (keepLatest1 s t) k =
          if k = s.window.makePartitionKey t then [t] else stored s k := by
        intro k
        simp only [keepLatest1, hlookup, hlater, stored, hone, if_true, AssocList.lookup_set]
        split <;> rfl
      refine h.append t (fun k hk => by rw [hnew, if_neg hk]) ?_ ⟨t, ?_, ?_⟩
      · simp [hnew]
      · simp [hnew]
      · rw [hold]
        simpa using hlater.le
    · have hsame : keepLatest1 s t = s := by simp only [keepLatest1, hlookup, hlater, if_false]
      rw [hsame]
      refine h.append t (fun k _ => rfl) (fun b hb => List.mem_append_left _ hb) ⟨latest, ?_, ?_⟩
      · rw [hold]
        exact List.mem_singleton_self latest
      · rw [hold]
        simpa using not_lt.mp hlater

/-- With several rows, a tuple is sorted in and the oldest one goes where there are too many. -/
private theorem kept_keepLatestN (sort : TimestampSort) (hpos : 0 < s.window.num) (hmany : s.window.num ≠ 1)
    (h : Kept s.window.makePartitionKey Tuple.getTimestamp (stored s) seen) (t : Tuple) :
    Kept s.window.makePartitionKey Tuple.getTimestamp (stored (keepLatestN sort s t)) (seen ++ [t]) := by
  have hstored : ∀ k, stored (keepLatestN sort s t) k =
      if k = s.window.makePartitionKey t then
        (sort.sort (stored s (s.window.makePartitionKey t) ++ [t])).drop
          ((sort.sort (stored s (s.window.makePartitionKey t) ++ [t])).length - s.window.num.toNat)
      else stored s k := by
    intro k
    simp only [stored, keepLatestN, if_neg hmany, AssocList.lookup_set]
    split <;> rfl
  have hperm := sort.perm (stored s (s.window.makePartitionKey t) ++ [t])
  refine h.append t (fun k hk => by rw [hstored, if_neg hk]) (fun b hb => ?_) ?_
  · rw [hstored, if_pos rfl] at hb
    exact hperm.mem_iff.mp (List.mem_of_mem_drop hb)
  · have hne : sort.sort (stored s (s.window.makePartitionKey t) ++ [t]) ≠ [] := by
      intro hnil
      have hlength := hperm.length_eq
      rw [hnil] at hlength
      simp at hlength
    obtain ⟨b, hb, hlatest⟩ := exists_latest_drop (sort.sorted _) hne (show 0 < s.window.num.toNat by omega)
    refine ⟨b, by rw [hstored, if_pos rfl]; exact hb, fun c hc => hlatest c (hperm.mem_iff.mpr hc)⟩

/-- Keeping a tuple changes the latest tuples of the window and nothing else. -/
theorem keepLatest_eq (sort : TimestampSort) (s : State) (t : Tuple) :
    ∃ latestTuple1 latestTupleN, keepLatest sort s t = { s with latestTuple1, latestTupleN } := by
  unfold keepLatest
  split
  · unfold keepLatest1
    dsimp only
    split
    · exact ⟨_, s.latestTupleN, rfl⟩
    · split
      · exact ⟨_, s.latestTupleN, rfl⟩
      · exact ⟨s.latestTuple1, s.latestTupleN, rfl⟩
  · exact ⟨s.latestTuple1, _, rfl⟩

private theorem kept_keepLatest (sort : TimestampSort) (hpos : 0 < s.window.num)
    (h : Kept s.window.makePartitionKey Tuple.getTimestamp (stored s) seen) (t : Tuple) :
    Kept s.window.makePartitionKey Tuple.getTimestamp (stored (keepLatest sort s t)) (seen ++ [t]) := by
  unfold keepLatest
  split
  · next hone => exact kept_keepLatest1 hone h t
  · next hmany => exact kept_keepLatestN sort hpos hmany h t

/-- What the loop over a tuple set changes: the hash values and the tuples kept. -/
structure Taken (s : State) (tuples seen : List Tuple) (r : State × List Tuple) : Prop where
  frame : ∃ tupleHashMap latestTuple1 latestTupleN, r.1 = { s with tupleHashMap, latestTuple1, latestTupleN }
  kept : Kept s.window.makePartitionKey Tuple.getTimestamp (stored r.1) (seen ++ r.2)
  sub : ∀ t ∈ r.2, t ∈ tuples

/-- Another tuple of the set is taken, and the newest of each partition stay kept. -/
theorem Taken.takeTuple (sort : TimestampSort) (now : Int) (schema : Schema) {tuples : List Tuple}
    {r : State × List Tuple} (hpos : 0 < s.window.num) (h : Taken s tuples seen r) {t : Tuple} (ht : t ∈ tuples) :
    Taken s tuples seen (takeTuple sort now schema r t) := by
  obtain ⟨⟨tupleHashMap, latestTuple1, latestTupleN, hframe⟩, hkept, hsub⟩ := h
  have hstep : ∀ tupleHashMap', Taken s tuples seen
      (keepLatest sort { r.1 with tupleHashMap := tupleHashMap' } t, r.2 ++ [t]) := by
    intro tupleHashMap'
    obtain ⟨latestTuple1', latestTupleN', heq⟩ := keepLatest_eq sort { r.1 with tupleHashMap := tupleHashMap' } t
    refine ⟨⟨tupleHashMap', latestTuple1', latestTupleN', by rw [heq, hframe]⟩, ?_, fun u hu => ?_⟩
    · have hwindow : r.1.window = s.window := by rw [hframe]
      have hnow : Kept r.1.window.makePartitionKey Tuple.getTimestamp
          (stored { r.1 with tupleHashMap := tupleHashMap' }) (seen ++ r.2) := by
        rw [hwindow]
        exact hkept
      have hnext := kept_keepLatest (s := { r.1 with tupleHashMap := tupleHashMap' }) sort
        (by rw [hwindow]; exact hpos) hnow t
      rw [List.append_assoc, hwindow] at hnext
      exact hnext
    · rcases List.mem_append.mp hu with hu | hu
      · exact hsub u hu
      · rw [List.mem_singleton.mp hu]
        exact ht
  unfold PartitionWindow.takeTuple
  split
  · exact hstep r.1.tupleHashMap
  · split
    · exact ⟨⟨tupleHashMap, latestTuple1, latestTupleN, hframe⟩, hkept, hsub⟩
    · exact hstep _

/-- By induction on the tuples: each one that is taken is kept or was displaced by newer ones. -/
private theorem taken_foldl (sort : TimestampSort) (now : Int) (schema : Schema) (hpos : 0 < s.window.num)
    (h : Kept s.window.makePartitionKey Tuple.getTimestamp (stored s) seen) (tuples : List Tuple) :
    Taken s tuples seen (tuples.foldl (takeTuple sort now schema) (s, [])) := by
  have hstart : Taken s tuples seen (s, []) :=
    ⟨⟨s.tupleHashMap, s.latestTuple1, s.latestTupleN, rfl⟩, by simpa using h, by simp⟩
  have hloop : ∀ (l : List Tuple), (∀ t ∈ l, t ∈ tuples) → ∀ r, Taken s tuples seen r →
      Taken s tuples seen (l.foldl (takeTuple sort now schema) r) := by
    intro l
    induction l with
    | nil => exact fun _ r hr => hr
    | cons t l ih =>
      exact fun hl r hr => ih (fun u hu => hl u (List.mem_cons_of_mem t hu)) _
        (hr.takeTuple sort now schema hpos (hl t List.mem_cons_self))
  exact hloop tuples (fun t ht => ht) _ hstart

end Keep

section Handing

variable (q : Queue) (QM : QueueManager) (w : WindowOperator) (ts : TupleSet)

/-- A window by partition is handed tuples received after its mark only. -/
theorem recvTime_of_handed (hpartitioned : 0 < w.getNumPartitionSize) (hempty : ts.tuples = []) {t : Tuple}
    (ht : t ∈ (q.countTupleSet QM w ts).tuples) : w.lastRecvTime < t.recvTime := by
  unfold Queue.countTupleSet at ht
  rw [if_pos hpartitioned, if_pos hpartitioned] at ht
  split at ht
  · exact Queue.recvVerdict_eq_take_iff.mp (Scan.verdict_of_mem_scan ht)
  · unfold QueueManager.getTupleSetAll at ht
    split at ht
    · exact Queue.recvVerdict_eq_take_iff.mp (Scan.verdict_of_mem_scan ht)
    · rw [hempty] at ht
      cases ht

/-- On its own stream it is handed all tuples of a batch that is later than its mark. -/
theorem handed_of_own (hpartitioned : 0 < w.getNumPartitionSize) (recvTime : Int) (tuples : List Tuple)
    (hown : w.streamName = q.streamName) (hlater : w.lastRecvTime < recvTime) {t : Tuple}
    (ht : t ∈ tuples.map (Queue.stamp q.schema recvTime)) :
    t ∈ ((q.enqueue recvTime tuples).countTupleSet QM w ts).tuples := by
  have htake : ∀ u ∈ (tuples.map (Queue.stamp q.schema recvTime)).reverse,
      Queue.recvVerdict q.max_worker_thread w.lastRecvTime u = .take := by
    intro u hu
    obtain ⟨v, -, rfl⟩ := List.mem_map.mp (List.mem_reverse.mp hu)
    rw [Queue.recvVerdict_eq_take_iff, Queue.stamp_recvTime]
    exact hlater
  have hown' : w.streamName = (q.enqueue recvTime tuples).streamName := hown
  unfold Queue.countTupleSet
  rw [if_pos hown', if_pos hpartitioned]
  simp only [Queue.getTupleSetAll, Queue.enqueue, List.reverse_append, Scan.scan_none,
    Scan.selected_append_of_take htake]
  exact List.mem_append_left _ (List.mem_reverse.mpr ht)

end Handing

section Steps

variable {s : State}

/-- A batch is handed on where each of its tuples that is the newest of its partition is. -/
theorem Emitted.append {s' : State} {before : List (List Tuple)} (h : Emitted s before) (batch : List Tuple)
    (hwindow : s'.window = s.window) (hsub : ∀ ts ∈ s.emitted, ts ∈ s'.emitted)
    (hbatch : ∀ t ∈ batch, Newest s.window.makePartitionKey Tuple.getTimestamp (before.flatten ++ batch) t →
      ∃ ts ∈ s'.emitted, t ∈ ts.tuples) : Emitted s' (before ++ [batch]) := by
  intro before' batch' after' heq t ht hnewest
  rw [hwindow] at hnewest
  rcases List.eq_nil_or_concat after' with rfl | ⟨after', last, rfl⟩
  · obtain ⟨rfl, hlast⟩ := List.append_inj' heq rfl
    obtain rfl : batch = batch' := List.cons.inj hlast |>.1
    exact hbatch t ht hnewest
  · rw [List.concat_eq_append, ← List.cons_append, ← List.append_assoc] at heq
    obtain ⟨rfl, -⟩ := List.append_inj' heq rfl
    obtain ⟨ts, hts, hmem⟩ := h before' batch' after' rfl t ht hnewest
    exact ⟨ts, hsub ts hts, hmem⟩

/-- A notification after the earlier tuple sets have been processed: what it
hands to the window is later than the mark that is the one before the last now. -/
theorem Inv.addTuple (h : Inv s) (QM : QueueManager) (recvTime : Int) (tuples : List Tuple)
    (hunhurried : Unhurried s (.addTuple QM recvTime tuples)) (sort : TimestampSort) {s' : State}
    (hstep : step sort s (.addTuple QM recvTime tuples) = .ok s') : Inv s' := by
  obtain ⟨hidle, hclock⟩ := hunhurried
  have hfresh : ∀ t ∈ ((s.queue.enqueue recvTime tuples).countTupleSet QM s.window
      { type := .master, recvTime }).tuples, s.window.lastRecvTime < t.recvTime := fun t ht =>
    recvTime_of_handed _ QM s.window _ h.partitioned rfl ht
  have hown : s.window.streamName = s.queue.streamName →
      ∀ t ∈ tuples.map (Queue.stamp s.queue.schema recvTime), s.queue.schema.tablename ≠ Schema.UNKNOWN ∧
        t ∈ ((s.queue.enqueue recvTime tuples).countTupleSet QM s.window { type := .master, recvTime }).tuples := by
    intro hname t ht
    have hne : tuples ≠ [] := by
      rintro rfl
      cases ht
    obtain ⟨hlater, hschema⟩ := hclock hname hne
    exact ⟨hschema, handed_of_own s.queue QM s.window _ h.partitioned recvTime tuples hname hlater ht⟩
  have hnameOf : s.window.streamName = s.queue.streamName →
      ((s.queue.enqueue recvTime tuples).countTupleSet QM s.window
        { type := .master, recvTime }).schema.tablename = s.queue.schema.tablename := by
    intro hname
    have hname' : s.window.streamName = (s.queue.enqueue recvTime tuples).streamName := hname
    rw [Queue.countTupleSet, if_pos hname', if_pos h.partitioned]
    rfl
  cases hstep
  have hprocessing : s.processing ≠ none → s.window.allowDuplicateData = true := by
    intro hne
    rcases hidle with hdup | ⟨-, hnone⟩
    · exact hdup
    · exact absurd hnone hne
  have hbuffer : s.window.allowDuplicateData = false → s.buffer = [] := by
    intro hdup
    rcases hidle with hdup' | ⟨hbuffer, -⟩
    · rw [hdup] at hdup'
      cases hdup'
    · exact hbuffer
  unfold receiveTupleSet
  split
  · refine ⟨h.num_pos, h.partitioned, h.kept, fun hdup ts hts => ?_, fun hne => ?_, h.emitted, fun t ht => ?_⟩
    · rw [hbuffer hdup, List.nil_append, List.mem_singleton] at hts
      rw [hts]
      exact hfresh
    · obtain ⟨before, batch, haccepted, hbefore, -⟩ := h.processing hne
      refine ⟨before, batch, haccepted, hbefore, fun hdup => ?_⟩
      cases (hprocessing hne).symm.trans hdup
    · rcases List.mem_append.mp ht with ht | ht
      · obtain ⟨ts, hts, hmem⟩ := h.handed t ht
        exact ⟨ts, List.mem_append_left _ hts, hmem⟩
      · split at ht
        · next hname => exact ⟨_, List.mem_append_right _ (List.mem_singleton_self _), (hown hname t ht).2⟩
        · cases ht
  · next hunknown =>
    refine ⟨h.num_pos, h.partitioned, h.kept, fun hdup ts hts => ?_, fun hne => ?_, h.emitted, fun t ht => ?_⟩
    · rw [hbuffer hdup] at hts
      cases hts
    · obtain ⟨before, batch, haccepted, hbefore, -⟩ := h.processing hne
      refine ⟨before, batch, haccepted, hbefore, fun hdup => ?_⟩
      cases (hprocessing hne).symm.trans hdup
    · rcases List.mem_append.mp ht with ht | ht
      · exact h.handed t ht
      · split at ht
        · next hname =>
          refine absurd ?_ hunknown
          rw [hnameOf hname]
          exact (hown hname t ht).1
        · cases ht

/-- A set that is taken is in process: all that was accepted before it has been handed on. -/
theorem Inv.take (h : Inv s) (now : Int) (sort : TimestampSort) {s' : State}
    (hstep : step sort s (.take now) = .ok s') : Inv s' := by
  simp only [step] at hstep
  split at hstep
  · next ts buffer hprocessing hbuffer =>
    have htaken := taken_foldl sort now ts.schema h.num_pos h.kept ts.tuples
    generalize ts.tuples.foldl (takeTuple sort now ts.schema) (s, []) = r at hstep htaken
    obtain ⟨r, accepted⟩ := r
    obtain ⟨⟨tupleHashMap, latestTuple1, latestTupleN, hframe⟩, hkept, hsub⟩ := htaken
    subst hframe
    cases hstep
    refine ⟨h.num_pos, h.partitioned, ?_, fun hdup ts' hts' => ?_, fun _ => ?_, fun hnone => ?_, h.handed⟩
    · have hflatten : (s.accepted ++ [accepted]).flatten = s.accepted.flatten ++ accepted := by simp
      rw [hflatten]
      exact hkept
    · exact h.buffer hdup ts' (by rw [hbuffer]; exact List.mem_cons_of_mem ts hts')
    · refine ⟨s.accepted, accepted, rfl, h.emitted hprocessing, fun hdup t ht => ?_⟩
      exact h.buffer hdup ts (by rw [hbuffer]; exact List.mem_cons_self) t (hsub t ht)
    · cases hnone
  · cases hstep

/-- The set in process is handed on, and with it each tuple that became the newest of its
partition. -/
theorem Inv.emit (h : Inv s) (sort : TimestampSort) {s' : State} (hstep : step sort s .emit = .ok s') :
    Inv s' := by
  simp only [step] at hstep
  split at hstep
  · next ts hprocessing =>
    obtain ⟨before, batch, haccepted, hbefore, hrecent⟩ := h.processing (by rw [hprocessing]; simp)
    have houtput : ∀ t ∈ batch, Newest s.window.makePartitionKey Tuple.getTimestamp (before.flatten ++ batch) t →
        t ∈ output s := by
      intro t ht hnewest
      have hseen : s.accepted.flatten = before.flatten ++ batch := by rw [haccepted]; simp
      have hkept : t ∈ PartitionWindow.kept s := stored_sub_kept (h.kept.mem_of_newest (hseen ▸ hnewest))
      unfold output
      rw [List.mem_reverse, List.mem_filter]
      refine ⟨hkept, ?_⟩
      cases hdup : s.window.allowDuplicateData with
      | true => rfl
      | false => simpa using hrecent hdup t ht
    split at hstep
    · next hnil =>
      cases hstep
      refine ⟨h.num_pos, h.partitioned, h.kept, h.buffer, fun hne => absurd rfl hne, fun _ => ?_, h.handed⟩
      rw [haccepted]
      refine hbefore.append batch rfl (fun _ hts => hts) fun t ht hnewest => ?_
      rw [hnil] at houtput
      cases houtput t ht hnewest
    · cases hstep
      refine ⟨h.num_pos, h.partitioned, h.kept, h.buffer, fun hne => absurd rfl hne, fun _ => ?_, h.handed⟩
      rw [haccepted]
      refine hbefore.append batch rfl (fun _ hts => List.mem_append_left _ hts) fun t ht hnewest => ?_
      exact ⟨_, List.mem_append_right _ (List.mem_singleton_self _), houtput t ht hnewest⟩
  · cases hstep

/-- A step that is not hurried keeps the promise that each newest tuple is handed on: a batch is
not taken before the one before it was handed on. -/
theorem Inv.step (h : Inv s) (act : Act) (hunhurried : Unhurried s act) (sort : TimestampSort) {s' : State}
    (hstep : step sort s act = .ok s') : Inv s' := by
  cases act with
  | addTuple QM recvTime tuples => exact h.addTuple QM recvTime tuples hunhurried sort hstep
  | take now => exact h.take now sort hstep
  | emit => exact h.emit sort hstep
  | deleteHashmap now =>
    cases hstep
    exact ⟨h.num_pos, h.partitioned, h.kept, h.buffer, h.processing, h.emitted, h.handed⟩

end Steps

/-- In every run in which each notification finds the earlier tuple sets
processed, no update is lost. -/
theorem noUpdateLost_of_unhurried (sort : TimestampSort) {s : State} (hinitial : Initial s) (acts : List Act)
    (hunhurried : Along (step sort) Unhurried s acts) :
    Throughout (step sort) (fun _ => False) NoUpdateLost s acts := by
  have hinv : Throughout (step sort) (fun _ => False) Inv s acts :=
    Throughout.of_along (fun _ act _ h hact hstep => h.step act hact sort hstep) (fun _ _ _ _ _ _ => id)
      hinitial.inv hunhurried
  exact hinv.imp fun _ h => ⟨h.handed, h.emitted⟩

/-- A sort that keeps the order of tuples of one timestamp. -/
def mergeSort : TimestampSort where
  sort l := l.mergeSort fun t u => decide (t.getTimestamp ≤ u.getTimestamp)
  perm l := List.mergeSort_perm l _
  sorted l := by
    have hsorted : (l.mergeSort fun t u => decide (t.getTimestamp ≤ u.getTimestamp)).Pairwise
        fun t u => decide (t.getTimestamp ≤ u.getTimestamp) = true := List.pairwise_mergeSort
      (fun t u v htu huv => by
        rw [decide_eq_true_iff] at htu huv ⊢
        exact htu.trans huv)
      (fun t u => by
        rw [Bool.or_eq_true, decide_eq_true_iff, decide_eq_true_iff]
        exact le_total _ _) l
    exact hsorted.imp fun htu => of_decide_eq_true htu

/-- A ROWS 1 window on the queue's own stream, by its only column. -/
def sampleState : State :=
  { queue := { streamName := "s".toList, schema := { tablename := "s".toList, attributes := [{}] } }
    window := { streamName := "s".toList, num := 1, partitionList := [0] } }

private theorem sampleState_initial : Initial sampleState :=
  ⟨by decide, by decide, rfl, rfl, rfl, rfl, rfl, rfl⟩

/-- A tuple with a value and a timestamp. -/
def sampleTuple (v : Int32) (timestamp : Int) : Tuple :=
  { columns := [{ value := .scalar .int v, timestamp }] }

/-- A batch that is processed before the next one arrives. -/
def processedFirst : List Act :=
  [.addTuple [] 10 [sampleTuple 1 5], .take 11, .emit, .addTuple [] 20 [sampleTuple 2 6]]

/-- Two batches come, each after the one before it was handed on, so the newest tuple of each
partition is handed on. -/
theorem noUpdateLost_of_unhurried_processedFirst :
    Throughout (step mergeSort) (fun _ => False) NoUpdateLost sampleState processedFirst := by
  refine noUpdateLost_of_unhurried mergeSort sampleState_initial processedFirst ⟨?_, trivial, trivial, ?_, trivial⟩
  · exact ⟨Or.inr ⟨rfl, rfl⟩, fun _ _ => ⟨by decide, by decide⟩⟩
  · exact ⟨Or.inr ⟨rfl, rfl⟩, fun _ _ => ⟨by decide, by decide⟩⟩

/-- Two batches that arrive before the first one is processed. -/
def backToBack : List Act :=
  [.addTuple [] 10 [sampleTuple 1 5], .addTuple [] 20 [sampleTuple 2 6], .take 21, .emit]

/-- The tuple of the first batch is not handed on, and its tuple set is gone. -/
theorem backToBack_not_noUpdateLost :
    Initial sampleState ∧ ¬ Throughout (step mergeSort) (fun _ => False) NoUpdateLost sampleState backToBack := by
  refine ⟨sampleState_initial, fun h => ?_⟩
  have hfinal := h.final (rfl : run (step mergeSort) sampleState backToBack = .ok _)
  have hnewest : Newest sampleState.window.makePartitionKey Tuple.getTimestamp
      [(sampleTuple 1 5).setRecvTime 10] ((sampleTuple 1 5).setRecvTime 10) :=
    ⟨List.mem_singleton_self _, fun u hu _ hne => absurd (List.mem_singleton.mp hu) hne⟩
  obtain ⟨ts, hts, -⟩ := hfinal.emitted rfl [] [(sampleTuple 1 5).setRecvTime 10] [] rfl _
    (List.mem_singleton_self _) hnewest
  cases hts

end PartitionWindow

end IS

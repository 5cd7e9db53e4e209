import Mathlib.Data.List.Sort
import Mathlib.Data.Prod.Lex
import Dm20.Operator.PartitionUpdates

namespace IS

open Run Latest

namespace PartitionWindow

/-- A way to process a tuple set by partition: how a tuple is kept, and what is
kept of each partition. -/
structure Path where
  keep : State → Tuple → State
  held : State → List (Str × List Tuple)

/-- `proc_by_partition_create_time_rows1`. -/
def rows1 : Path where
  keep := keepLatest1
  held s := s.latestTuple1.map fun kv => (kv.1, [kv.2])

/-- `proc_by_partition_create_time_rowsn`. -/
def rowsn (sort : TimestampSort) : Path where
  keep := keepLatestN sort
  held s := s.latestTupleN

namespace Path

def takeTuple (p : Path) (now : Int) (schema : Schema) (s : State × List Tuple) (t : Tuple) : State × List Tuple :=
  if s.1.window.allowDuplicateData then (p.keep s.1 t, s.2 ++ [t])
  else
    match matchHash s.1.tupleHashMap now schema t with
    | (true, _) => s
    | (false, tupleHashMap) => (p.keep { s.1 with tupleHashMap } t, s.2 ++ [t])

def output (p : Path) (s : State) : List Tuple :=
  (((p.held s).flatMap (·.2)).filter fun t =>
    s.window.allowDuplicateData || decide (s.window.preLastRecvTime < t.recvTime)).reverse

/-- The steps of the window on one way. -/
def step (p : Path) (s : State) : Act → Except Unit State
  | .addTuple QM recvTime tuples =>
    let queue := s.queue.enqueue recvTime tuples
    let ts := queue.countTupleSet QM s.window { type := .master, recvTime }
    let added := if s.window.streamName = queue.streamName then tuples.map (Queue.stamp queue.schema recvTime) else []
    .ok (receiveTupleSet
      { s with queue, window := s.window.setLastRecvTime recvTime, added := s.added ++ added } ts)
  | .take now =>
    match s.processing, s.buffer with
    | none, ts :: buffer =>
      let (s, accepted) := ts.tuples.foldl (p.takeTuple now ts.schema) (s, [])
      .ok { s with buffer, processing := some ts, accepted := s.accepted ++ [accepted] }
    | _, _ => .error ()
  | .emit =>
    match s.processing with
    | some ts =>
      match p.output s with
      | [] => .ok { s with processing := none }
      | tuples => .ok { s with processing := none, emitted := s.emitted ++ [{ ts with tuples }] }
    | none => .error ()
  | .deleteHashmap now =>
    .ok { s with tupleHashMap := s.tupleHashMap.filter fun h => decide (now - 10 * 1000 * 1000 ≤ h.2) }

end Path

/-- What a window of rows by partition is to do in a run: to hold the newest of
the accepted tuples of each partition, and with one row to store and hand on on
its own way what it would on the general one. -/
structure KeepsNewest (s : State) (acts : List Act) : Prop where
  newest : ∀ (sort : TimestampSort) (s' : State), run (rowsn sort).step s acts = .ok s' → ∀ key,
    HoldsNewest Tuple.getTimestamp s.window.num.toNat
      (s'.accepted.flatten.filter fun t => decide (s.window.makePartitionKey t = key))
      ((s'.latestTupleN.lookup key).getD [])
  oneRow : s.window.num = 1 → ∀ (sort : TimestampSort) (s1 sn : State), run rows1.step s acts = .ok s1 →
    run (rowsn sort).step s acts = .ok sn →
      s1.emitted = sn.emitted ∧ ∀ key, (s1.latestTuple1.lookup key).toList = (sn.latestTupleN.lookup key).getD []

/-- No two accepted tuples of a partition, unless they are equal, have both its
largest timestamp. -/
def UniqueNewest (w : WindowOperator) (accepted : List Tuple) : Prop :=
  ∀ t ∈ accepted, ∀ u ∈ accepted, w.makePartitionKey t = w.makePartitionKey u →
    (∀ v ∈ accepted, w.makePartitionKey v = w.makePartitionKey t →
      v.getTimestamp ≤ t.getTimestamp ∧ v.getTimestamp ≤ u.getTimestamp) → t = u

section Held

variable {τ : Type} [LinearOrder τ] {key : Tuple → Str} {time : Tuple → τ} {n : Nat}

/-- The keys in the order in which their first tuples came. -/
def firstKeys (key : Tuple → Str) (seen : List Tuple) : List Str :=
  seen.foldl (fun keys t => if key t ∈ keys then keys else keys ++ [key t]) []

private theorem firstKeys_append (seen : List Tuple) (t : Tuple) :
    firstKeys key (seen ++ [t]) =
      if key t ∈ firstKeys key seen then firstKeys key seen else firstKeys key seen ++ [key t] := by
  rw [firstKeys, List.foldl_append]
  rfl

/-- Each partition has one key. -/
private theorem nodup_firstKeys (seen : List Tuple) : (firstKeys key seen).Nodup := by
  induction seen using List.reverseRecOn with
  | nil => exact List.nodup_nil
  | append_singleton seen t ih =>
    rw [firstKeys_append]
    split
    · exact ih
    · next hnot => exact List.nodup_append.mpr ⟨ih, List.nodup_singleton _, fun k hk k' hk' => by
        rw [List.mem_singleton.mp hk']
        rintro rfl
        exact hnot hk⟩

/-- What is kept of the tuples seen: under each key, in the order of the first
tuples, the newest of the key. -/
structure Holds (key : Tuple → Str) (time : Tuple → τ) (n : Nat) (seen : List Tuple)
    (held : List (Str × List Tuple)) : Prop where
  keys : held.map Prod.fst = firstKeys key seen
  newest : ∀ k, HoldsNewest time n (seen.filter fun t => decide (key t = k)) ((held.lookup k).getD [])

/-- A tuple goes to its partition in the order of time, and the oldest one is displaced where
there are more than the rows of the window. -/
theorem Holds.insert {seen l : List Tuple} {held held' : List (Str × List Tuple)} (h : Holds key time n seen held)
    {t : Tuple} (hperm : l.Perm ((held.lookup (key t)).getD [] ++ [t]))
    (hsorted : l.Pairwise fun a b => time a ≤ time b)
    (hkeys : held'.map Prod.fst = if key t ∈ held.map Prod.fst then held.map Prod.fst else held.map Prod.fst ++ [key t])
    (hlookup : ∀ k, (held'.lookup k).getD [] =
      if k = key t then l.drop (l.length - n) else (held.lookup k).getD []) :
    Holds key time n (seen ++ [t]) held' := by
  refine ⟨by rw [hkeys, h.keys, firstKeys_append], fun k => ?_⟩
  rw [hlookup, List.filter_append]
  by_cases hk : k = key t
  · subst hk
    rw [if_pos rfl, List.filter_cons_of_pos (by simp), List.filter_nil]
    exact (h.newest (key t)).insert hperm hsorted
  · rw [if_neg hk, List.filter_cons_of_neg (by simpa using fun heq => hk heq.symm), List.filter_nil, List.append_nil]
    exact h.newest k

/-- A path keeps what is to be held, and changes nothing else. -/
structure Path.Keeps (p : Path) (key : Tuple → Str) (time : Tuple → τ) (num : Int) : Prop where
  frame : ∀ (s : State) (t : Tuple), ∃ latestTuple1 latestTupleN, p.keep s t = { s with latestTuple1, latestTupleN }
  local_held : ∀ s s' : State, s.latestTuple1 = s'.latestTuple1 → s.latestTupleN = s'.latestTupleN → p.held s =
    p.held s'
  keep : ∀ (s : State) (t : Tuple) (seen : List Tuple), s.window.makePartitionKey = key → s.window.num = num →
    Holds key time num.toNat seen (p.held s) → Holds key time num.toNat (seen ++ [t]) (p.held (p.keep s t))

/-- Under each key there is the list of its one tuple. -/
private theorem lookup_singletons (l : List (Str × Tuple)) (k : Str) :
    ((l.map fun kv => (kv.1, [kv.2])).lookup k).getD [] = (l.lookup k).toList := by
  induction l with
  | nil => rfl
  | cons p l ih =>
    obtain ⟨a, v⟩ := p
    rw [List.map_cons, AssocList.lookup_cons_eq_ite, AssocList.lookup_cons_eq_ite]
    by_cases hk : k = a
    · rw [if_pos hk, if_pos hk]
      rfl
    · rw [if_neg hk, if_neg hk, ih]

/-- The way for one row keeps the newest tuple of each partition, where a tuple of the same time
takes the place of the one before. -/
private theorem rows1_keeps : rows1.Keeps key Tuple.getTimestamp 1 where
  frame s t := by
    simp only [rows1, keepLatest1]
    split
    · exact ⟨_, s.latestTupleN, rfl⟩
    · split
      · exact ⟨_, s.latestTupleN, rfl⟩
      · exact ⟨s.latestTuple1, s.latestTupleN, rfl⟩
  local_held s s' h1 _ := by simp only [rows1, h1]
  keep s t seen hkey _ h := by
    have hheld : (rows1.held s).map Prod.fst = s.latestTuple1.map Prod.fst := by simp [rows1]
    have hnum : (1 : Int).toNat = 1 := rfl
    rw [hnum] at h ⊢
    have hlookup := lookup_singletons s.latestTuple1
    cases hfound : s.latestTuple1.lookup (key t) with
    | none =>
      have hkeep : rows1.held (rows1.keep s t) = rows1.held s ++ [(key t, [t])] := by
        simp [rows1, keepLatest1, hkey, hfound]
      have hnone : (rows1.held s).lookup (key t) = none := by
        rw [← Option.not_isSome_iff_eq_none, AssocList.lookup_isSome_iff, hheld, ← AssocList.lookup_isSome_iff, hfound]
        exact Bool.false_ne_true
      have hnot : key t ∉ (rows1.held s).map Prod.fst := by
        rw [← AssocList.lookup_isSome_iff, hnone]
        exact Bool.false_ne_true
      refine h.insert (l := [t]) (by rw [hnone]; exact List.Perm.refl _) (List.pairwise_singleton _ _) ?_ fun k => ?_
      · rw [hkeep, if_neg hnot, List.map_append]
        rfl
      · rw [hkeep, AssocList.lookup_append_singleton hnone]
        split <;> rfl
    | some latest =>
      have hold : ((rows1.held s).lookup (key t)).getD [] = [latest] := (hlookup (key t)).trans (by rw [hfound]; rfl)
      have hmem : key t ∈ (rows1.held s).map Prod.fst := by
        rw [hheld, ← AssocList.lookup_isSome_iff, hfound]
        rfl
      by_cases hlater : t.getTimestamp > latest.getTimestamp
      · have hkeep : rows1.held (rows1.keep s t) =
          (AssocList.set s.latestTuple1 (key t) t).map fun kv => (kv.1, [kv.2]) := by
          simp [rows1, keepLatest1, hkey, hfound, hlater]
        refine h.insert (l := [latest, t]) (by rw [hold]; exact List.Perm.refl _)
          (by simpa using hlater.le) ?_ fun k => ?_
        · rw [hkeep, if_pos hmem, hheld, List.map_map]
          have hkeys := AssocList.keys_set s.latestTuple1 (key t) t
          rw [if_pos (hheld ▸ hmem)] at hkeys
          exact hkeys
        · rw [hkeep, lookup_singletons, AssocList.lookup_set]
          by_cases hk : k = key t
          · rw [if_pos hk, if_pos hk]
            rfl
          · rw [if_neg hk, if_neg hk]
            exact (hlookup k).symm
      · have hkeep : rows1.keep s t = s := by simp [rows1, keepLatest1, hkey, hfound, hlater]
        refine h.insert (l := [t, latest]) (by rw [hold]; exact List.Perm.swap _ _ _)
          (by simpa using not_lt.mp hlater) ?_ fun k => ?_
        · rw [hkeep, if_pos hmem]
        · rw [hkeep]
          by_cases hk : k = key t
          · rw [if_pos hk, hk, hold]
            rfl
          · rw [if_neg hk]

/-- The way for several rows keeps the newest tuples of each partition, if the sort sorts them
by time. -/
private theorem rowsn_keeps {sort : TimestampSort} (hsorted : ∀ l, (sort.sort l).Pairwise fun t u => time t ≤ time u)
    (num : Int) : (rowsn sort).Keeps key time num where
  frame s t := ⟨s.latestTuple1, _, rfl⟩
  local_held s s' _ hN := hN
  keep s t seen hkey hnum h := by
    have hkeep : (rowsn sort).held ((rowsn sort).keep s t) =
        AssocList.set s.latestTupleN (key t) ((sort.sort ((s.latestTupleN.lookup (key t)).getD [] ++ [t])).drop
          ((sort.sort ((s.latestTupleN.lookup (key t)).getD [] ++ [t])).length - num.toNat)) := by
      simp only [rowsn, keepLatestN, hkey, hnum]
    refine h.insert (sort.perm _) (hsorted _) ?_ fun k => ?_
    · rw [hkeep, AssocList.keys_set]
      rfl
    · rw [hkeep, AssocList.lookup_set]
      split <;> rfl

/-- What a path holds of the tuples accepted in a run. -/
structure Path.Inv (p : Path) (key : Tuple → Str) (time : Tuple → τ) (num : Int) (s : State) : Prop where
  key_eq : s.window.makePartitionKey = key
  num_eq : s.window.num = num
  holds : Holds key time num.toNat s.accepted.flatten (p.held s)

/-- One tuple of a set in process, with the tuples accepted before it. -/
theorem Path.Keeps.takeTuple {p : Path} {num : Int} (h : p.Keeps key time num) (now : Int) (schema : Schema)
    {s : State} {seen : List Tuple} {r : State × List Tuple}
    (hframe : ∃ tupleHashMap latestTuple1 latestTupleN, r.1 = { s with tupleHashMap, latestTuple1, latestTupleN })
    (hkey : s.window.makePartitionKey = key) (hnum : s.window.num = num)
    (hholds : Holds key time num.toNat (seen ++ r.2) (p.held r.1)) (t : Tuple) :
    (∃ tupleHashMap latestTuple1 latestTupleN,
      (p.takeTuple now schema r t).1 = { s with tupleHashMap, latestTuple1, latestTupleN }) ∧
      Holds key time num.toNat (seen ++ (p.takeTuple now schema r t).2) (p.held (p.takeTuple now schema r t).1) := by
  obtain ⟨tupleHashMap, latestTuple1, latestTupleN, hr⟩ := hframe
  have hstep : ∀ tupleHashMap' : List (Str × Int),
      (∃ tupleHashMap'' latestTuple1' latestTupleN', p.keep { r.1 with tupleHashMap := tupleHashMap' } t =
        { s with tupleHashMap := tupleHashMap'', latestTuple1 := latestTuple1', latestTupleN := latestTupleN' }) ∧
      Holds key time num.toNat (seen ++ (r.2 ++ [t]))
        (p.held (p.keep { r.1 with tupleHashMap := tupleHashMap' } t)) := by
    intro tupleHashMap'
    obtain ⟨latestTuple1', latestTupleN', hkeep⟩ := h.frame { r.1 with tupleHashMap := tupleHashMap' } t
    refine ⟨⟨tupleHashMap', latestTuple1', latestTupleN', by rw [hkeep, hr]⟩, ?_⟩
    rw [← List.append_assoc]
    refine h.keep _ t _ (by rw [hr]; exact hkey) (by rw [hr]; exact hnum) ?_
    rw [← h.local_held r.1 { r.1 with tupleHashMap := tupleHashMap' } rfl rfl]
    exact hholds
  unfold Path.takeTuple
  split
  · exact hstep r.1.tupleHashMap
  · split
    · exact ⟨⟨tupleHashMap, latestTuple1, latestTupleN, hr⟩, hholds⟩
    · exact hstep _

/-- What a way of keeping the tuples does with one tuple, it does with those of a set. -/
theorem Path.Keeps.foldl_takeTuple {p : Path} {num : Int} (h : p.Keeps key time num) (now : Int) (schema : Schema)
    {s : State} {seen : List Tuple} (hkey : s.window.makePartitionKey = key) (hnum : s.window.num = num)
    (tuples : List Tuple) {r : State × List Tuple}
    (hframe : ∃ tupleHashMap latestTuple1 latestTupleN, r.1 = { s with tupleHashMap, latestTuple1, latestTupleN })
    (hholds : Holds key time num.toNat (seen ++ r.2) (p.held r.1)) :
    (∃ tupleHashMap latestTuple1 latestTupleN,
      (tuples.foldl (p.takeTuple now schema) r).1 = { s with tupleHashMap, latestTuple1, latestTupleN }) ∧
      Holds key time num.toNat (seen ++ (tuples.foldl (p.takeTuple now schema) r).2)
        (p.held (tuples.foldl (p.takeTuple now schema) r).1) := by
  induction tuples generalizing r with
  | nil => exact ⟨hframe, hholds⟩
  | cons t tuples ih =>
    obtain ⟨hframe', hholds'⟩ := h.takeTuple now schema hframe hkey hnum hholds t
    exact ih hframe' hholds'

/-- The invariant looks at the window and at what is held, not at the buffers. -/
theorem Path.Inv.congr {p : Path} {num : Int} (hkeeps : p.Keeps key time num) {s s' : State}
    (h : p.Inv key time num s) (hkey : s'.window.makePartitionKey = s.window.makePartitionKey)
    (hnum : s'.window.num = s.window.num) (h1 : s'.latestTuple1 = s.latestTuple1)
    (hN : s'.latestTupleN = s.latestTupleN) (haccepted : s'.accepted = s.accepted) : p.Inv key time num s' := by
  refine ⟨hkey.trans h.key_eq, hnum.trans h.num_eq, ?_⟩
  rw [haccepted, hkeeps.local_held s' s h1 hN]
  exact h.holds

/-- A step of the window keeps the tuples of each partition the newest of those accepted. -/
theorem Path.Inv.step {p : Path} {num : Int} (hkeeps : p.Keeps key time num) {s s' : State}
    (h : p.Inv key time num s) {act : Act} (hstep : p.step s act = .ok s') : p.Inv key time num s' := by
  cases act with
  | addTuple QM recvTime tuples =>
    cases hstep
    unfold receiveTupleSet
    split
    · exact h.congr hkeeps rfl rfl rfl rfl rfl
    · exact h.congr hkeeps rfl rfl rfl rfl rfl
  | take now =>
    simp only [Path.step] at hstep
    split at hstep
    · next ts buffer _ _ =>
      obtain ⟨hkey, hnum, hholds⟩ := h
      obtain ⟨⟨tupleHashMap, latestTuple1, latestTupleN, hframe⟩, hfold⟩ := hkeeps.foldl_takeTuple now ts.schema
        hkey hnum ts.tuples (r := (s, [])) ⟨s.tupleHashMap, s.latestTuple1, s.latestTupleN, rfl⟩ (by simpa using hholds)
      cases hstep
      generalize ts.tuples.foldl (p.takeTuple now ts.schema) (s, []) = r at hframe hfold
      obtain ⟨r, accepted⟩ := r
      dsimp only at hframe hfold
      subst hframe
      refine ⟨hkey, hnum, ?_⟩
      have hflatten : (s.accepted ++ [accepted]).flatten = s.accepted.flatten ++ accepted := by simp
      have hheld := hkeeps.local_held { s with tupleHashMap, latestTuple1, latestTupleN }
        { s with
          tupleHashMap, latestTuple1, latestTupleN, buffer
          processing := some ts
          accepted := s.accepted ++ [accepted] } rfl rfl
      rw [hheld, ← hflatten] at hfold
      exact hfold
    · cases hstep
  | emit =>
    simp only [Path.step] at hstep
    split at hstep
    · split at hstep
      · cases hstep
        exact h.congr hkeeps rfl rfl rfl rfl rfl
      · cases hstep
        exact h.congr hkeeps rfl rfl rfl rfl rfl
    · cases hstep
  | deleteHashmap now =>
    cases hstep
    exact h.congr hkeeps rfl rfl rfl rfl rfl

end Held

section Steps

variable {s s' : State} {ts : TupleSet} {buffer : List TupleSet} {now : Int}

/-- A set is taken from the buffer and its tuples are taken one by one. -/
theorem Path.step_take (p : Path) (hprocessing : s.processing = none) (hbuffer : s.buffer = ts :: buffer) (now : Int) :
    p.step s (.take now) = .ok { (ts.tuples.foldl (p.takeTuple now ts.schema) (s, [])).1 with
      buffer
      processing := some ts
      accepted := (ts.tuples.foldl (p.takeTuple now ts.schema) (s, [])).1.accepted ++
        [(ts.tuples.foldl (p.takeTuple now ts.schema) (s, [])).2] } := by
  rw [Path.step, hprocessing, hbuffer]

/-- A set is only taken where one is buffered and none is being processed. -/
theorem Path.of_step_take {p : Path} (h : p.step s (.take now) = .ok s') :
    ∃ ts buffer, s.processing = none ∧ s.buffer = ts :: buffer := by
  simp only [Path.step] at h
  split at h
  · next ts buffer hprocessing hbuffer => exact ⟨ts, buffer, hprocessing, hbuffer⟩
  · cases h

/-- The tuples that were kept of a set are handed on with it. -/
theorem Path.step_emit (p : Path) (hprocessing : s.processing = some ts) :
    p.step s .emit = .ok { s with
      processing := none
      emitted := if p.output s = [] then s.emitted else s.emitted ++ [{ ts with tuples := p.output s }] } := by
  rw [Path.step, hprocessing]
  cases hout : p.output s with
  | nil => simp
  | cons t tuples => simp

/-- There is only something to hand on where a set is being processed. -/
theorem Path.of_step_emit {p : Path} (h : p.step s .emit = .ok s') : ∃ ts, s.processing = some ts := by
  simp only [Path.step] at h
  split at h
  · next ts hprocessing => exact ⟨ts, hprocessing⟩
  · cases h

end Steps

section Agreement

/-- States of the two ways that differ in what is kept and was handed on. -/
def Alike (s s' : State) : Prop :=
  ∃ latestTuple1 latestTupleN emitted, s' = { s with latestTuple1, latestTupleN, emitted }

variable {p q : Path} {key : Tuple → Str} {τ τ' : Type} [LinearOrder τ] [LinearOrder τ'] {time : Tuple → τ}
  {time' : Tuple → τ'} {num : Int}

/-- Two ways of keeping the tuples that start alike hand on the same of a set. -/
theorem Alike.foldl_takeTuple (hp : p.Keeps key time num) (hq : q.Keeps key time' num) (now : Int) (schema : Schema)
    (tuples : List Tuple) {r r' : State × List Tuple} (h : Alike r.1 r'.1) (hacc : r.2 = r'.2) :
    Alike (tuples.foldl (p.takeTuple now schema) r).1 (tuples.foldl (q.takeTuple now schema) r').1 ∧
      (tuples.foldl (p.takeTuple now schema) r).2 = (tuples.foldl (q.takeTuple now schema) r').2 := by
  induction tuples generalizing r r' with
  | nil => exact ⟨h, hacc⟩
  | cons t tuples ih =>
    rw [List.foldl_cons, List.foldl_cons]
    obtain ⟨latestTuple1, latestTupleN, emitted, hr⟩ := h
    obtain ⟨s, acc⟩ := r
    obtain ⟨s', acc'⟩ := r'
    dsimp only at hr hacc
    subst hr hacc
    have hkeep : ∀ tupleHashMap : List (Str × Int), Alike (p.keep { s with tupleHashMap } t)
        (q.keep { s with tupleHashMap, latestTuple1, latestTupleN, emitted } t) := by
      intro tupleHashMap
      obtain ⟨_, _, heq⟩ := hp.frame { s with tupleHashMap } t
      obtain ⟨_, _, heq'⟩ := hq.frame { s with tupleHashMap, latestTuple1, latestTupleN, emitted } t
      rw [heq, heq']
      exact ⟨_, _, _, rfl⟩
    refine ih ?_ ?_
    · unfold Path.takeTuple
      dsimp only
      split
      · exact hkeep s.tupleHashMap
      · split
        · exact ⟨_, _, _, rfl⟩
        · exact hkeep _
    · unfold Path.takeTuple
      dsimp only
      split
      · rfl
      · split <;> rfl

/-- Taking tuples hands nothing on yet. -/
theorem Path.Keeps.emitted_foldl (hp : p.Keeps key time num) (now : Int) (schema : Schema) (tuples : List Tuple)
    (r : State × List Tuple) : (tuples.foldl (p.takeTuple now schema) r).1.emitted = r.1.emitted := by
  induction tuples generalizing r with
  | nil => rfl
  | cons t tuples ih =>
    rw [List.foldl_cons, ih]
    have hkeep : ∀ s : State, (p.keep s t).emitted = s.emitted := by
      intro s
      obtain ⟨_, _, heq⟩ := hp.frame s t
      rw [heq]
    unfold Path.takeTuple
    split
    · exact hkeep r.1
    · split
      · rfl
      · exact hkeep _

/-- A step is taken on both ways, and in the same way where the same is held. -/
theorem Alike.step (hp : p.Keeps key time num) (hq : q.Keeps key time' num) {s s1 s' : State} (h : Alike s s')
    {act : Act} (hstep : p.step s act = .ok s1) :
    ∃ s1', q.step s' act = .ok s1' ∧ Alike s1 s1' ∧
      (p.held s = q.held s' → s.emitted = s'.emitted → s1.emitted = s1'.emitted) := by
  obtain ⟨latestTuple1, latestTupleN, emitted, rfl⟩ := h
  cases act with
  | addTuple QM recvTime tuples =>
    cases hstep
    refine ⟨_, rfl, ?_, fun _ hemitted => ?_⟩
    · unfold receiveTupleSet
      split
      · exact ⟨_, _, _, rfl⟩
      · exact ⟨_, _, _, rfl⟩
    · unfold receiveTupleSet
      split
      · exact hemitted
      · exact hemitted
  | take now =>
    obtain ⟨ts, buffer, hprocessing, hbuffer⟩ := Path.of_step_take hstep
    rw [Path.step_take p hprocessing hbuffer] at hstep
    cases hstep
    obtain ⟨⟨latestTuple1', latestTupleN', emitted', hr⟩, hacc⟩ := Alike.foldl_takeTuple hp hq now ts.schema ts.tuples
      (show Alike (s, ([] : List Tuple)).1 ({ s with latestTuple1, latestTupleN, emitted }, ([] : List Tuple)).1 from
        ⟨_, _, _, rfl⟩) rfl
    have hemitted := hp.emitted_foldl now ts.schema ts.tuples (s, [])
    have hemitted' := hq.emitted_foldl now ts.schema ts.tuples ({ s with latestTuple1, latestTupleN, emitted }, [])
    refine ⟨_, Path.step_take (s := { s with latestTuple1, latestTupleN, emitted }) q hprocessing hbuffer now,
      ⟨latestTuple1', latestTupleN', emitted', ?_⟩, fun _ heq => ?_⟩
    · rw [hr, hacc]
    · exact hemitted.trans (heq.trans hemitted'.symm)
  | emit =>
    obtain ⟨ts, hprocessing⟩ := Path.of_step_emit hstep
    rw [Path.step_emit p hprocessing] at hstep
    cases hstep
    refine ⟨_, Path.step_emit (s := { s with latestTuple1, latestTupleN, emitted }) q hprocessing,
      ⟨_, _, _, rfl⟩, fun hheld heq => ?_⟩
    have houtput : p.output s = q.output { s with latestTuple1, latestTupleN, emitted } := by
      rw [Path.output, Path.output, hheld]
    dsimp only at heq ⊢
    rw [houtput, heq]
  | deleteHashmap now =>
    cases hstep
    exact ⟨_, rfl, ⟨_, _, _, rfl⟩, fun _ hemitted => hemitted⟩

/-- Two ways of keeping the tuples hand on the same in the whole of a run. -/
theorem Alike.run (hp : p.Keeps key time num) (hq : q.Keeps key time' num) {s s1 s' : State} (h : Alike s s')
    {acts : List Act} (hrun : run p.step s acts = .ok s1) : ∃ s1', run q.step s' acts = .ok s1' ∧ Alike s1 s1' := by
  induction acts generalizing s s' with
  | nil =>
    cases hrun
    exact ⟨s', rfl, h⟩
  | cons act acts ih =>
    rw [Run.run] at hrun
    split at hrun
    · next s2 hstep =>
      obtain ⟨s2', hstep', hsim, -⟩ := h.step hp hq hstep
      obtain ⟨s1', hrun', hsim'⟩ := ih hsim hrun
      exact ⟨s1', by rw [Run.run, hstep']; exact hrun', hsim'⟩
    · cases hrun

/-- Two ways hold the same, if under each key they have the same. -/
theorem held_eq {held held' : List (Str × List Tuple)} {seen : List Tuple} {n : Nat} (h : Holds key time n seen held)
    (h' : Holds key time' n seen held') (heq : ∀ k, (held.lookup k).getD [] = (held'.lookup k).getD []) :
    held = held' := by
  have hkeys : held.map Prod.fst = held'.map Prod.fst := h.keys.trans h'.keys.symm
  refine AssocList.eq_of_lookup_eq hkeys (h.keys ▸ nodup_firstKeys seen) fun k => ?_
  have hk := heq k
  cases hv : held.lookup k with
  | none =>
    cases hv' : held'.lookup k with
    | none => rfl
    | some v' =>
      have hmem : (held'.lookup k).isSome = true := by rw [hv']; rfl
      rw [AssocList.lookup_isSome_iff, ← hkeys, ← AssocList.lookup_isSome_iff, hv] at hmem
      cases hmem
  | some v =>
    cases hv' : held'.lookup k with
    | none =>
      have hmem : (held.lookup k).isSome = true := by rw [hv]; rfl
      rw [AssocList.lookup_isSome_iff, hkeys, ← AssocList.lookup_isSome_iff, hv'] at hmem
      cases hmem
    | some v' =>
      rw [hv, hv'] at hk
      exact congrArg some hk

end Agreement

section Choice

/-- The way a window takes, by its number of rows. -/
def pathOf (sort : TimestampSort) (num : Int) : Path :=
  if num = 1 then rows1 else rowsn sort

variable {sort : TimestampSort} {s : State} {num : Int}

private theorem keepLatest_eq_keep (hnum : s.window.num = num) (t : Tuple) :
    keepLatest sort s t = (pathOf sort num).keep s t := by
  subst hnum
  unfold keepLatest pathOf
  split <;> rfl

private theorem kept_eq_held (hnum : s.window.num = num) : kept s = ((pathOf sort num).held s).flatMap (·.2) := by
  subst hnum
  unfold kept pathOf
  split
  · simp only [rows1, List.flatMap_map]
    exact List.map_eq_flatMap
  · rfl

/-- The window takes the tuples of a set on the way of its number of rows, which does not
change. -/
private theorem foldl_takeTuple_eq (now : Int) (schema : Schema) (tuples : List Tuple) {r : State × List Tuple}
    (hnum : r.1.window.num = num) :
    tuples.foldl (takeTuple sort now schema) r = tuples.foldl ((pathOf sort num).takeTuple now schema) r := by
  induction tuples generalizing r with
  | nil => rfl
  | cons t tuples ih =>
    have hkeep : ∀ s : State, s.window.num = num → keepLatest sort s t = (pathOf sort num).keep s t :=
      fun s hs => keepLatest_eq_keep hs t
    have hstep : takeTuple sort now schema r t = (pathOf sort num).takeTuple now schema r t := by
      have hkeep' : ∀ tupleHashMap : List (Str × Int), keepLatest sort { r.1 with tupleHashMap } t =
          (pathOf sort num).keep { r.1 with tupleHashMap } t := fun tupleHashMap => hkeep _ hnum
      unfold takeTuple Path.takeTuple
      rw [hkeep r.1 hnum]
      split
      · rfl
      · obtain ⟨found, tupleHashMap⟩ := matchHash r.1.tupleHashMap now schema t
        cases found with
        | true => rfl
        | false => simp only [hkeep']
    have hwindow : (takeTuple sort now schema r t).1.window.num = num := by
      have hframe : ∀ s : State, (keepLatest sort s t).window = s.window := by
        intro s
        obtain ⟨_, _, heq⟩ := keepLatest_eq sort s t
        rw [heq]
      unfold takeTuple
      split
      · rw [hframe]
        exact hnum
      · split
        · exact hnum
        · rw [hframe]
          exact hnum
    rw [List.foldl_cons, List.foldl_cons, ← hstep]
    exact ih hwindow

/-- The steps of the window are those of the way it takes. -/
theorem step_eq_path (sort : TimestampSort) (s : State) (act : Act) :
    step sort s act = (pathOf sort s.window.num).step s act := by
  cases act with
  | addTuple QM recvTime tuples => rfl
  | take now =>
    have hfold : ∀ ts : TupleSet, ts.tuples.foldl (takeTuple sort now ts.schema) (s, []) =
        ts.tuples.foldl ((pathOf sort s.window.num).takeTuple now ts.schema) (s, []) :=
      fun ts => foldl_takeTuple_eq now ts.schema ts.tuples rfl
    unfold step Path.step
    cases s.processing with
    | some ts => rfl
    | none =>
      cases s.buffer with
      | nil => rfl
      | cons ts buffer => simp only [hfold]
  | emit =>
    have houtput : output s = (pathOf sort s.window.num).output s := by
      rw [output, Path.output, kept_eq_held rfl]
    unfold step Path.step
    cases s.processing with
    | none => rfl
    | some ts =>
      cases hpath : (pathOf sort s.window.num).output s with
      | nil => simp only [houtput, hpath]
      | cons t tuples => simp only [houtput, hpath]
  | deleteHashmap now => rfl

end Choice

section OneRow

variable {key : Tuple → Str} {accepted : List Tuple}

/-- Where the newest tuple of each partition is unique, it is what any way holds. -/
theorem held_eq_of_unique {τ : Type} [LinearOrder τ] {time : Tuple → τ} {w : WindowOperator}
    (hunique : UniqueNewest w accepted) (htime : ∀ t u : Tuple, time t ≤ time u → t.getTimestamp ≤ u.getTimestamp)
    {held held' : List (Str × List Tuple)} (h : Holds w.makePartitionKey Tuple.getTimestamp 1 accepted held)
    (h' : Holds w.makePartitionKey time 1 accepted held') : held = held' := by
  refine held_eq h h' fun k => ?_
  have hk := h.newest k
  have hk' := h'.newest k
  cases hfilter : accepted.filter fun t => decide (w.makePartitionKey t = k) with
  | nil =>
    rw [hfilter] at hk hk'
    rw [hk.eq_nil, hk'.eq_nil]
  | cons t rest =>
    have ht : t ∈ accepted.filter fun t => decide (w.makePartitionKey t = k) := by
      rw [hfilter]
      exact List.mem_cons_self ..
    obtain ⟨a, ha⟩ := hk.eq_singleton ht
    obtain ⟨b, hb⟩ := hk'.eq_singleton ht
    rw [ha] at hk ⊢
    rw [hb] at hk' ⊢
    obtain ⟨hamem, hale⟩ := hk.le_of_singleton
    obtain ⟨hbmem, hble⟩ := hk'.le_of_singleton
    obtain ⟨hacc, hakey⟩ := List.mem_filter.mp hamem
    obtain ⟨hbcc, hbkey⟩ := List.mem_filter.mp hbmem
    have hakey := of_decide_eq_true hakey
    have hbkey := of_decide_eq_true hbkey
    rw [hunique a hacc b hbcc (hakey.trans hbkey.symm) fun v hv hvkey => ?_]
    have hvmem : v ∈ accepted.filter fun t => decide (w.makePartitionKey t = k) :=
      List.mem_filter.mpr ⟨hv, decide_eq_true (hvkey.trans hakey)⟩
    exact ⟨hale v hvmem, htime v b (hble v hvmem)⟩

/-- Where no two tuples of a partition are newest at the same time, both ways hand on the same
and keep the same. -/
private theorem agree_of_unique {w : WindowOperator} (sort : TimestampSort) {s sn s1 sn1 : State} {acts : List Act}
    (hsim : Alike s sn) (hinv : rows1.Inv w.makePartitionKey Tuple.getTimestamp 1 s)
    (hinvn : (rowsn sort).Inv w.makePartitionKey Tuple.getTimestamp 1 sn) (hemitted : s.emitted = sn.emitted)
    (hunique : ∀ acts', acts' <+: acts → ∀ s', run rows1.step s acts' = .ok s' → UniqueNewest w s'.accepted.flatten)
    (hrun : run rows1.step s acts = .ok s1) (hrunn : run (rowsn sort).step sn acts = .ok sn1) :
    s1.emitted = sn1.emitted ∧ rows1.held s1 = (rowsn sort).held sn1 := by
  have haccepted : sn.accepted = s.accepted := by
    obtain ⟨_, _, _, rfl⟩ := hsim
    rfl
  have hkeeps : rows1.Keeps w.makePartitionKey Tuple.getTimestamp 1 := rows1_keeps
  have hkeepsn : (rowsn sort).Keeps w.makePartitionKey Tuple.getTimestamp 1 := rowsn_keeps sort.sorted 1
  have hheld : rows1.held s = (rowsn sort).held sn :=
    held_eq_of_unique (hunique [] (List.nil_prefix) s rfl) (fun _ _ => id) hinv.holds (haccepted ▸ hinvn.holds)
  induction acts generalizing s sn with
  | nil =>
    cases hrun
    cases hrunn
    exact ⟨hemitted, hheld⟩
  | cons act acts ih =>
    rw [Run.run] at hrun hrunn
    split at hrun
    · next s2 hstep =>
      obtain ⟨sn2, hstepn, hsim', hsame⟩ := hsim.step hkeeps hkeepsn hstep
      rw [hstepn] at hrunn
      have haccepted' : sn2.accepted = s2.accepted := by
        obtain ⟨_, _, _, rfl⟩ := hsim'
        rfl
      have hinv' := hinv.step hkeeps hstep
      have hinvn' := hinvn.step hkeepsn hstepn
      have hunique' : ∀ acts', acts' <+: acts → ∀ s', run rows1.step s2 acts' = .ok s' →
          UniqueNewest w s'.accepted.flatten := fun acts' hprefix s' hrun' =>
        hunique (act :: acts') (List.cons_prefix_cons.mpr ⟨rfl, hprefix⟩) s' (by rw [Run.run, hstep]; exact hrun')
      exact ih hsim' hinv' hinvn' (hsame hheld hemitted) hunique' hrun hrunn haccepted'
        (held_eq_of_unique (hunique' [] List.nil_prefix s2 rfl) (fun _ _ => id) hinv'.holds (haccepted' ▸ hinvn'.holds))
    · cases hrun

open Classical in
/-- A sort that puts a tuple behind the others of its timestamp. -/
noncomputable def lastOf (v : Tuple) : Tuple → Int ×ₗ Bool :=
  fun t => toLex (t.getTimestamp, decide (t = v))

private theorem getTimestamp_le_of_lastOf_le {v t u : Tuple} (h : lastOf v t ≤ lastOf v u) :
    t.getTimestamp ≤ u.getTimestamp := by
  rcases Prod.Lex.toLex_le_toLex.mp h with hlt | ⟨heq, -⟩
  · exact le_of_lt hlt
  · exact le_of_eq heq

private theorem pairwise_mergeSort {τ : Type} [LinearOrder τ] (time : Tuple → τ) (l : List Tuple) :
    (l.mergeSort fun t u => decide (time t ≤ time u)).Pairwise fun t u => time t ≤ time u := by
  have hsorted := @List.pairwise_mergeSort _ (fun t u => decide (time t ≤ time u))
    (fun t u v htu huv => decide_eq_true (le_trans (of_decide_eq_true htu) (of_decide_eq_true huv)))
    (fun t u => by
      rw [Bool.or_eq_true, decide_eq_true_iff, decide_eq_true_iff]
      exact le_total _ _) l
  exact hsorted.imp fun htu => of_decide_eq_true htu

noncomputable def sortLast (v : Tuple) : TimestampSort where
  sort l := l.mergeSort fun t u => decide (lastOf v t ≤ lastOf v u)
  perm l := List.mergeSort_perm l _
  sorted l := (pairwise_mergeSort (lastOf v) l).imp getTimestamp_le_of_lastOf_le

/-- With this sort the tuple is kept where it is a newest one. -/
theorem kept_of_sortLast {w : WindowOperator} {v : Tuple} (hv : v ∈ accepted)
    (hnewest : ∀ t ∈ accepted, w.makePartitionKey t = w.makePartitionKey v → t.getTimestamp ≤ v.getTimestamp)
    {held : List (Str × List Tuple)} (h : Holds w.makePartitionKey (lastOf v) 1 accepted held) :
    (held.lookup (w.makePartitionKey v)).getD [] = [v] := by
  classical
  have hk := h.newest (w.makePartitionKey v)
  have hmem : v ∈ accepted.filter fun t => decide (w.makePartitionKey t = w.makePartitionKey v) :=
    List.mem_filter.mpr ⟨hv, decide_eq_true rfl⟩
  obtain ⟨b, hb⟩ := hk.eq_singleton hmem
  rw [hb] at hk ⊢
  obtain ⟨hbmem, hle⟩ := hk.le_of_singleton
  obtain ⟨hbacc, hbkey⟩ := List.mem_filter.mp hbmem
  have hbv := hnewest b hbacc (of_decide_eq_true hbkey)
  rcases Prod.Lex.toLex_le_toLex.mp (hle v hmem) with hlt | ⟨-, hlast⟩
  · exact absurd hlt (not_lt.mpr hbv)
  · simp only [decide_true] at hlast
    have heq : b = v := of_decide_eq_true (Bool.eq_true_of_true_le hlast)
    rw [heq]

/-- At first nothing is accepted, so that nothing held is right on every way. -/
theorem Initial.path_inv {s : State} (h : Initial s) {p : Path} {τ : Type} [LinearOrder τ] {time : Tuple → τ}
    (hempty : p.held s = []) : p.Inv s.window.makePartitionKey time s.window.num s := by
  refine ⟨rfl, rfl, ?_⟩
  rw [h.accepted, hempty]
  exact ⟨rfl, fun k => HoldsNewest.nil time _⟩

/-- The list of each partition holds its newest tuples in every run, and the way
for one row agrees with the general one in just those runs in whose states the
newest tuple of each partition is unique. -/
theorem keepsNewest_iff {s : State} (hinitial : Initial s) (acts : List Act) :
    (∀ acts', acts' <+: acts → KeepsNewest s acts') ↔
      (s.window.num = 1 → ∀ acts', acts' <+: acts → ∀ s', run rows1.step s acts' = .ok s' →
        UniqueNewest s.window s'.accepted.flatten) := by
  have hinv1 : rows1.Inv s.window.makePartitionKey Tuple.getTimestamp s.window.num s :=
    hinitial.path_inv (by simp [rows1, hinitial.latestTuple1])
  have hinvn : ∀ (sort : TimestampSort) {τ : Type} [LinearOrder τ] (time : Tuple → τ),
      (rowsn sort).Inv s.window.makePartitionKey time s.window.num s := fun sort τ _ time =>
    hinitial.path_inv hinitial.latestTupleN
  have hkeeps : rows1.Keeps s.window.makePartitionKey Tuple.getTimestamp 1 := rows1_keeps
  constructor
  · intro h hone acts' hprefix s' hrun t ht u hu hkey hnewest
    rw [hone] at hinv1
    have hfound : ∀ v ∈ s'.accepted.flatten,
        (∀ x ∈ s'.accepted.flatten, s.window.makePartitionKey x = s.window.makePartitionKey v →
          x.getTimestamp ≤ v.getTimestamp) →
        (s'.latestTuple1.lookup (s.window.makePartitionKey v)).toList = [v] := by
      intro v hv hle
      have hkeepsn : (rowsn (sortLast v)).Keeps s.window.makePartitionKey (lastOf v) 1 :=
        rowsn_keeps (fun l => pairwise_mergeSort (lastOf v) l) 1
      have hself : Alike s s := ⟨s.latestTuple1, s.latestTupleN, s.emitted, rfl⟩
      obtain ⟨sn, hrunn, hsim⟩ := Alike.run hkeeps hkeepsn hself hrun
      have hinv :=
        run_invariant (fun _ _ _ h hstep => h.step hkeepsn hstep) (hone ▸ hinvn (sortLast v) (lastOf v)) hrunn
      have haccepted : sn.accepted = s'.accepted := by
        obtain ⟨_, _, _, rfl⟩ := hsim
        rfl
      rw [((h acts' hprefix).oneRow hone (sortLast v) s' sn hrun hrunn).2]
      exact kept_of_sortLast hv hle (haccepted ▸ hinv.holds)
    have hfoundt := hfound t ht fun x hx hxkey => (hnewest x hx hxkey).1
    have hfoundu := hfound u hu fun x hx hxkey => (hnewest x hx (hxkey.trans hkey.symm)).2
    rw [hkey, hfoundu] at hfoundt
    exact (List.cons.inj hfoundt).1.symm
  · intro hunique acts' hprefix
    refine ⟨fun sort s' hrun key => ?_, fun hone sort s1 sn hrun hrunn => ?_⟩
    · have hkeepsn : (rowsn sort).Keeps s.window.makePartitionKey Tuple.getTimestamp s.window.num :=
        rowsn_keeps sort.sorted _
      have hinv := run_invariant (fun _ _ _ h hstep => h.step hkeepsn hstep) (hinvn sort Tuple.getTimestamp) hrun
      exact hinv.holds.newest key
    · have hinv1' := hone ▸ hinv1
      obtain ⟨hemitted, hheld⟩ := agree_of_unique sort ⟨s.latestTuple1, s.latestTupleN, s.emitted, rfl⟩ hinv1'
        (hone ▸ hinvn sort Tuple.getTimestamp) rfl
        (fun acts'' hprefix' => hunique hone acts'' (hprefix'.trans hprefix)) hrun hrunn
      refine ⟨hemitted, fun key => ?_⟩
      have hlookup := lookup_singletons s1.latestTuple1 key
      rw [← hlookup]
      exact congrArg (fun held => (held.lookup key).getD []) hheld

end OneRow

/-- A ROWS 1 window by the first of two columns, with duplicates allowed. -/
def tieState : State :=
  { queue := { streamName := "s".toList, schema := { tablename := "s".toList, attributes := [{}, {}] } }
    window := { streamName := "s".toList, num := 1, partitionList := [0], allowDuplicateData := true } }

private theorem tieState_initial : Initial tieState :=
  ⟨by decide, by decide, rfl, rfl, rfl, rfl, rfl, rfl⟩

/-- A tuple of two columns. -/
def tieTuple (id v : Int32) (timestamp : Int) : Tuple :=
  { columns := [{ value := .scalar .int id, timestamp }, { value := .scalar .int v, timestamp }] }

/-- A tuple, and a later one of the same partition and timestamp. -/
def ties : List Act :=
  [.addTuple [] 10 [tieTuple 1 1 5], .take 11, .emit, .addTuple [] 20 [tieTuple 1 2 5], .take 21, .emit]

/-- A sort that leaves a new tuple behind the older ones of its timestamp. -/
def insertionSort : TimestampSort where
  sort l := l.insertionSort fun t u => t.getTimestamp ≤ u.getTimestamp
  perm l := List.perm_insertionSort _ l
  sorted l := by
    have : Std.Total fun t u : Tuple => t.getTimestamp ≤ u.getTimestamp := ⟨fun t u => le_total _ _⟩
    have : IsTrans Tuple fun t u => t.getTimestamp ≤ u.getTimestamp := ⟨fun t u v => le_trans⟩
    exact List.pairwise_insertionSort _ l

example : ((run rows1.step tieState ties).toOption.map fun s => s.emitted.length) = some 2 := by decide

/-- Of the two tuples one way keeps the first and the other the second. -/
theorem ties_not_keepsNewest : Initial tieState ∧ ¬ ∀ acts, acts <+: ties → KeepsNewest tieState acts := by
  refine ⟨tieState_initial, fun h => ?_⟩
  obtain ⟨-, hstored⟩ := (h ties (List.prefix_refl _)).oneRow rfl insertionSort _ _ rfl rfl
  have hkey := congrArg (fun l => l.map fun t => (t.getValueByIdx 1).map getAnyString) (hstored "1|".toList)
  exact absurd hkey (by decide)

/-- Tuples of different timestamps have no two newest ones. -/
theorem uniqueNewest_of_nodup {w : WindowOperator} {tuples : List Tuple} (h : (tuples.map Tuple.getTimestamp).Nodup) :
    UniqueNewest w tuples := by
  intro t ht u hu hkey hnewest
  have hle := (hnewest u hu hkey.symm).1
  have hge := (hnewest t ht rfl).2
  exact List.inj_on_of_nodup_map h ht hu (le_antisymm hge hle)

/-- A tuple, and a later one of the same partition and a later timestamp. -/
def displaced : List Act :=
  [.addTuple [] 10 [tieTuple 1 1 5], .take 11, .emit, .addTuple [] 20 [tieTuple 1 2 6], .take 21, .emit]

/-- The list of the partition holds the later tuple in the end. -/
theorem keepsNewest_displaced : Initial tieState ∧ ∀ acts, acts <+: displaced → KeepsNewest tieState acts := by
  refine ⟨tieState_initial, (keepsNewest_iff tieState_initial displaced).mpr fun _ acts hprefix s' hrun => ?_⟩
  have hnodup : ∀ n ∈ List.range 7, ((run rows1.step tieState (displaced.take n)).toOption.all fun s =>
      decide (s.accepted.flatten.map Tuple.getTimestamp).Nodup) = true := by
    decide +kernel
  have hlength : acts.length < 7 := Nat.lt_succ_of_le hprefix.length_le
  have hacts := hnodup acts.length (List.mem_range.mpr hlength)
  rw [← List.prefix_iff_eq_take.mp hprefix, hrun] at hacts
  exact uniqueNewest_of_nodup (of_decide_eq_true hacts)

end PartitionWindow

end IS

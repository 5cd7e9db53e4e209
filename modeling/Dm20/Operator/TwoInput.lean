import Mathlib.Order.Compare
import Dm20.Lib.AssocList
import Dm20.Lib.Pairing
import Dm20.TupleLib.TupleSet

namespace IS

/-- What a join and a union share: the tuple sets that wait for a partner by
their reception time, and the buffer of those that have found one. -/
structure TwoInputOperator where
  MyName : Str
  buffer : List TupleSet := []
  waitQMap : List (Int × TupleSet) := []
  requests : List (Nat × Int) := []

namespace TwoInputOperator

/-- The two sets of a pair as they are put into the buffer: that with more
attributes first, and of as many attributes that with the greater table name.
Where both agree the one that came first is first. -/
def orient (waiting ts : TupleSet) : List TupleSet :=
  if waiting.schema.getAttributeSize > ts.schema.getAttributeSize then [waiting, ts]
  else if waiting.schema.getAttributeSize < ts.schema.getAttributeSize then [ts, waiting]
  else
    match compare waiting.schema.tablename ts.schema.tablename with
    | .gt => [waiting, ts]
    | .lt => [ts, waiting]
    | .eq => [waiting, ts]

/-- Takes a tuple set in. A set of a recursive query that has to wait requests
its partner from the parents. -/
def receiveTupleSet (ope : TwoInputOperator) (ts : TupleSet) : TwoInputOperator :=
  if ts.schema.tablename ≠ Schema.UNKNOWN then
    match ope.waitQMap.lookup ts.recvTime with
    | none =>
      { ope with
        waitQMap := ope.waitQMap ++ [(ts.recvTime, ts)]
        requests := if ts.isRecursive then ope.requests ++ [(ts.fromOperator, ts.recvTime)] else ope.requests }
    | some waiting =>
      { ope with
        buffer := ope.buffer ++ orient waiting ts
        waitQMap := ope.waitQMap.filter fun w => decide (w.1 ≠ ts.recvTime) }
  else ope

def expect_data_size : Nat :=
  2

/-- The tuple sets that the worker takes from the front of the buffer. -/
def getTupleSet (ope : TwoInputOperator) : List TupleSet × TwoInputOperator :=
  (ope.buffer.take expect_data_size, { ope with buffer := ope.buffer.drop expect_data_size })

end TwoInputOperator

/-- The join and the union differ in the name in their messages only. -/
def JoinOperator.twoInput : TwoInputOperator :=
  { MyName := "Join".toList }

def UnionOperator.twoInput : TwoInputOperator :=
  { MyName := "Union".toList }

namespace TwoInputOperator

/-- What happens at an operator: a producer hands a set in, or the worker wakes up. -/
inductive Event where
  | receiveTupleSet (ts : TupleSet)
  | execute

/-- An operator and what its worker has given to `process` so far. -/
structure Exec where
  ope : TwoInputOperator
  processed : List (List TupleSet) := []

def step (s : Exec) : Event → Exec
  | .receiveTupleSet ts => { s with ope := s.ope.receiveTupleSet ts }
  | .execute =>
    match s.ope.getTupleSet with
    | ([], ope) => { s with ope }
    | (ts, ope) => { ope, processed := s.processed ++ [ts] }

def exec (ope : TwoInputOperator) (events : List Event) : Exec :=
  events.foldl step { ope }

/-- The tuple sets that arrive in a run. -/
def arrivals (events : List Event) : List TupleSet :=
  events.filterMap fun
    | .receiveTupleSet ts => some ts
    | .execute => none

/-- The sets that are not refused. -/
def accepted (events : List Event) : List TupleSet :=
  (arrivals events).filter fun ts => decide (ts.schema.tablename ≠ Schema.UNKNOWN)

/-- How two schemas stand in a pair: by their number of attributes, then by
their table names. -/
def schemaOrder (schema1 schema2 : Schema) : Ordering :=
  (compare schema1.getAttributeSize schema2.getAttributeSize).then (compare schema1.tablename schema2.tablename)

/-- The second set of a pair, after the first one. -/
def orientPair (p : TupleSet × TupleSet) : TupleSet × TupleSet :=
  match schemaOrder p.1.schema p.2.schema with
  | .lt => (p.2, p.1)
  | _ => p

/-- The two sets of a pair are put in order by their schemas. -/
private theorem orient_eq (waiting ts : TupleSet) : orient waiting ts = Pairing.both (orientPair (waiting, ts)) := by
  unfold orient orientPair schemaOrder
  rcases Nat.lt_trichotomy waiting.schema.getAttributeSize ts.schema.getAttributeSize with hlt | heq | hgt
  · have hnot : ¬ waiting.schema.getAttributeSize > ts.schema.getAttributeSize := by omega
    rw [if_neg hnot, if_pos hlt, Nat.compare_eq_lt.mpr hlt]
    rfl
  · have hcompare : compare waiting.schema.getAttributeSize ts.schema.getAttributeSize = .eq :=
      Nat.compare_eq_eq.mpr heq
    rw [if_neg (by omega), if_neg (by omega), hcompare]
    cases compare waiting.schema.tablename ts.schema.tablename <;> rfl
  · rw [if_pos hgt, Nat.compare_eq_gt.mpr hgt]
    rfl

private theorem both_orientPair_perm (p : TupleSet × TupleSet) :
    (Pairing.both (orientPair p)).Perm (Pairing.both p) := by
  unfold orientPair
  split
  · exact List.Perm.swap p.1 p.2 []
  · exact List.Perm.refl _

/-- A run of an operator follows the pairing of the sets it accepts: the pairs
handed to the worker come before those in the buffer. -/
structure Follows (events : List Event) (s : Exec) (p : Pairing.State TupleSet) : Prop where
  formed : Pairing.Formed TupleSet.recvTime (accepted events) p
  waitQMap_eq : s.ope.waitQMap = p.waiting.map fun ts => (ts.recvTime, ts)
  pairs_eq : ∃ handed buffered, p.pairs = handed ++ buffered ∧
    s.processed = handed.map (fun q => Pairing.both (orientPair q)) ∧
    s.ope.buffer = buffered.flatMap fun q => Pairing.both (orientPair q)

/-- A set that waits is found by its time, and the first one of a time first. -/
private theorem lookup_waiting (waiting : List TupleSet) (time : Int) :
    (waiting.map fun ts => (ts.recvTime, ts)).lookup time =
      waiting.find? fun ts => decide (ts.recvTime = time) := by
  induction waiting with
  | nil => rfl
  | cons ts waiting ih =>
    rw [List.map_cons, AssocList.lookup_cons_eq_ite, List.find?_cons, ih]
    by_cases htime : time = ts.recvTime
    · simp [htime]
    · simp [htime, Ne.symm htime]

private theorem accepted_append (events : List Event) (event : Event) :
    accepted (events ++ [event]) = accepted events ++ accepted [event] := by
  simp [accepted, arrivals]

/-- A set that is handed in joins those of its input, in the operator as in the pairing. -/
theorem Follows.receiveTupleSet {events : List Event} {s : Exec} {p : Pairing.State TupleSet}
    (h : Follows events s p) (ts : TupleSet) :
    ∃ p', Follows (events ++ [.receiveTupleSet ts]) (step s (.receiveTupleSet ts)) p' := by
  by_cases hname : ts.schema.tablename = Schema.UNKNOWN
  · have haccepted : accepted [.receiveTupleSet ts] = [] := by simp [accepted, arrivals, hname]
    have hstep : step s (.receiveTupleSet ts) = s := by simp [step, TwoInputOperator.receiveTupleSet, hname]
    refine ⟨p, ?_⟩
    rw [hstep]
    exact ⟨by rw [accepted_append, haccepted, List.append_nil]; exact h.formed, h.waitQMap_eq, h.pairs_eq⟩
  have haccepted : accepted [.receiveTupleSet ts] = [ts] := by simp [accepted, arrivals, hname]
  refine ⟨Pairing.arrive TupleSet.recvTime p ts, ?_, ?_, ?_⟩
  · rw [accepted_append, haccepted]
    exact h.formed.arrive ts
  · simp only [step, TwoInputOperator.receiveTupleSet, ne_eq, hname, not_false_eq_true, if_true, h.waitQMap_eq,
      lookup_waiting, Pairing.arrive]
    cases p.waiting.find? fun b => decide (b.recvTime = ts.recvTime) with
    | none => simp
    | some waiting => simp [List.filter_map, Function.comp_def]
  · obtain ⟨handed, buffered, hpairs, hprocessed, hbuffer⟩ := h.pairs_eq
    simp only [step, TwoInputOperator.receiveTupleSet, ne_eq, hname, not_false_eq_true, if_true, h.waitQMap_eq,
      lookup_waiting, Pairing.arrive]
    cases p.waiting.find? fun b => decide (b.recvTime = ts.recvTime) with
    | none => exact ⟨handed, buffered, hpairs, hprocessed, hbuffer⟩
    | some waiting =>
      refine ⟨handed, buffered ++ [(waiting, ts)], ?_, hprocessed, ?_⟩
      · simp [hpairs]
      · simp [hbuffer, orient_eq]

private theorem getTupleSet_of_empty {ope : TwoInputOperator} (h : ope.buffer = []) : ope.getTupleSet = ([], ope) := by
  cases ope
  cases h
  rfl

/-- The worker takes the oldest pair of the buffer, or nothing. -/
theorem Follows.execute {events : List Event} {s : Exec} {p : Pairing.State TupleSet} (h : Follows events s p) :
    Follows (events ++ [.execute]) (step s .execute) p := by
  have haccepted : accepted (events ++ [.execute]) = accepted events := by
    rw [accepted_append]
    exact List.append_nil _
  obtain ⟨handed, buffered, hpairs, hprocessed, hbuffer⟩ := h.pairs_eq
  cases buffered with
  | nil =>
    have hstep : step s .execute = s := by simp only [step, getTupleSet_of_empty hbuffer]
    rw [hstep]
    exact ⟨haccepted ▸ h.formed, h.waitQMap_eq, handed, [], hpairs, hprocessed, hbuffer⟩
  | cons q buffered =>
    have hget : s.ope.getTupleSet =
        (Pairing.both (orientPair q),
          { s.ope with buffer := buffered.flatMap fun q => Pairing.both (orientPair q) }) := by
      simp [getTupleSet, hbuffer, Pairing.both, expect_data_size]
    have hstep : step s .execute =
        ⟨{ s.ope with buffer := buffered.flatMap fun q => Pairing.both (orientPair q) },
          s.processed ++ [Pairing.both (orientPair q)]⟩ := by
      simp only [step, hget, Pairing.both]
    rw [hstep]
    refine ⟨haccepted ▸ h.formed, h.waitQMap_eq, handed ++ [q], buffered, ?_, ?_, rfl⟩
    · rw [hpairs, List.append_assoc]
      rfl
    · rw [hprocessed, List.map_append]
      rfl

/-- By induction on the events, the operator goes along with a pairing. -/
private theorem exists_follows (MyName : Str) (events : List Event) :
    ∃ p, Follows events (exec { MyName } events) p := by
  induction events using List.reverseRecOn with
  | nil => exact ⟨{}, Pairing.formed_nil _, rfl, [], [], rfl, rfl, rfl⟩
  | append_singleton events event ih =>
    obtain ⟨p, hp⟩ := ih
    have hexec : exec { MyName } (events ++ [event]) = step (exec { MyName } events) event := by
      simp [exec]
    rw [hexec]
    cases event with
    | receiveTupleSet ts => exact hp.receiveTupleSet ts
    | execute => exact ⟨p, hp.execute⟩

/-- The first set of an ordered pair has the greater schema, or the schemas are equal and the
order is that of arrival. -/
private theorem schemaOrder_orientPair (p : TupleSet × TupleSet) :
    schemaOrder (orientPair p).1.schema (orientPair p).2.schema = .gt ∨
      (schemaOrder (orientPair p).1.schema (orientPair p).2.schema = .eq ∧ orientPair p = p) := by
  unfold orientPair
  cases horder : schemaOrder p.1.schema p.2.schema with
  | lt =>
    left
    have hswap : schemaOrder p.2.schema p.1.schema = (schemaOrder p.1.schema p.2.schema).swap := by
      unfold schemaOrder
      rw [Ordering.swap_then, ← Std.OrientedCmp.eq_swap, ← Std.OrientedCmp.eq_swap]
    rw [hswap, horder]
    rfl
  | eq => exact Or.inr ⟨horder, rfl⟩
  | gt => exact Or.inl horder

/-- The pairs that the worker was given, those in the buffer and the sets that
wait: each accepted set is in one place, a pair is of one reception time and of
both inputs, and its order is that of the schemas, or of arrival where the
schemas do not decide. -/
structure Paired (events : List Event) (s : Exec) (handed buffered : List (TupleSet × TupleSet))
    (waiting : List TupleSet) : Prop where
  processed_eq : s.processed = handed.map Pairing.both
  buffer_eq : s.ope.buffer = buffered.flatMap Pairing.both
  waitQMap_eq : s.ope.waitQMap = waiting.map fun ts => (ts.recvTime, ts)
  perm : ((handed ++ buffered).flatMap Pairing.both ++ waiting).Perm (accepted events)
  recvTime_eq : ∀ p ∈ handed ++ buffered, p.1.recvTime = p.2.recvTime
  inputs_ne : ∀ p ∈ handed ++ buffered, p.1.fromOperator ≠ p.2.fromOperator
  ordered : ∀ p ∈ handed ++ buffered, schemaOrder p.1.schema p.2.schema = .gt ∨
    (schemaOrder p.1.schema p.2.schema = .eq ∧ [p.1, p.2].Sublist (accepted events))
  unpaired : ∀ ts ∈ waiting, ∀ ts' ∈ accepted events, ts'.recvTime = ts.recvTime → ts' = ts

/-- Each reception time arrives at most once at each input. -/
def OncePerInput (events : List Event) : Prop :=
  ((arrivals events).map fun ts => (ts.fromOperator, ts.recvTime)).Nodup

/-- An operator that follows the pairing hands each set on once, with the next set of the other
input, if each input hands in its sets under one name. -/
theorem Follows.paired {events : List Event} {s : Exec} {p : Pairing.State TupleSet} (h : Follows events s p)
    {left right : Nat} (hinputs : ∀ ts ∈ arrivals events, ts.fromOperator = left ∨ ts.fromOperator = right)
    (honce : OncePerInput events) : ∃ handed buffered, Paired events s handed buffered p.waiting := by
  have haccepted : (accepted events).Sublist (arrivals events) := List.filter_sublist
  have hnodup : ((accepted events).map fun ts => (ts.fromOperator, ts.recvTime)).Nodup :=
    List.Nodup.sublist (haccepted.map _) honce
  obtain ⟨handed, buffered, hpairs, hprocessed, hbuffer⟩ := h.pairs_eq
  have hmem : ∀ q ∈ handed.map orientPair ++ buffered.map orientPair, ∃ p' ∈ p.pairs, q = orientPair p' := by
    intro q hq
    rw [← List.map_append, ← hpairs] at hq
    obtain ⟨p', hp', rfl⟩ := List.mem_map.mp hq
    exact ⟨p', hp', rfl⟩
  have hcases : ∀ p', orientPair p' = p' ∨ orientPair p' = (p'.2, p'.1) := by
    intro p'
    unfold orientPair
    split
    · exact Or.inr rfl
    · exact Or.inl rfl
  refine ⟨handed.map orientPair, buffered.map orientPair, ?_, ?_, h.waitQMap_eq, ?_, ?_, ?_, ?_, ?_⟩
  · rw [hprocessed, List.map_map]
    rfl
  · rw [hbuffer, List.flatMap_map]
  · refine List.Perm.trans (List.Perm.append_right _ ?_) h.formed.perm
    rw [← List.map_append, ← hpairs, List.flatMap_map]
    exact List.Perm.flatMap_left _ fun p' _ => both_orientPair_perm p'
  · intro q hq
    obtain ⟨p', hp', rfl⟩ := hmem q hq
    rcases hcases p' with heq | heq
    · rw [heq]
      exact h.formed.key_eq p' hp'
    · rw [heq]
      exact (h.formed.key_eq p' hp').symm
  · intro q hq
    obtain ⟨p', hp', rfl⟩ := hmem q hq
    rcases hcases p' with heq | heq
    · rw [heq]
      exact h.formed.tag_ne hnodup hp'
    · rw [heq]
      exact (h.formed.tag_ne hnodup hp').symm
  · intro q hq
    obtain ⟨p', hp', rfl⟩ := hmem q hq
    refine (schemaOrder_orientPair p').imp_right fun horder => ⟨horder.1, ?_⟩
    rw [horder.2]
    exact h.formed.earlier p' hp'
  · intro ts hts ts' hts' htime
    exact h.formed.alone hnodup (fun t ht => hinputs t (haccepted.subset ht)) hts hts' htime

/-- In every run of a join or a union whose two inputs each bring a reception
time at most once, the sets are paired. -/
theorem exec_paired (MyName : Str) (events : List Event) (left right : Nat)
    (hinputs : ∀ ts ∈ arrivals events, ts.fromOperator = left ∨ ts.fromOperator = right)
    (honce : OncePerInput events) :
    ∃ handed buffered waiting, Paired events (exec { MyName } events) handed buffered waiting := by
  obtain ⟨p, hp⟩ := exists_follows MyName events
  obtain ⟨handed, buffered, hpaired⟩ := hp.paired hinputs honce
  exact ⟨handed, buffered, p.waiting, hpaired⟩

/-- A set of the stream `s` handed on by one of the inputs 0 and 1. -/
def setFrom (fromOperator : Nat) : TupleSet :=
  { schema := { tablename := "s".toList }, recvTime := 10, fromOperator }

/-- A join of a stream with itself, of which one pair is taken. -/
def selfJoin (first second : Nat) : List Event :=
  [.receiveTupleSet (setFrom first), .receiveTupleSet (setFrom second), .execute]

/-- A join of a stream with itself, whose two inputs hand in their sets one after the other. -/
theorem exec_paired_selfJoin :
    ∃ handed buffered waiting,
      Paired (selfJoin 0 1) (exec JoinOperator.twoInput (selfJoin 0 1)) handed buffered waiting := by
  refine exec_paired "Join".toList (selfJoin 0 1) 0 1 ?_ ?_
  · simp [selfJoin, arrivals, setFrom]
  · simp [OncePerInput, selfJoin, arrivals, setFrom]

/-- The order in a pair is no function of the schemas of the two inputs, and a
set of an unknown table is in no pair and does not wait. -/
theorem order_not_of_schemas :
    (¬ ∃ leftFirst : Schema → Schema → Bool, ∀ events,
      (∀ ts ∈ arrivals events, ts.fromOperator = 0 ∨ ts.fromOperator = 1) → OncePerInput events →
      ∀ first second, [first, second] ∈ (exec JoinOperator.twoInput events).processed →
        (first.fromOperator = 0 → leftFirst first.schema second.schema = true) ∧
          (first.fromOperator = 1 → leftFirst second.schema first.schema = false)) ∧
      (exec JoinOperator.twoInput [.receiveTupleSet {}]).ope.waitQMap = [] ∧
      (exec JoinOperator.twoInput [.receiveTupleSet {}]).ope.buffer = [] := by
  refine ⟨?_, by decide, by decide⟩
  rintro ⟨leftFirst, hall⟩
  have hleft := hall (selfJoin 0 1) (by simp [selfJoin, arrivals, setFrom])
    (by simp [OncePerInput, selfJoin, arrivals, setFrom]) (setFrom 0) (setFrom 1) (List.mem_singleton_self _)
  have hright := hall (selfJoin 1 0) (by simp [selfJoin, arrivals, setFrom])
    (by simp [OncePerInput, selfJoin, arrivals, setFrom]) (setFrom 1) (setFrom 0) (List.mem_singleton_self _)
  have htrue : leftFirst (setFrom 0).schema (setFrom 1).schema = true := hleft.1 rfl
  have hfalse : leftFirst (setFrom 0).schema (setFrom 1).schema = false := hright.2 rfl
  rw [htrue] at hfalse
  cases hfalse

end TwoInputOperator

end IS

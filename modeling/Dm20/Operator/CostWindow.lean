import Mathlib.Data.List.Sort
import Dm20.Lib.Smallest
import Dm20.Operator.PartitionWindow

namespace IS

namespace Tuple

/-- A column of an integer; any other value counts as zero. -/
def getIntValueByIdx (t : Tuple) (idx : Nat) : Int :=
  match t.getValueByIdx idx with
  | some (.scalar .int v) => v.toInt
  | _ => 0

/-- A column of a text or of an integer as a text; any other value counts as the empty text. -/
def getStringValueByIdx (t : Tuple) (idx : Nat) : Str :=
  match t.getValueByIdx idx with
  | some (.scalar .string v) => v
  | some (.scalar .int v) => to_string_int v.toInt
  | some (.scalar .long v) => to_string_int v.toInt
  | some (.scalar .ulonglong v) => to_string_nat v.toNat
  | some (.scalar .uint64 v) => to_string_nat v.toNat
  | _ => []

end Tuple

namespace CostWindow

/-- Latitude, longitude and height, as the numbers that the columns hold. -/
structure Position where
  x : Int := 0
  y : Int := 0
  z : Int := 0
deriving DecidableEq, Repr

def id_idx : Nat := 0
def x_idx : Nat := 22
def y_idx : Nat := 21
def z_idx : Nat := 23

def position (t : Tuple) : Position where
  x := t.getIntValueByIdx x_idx
  y := t.getIntValueByIdx y_idx
  z := t.getIntValueByIdx z_idx

/-- A window of rows from which the `limit` nearest to an object are handed on. -/
structure Window extends WindowOperator where
  limit : Nat
  costId : Str

/-- The position of the key object, once it has been seen, and the hash values seen. -/
structure State where
  key : Position := {}
  setKeyLine : Bool := false
  tupleHashMap : List (Str × Int) := []

/-- The time at which a tuple is looked at, and the deletions of old hash values since the
tuple before. -/
structure Moment where
  purges : List Int := []
  now : Int := 0

/-- `std::sort` by cost. The order of tuples of one cost is not specified. -/
structure CostSort (D : Type) [LinearOrder D] where
  sort : List (Tuple × D) → List (Tuple × D)
  perm : ∀ l, (sort l).Perm l
  sorted : ∀ l, (sort l).Pairwise fun t u => t.2 ≤ u.2

def isKey (w : Window) (t : Tuple) : Bool :=
  t.getStringValueByIdx id_idx == w.costId

def getKeyLine (w : Window) (s : State) (t : Tuple) : Bool × State :=
  if isKey w t then (true, { s with key := position t, setKeyLine := true })
  else (false, s)

def deleteHashmap (tupleHashMap : List (Str × Int)) (now : Int) : List (Str × Int) :=
  tupleHashMap.filter fun h => decide (now - 10 * 1000 * 1000 ≤ h.2)

/-- Whether a tuple is a duplicate; where duplicates are allowed none is. -/
def isDuplicate (w : Window) (schema : Schema) (s : State) (t : Tuple) (m : Moment) : Bool × State :=
  let s := { s with tupleHashMap := m.purges.foldl deleteHashmap s.tupleHashMap }
  if w.allowDuplicateData then (false, s)
  else
    let (found, tupleHashMap) := PartitionWindow.matchHash s.tupleHashMap m.now schema t
    (found, { s with tupleHashMap })

section Process

variable {D : Type} [LinearOrder D] (dist : Position → Position → D)

/-- The distance to the position of the key object that is known now. -/
def getCost (s : State) (t : Tuple) : Tuple × D :=
  (t, dist s.key (position t))

/-- The loop once the key object has been seen. -/
def nearLoop (w : Window) (schema : Schema) : State → List (Tuple × D) → List (Tuple × Moment) → State × List (Tuple × D)
  | s, retTupleSet, [] => (s, retTupleSet)
  | s, retTupleSet, (t, m) :: rest =>
    let costed := getCost dist s t
    let (isKeyLine, s) := getKeyLine w s t
    let (found, s) := isDuplicate w schema s t m
    if found then nearLoop w schema s retTupleSet rest
    else
      let retTupleSet := if isKeyLine then retTupleSet else retTupleSet ++ [costed]
      if w.num ≤ retTupleSet.length then (s, retTupleSet) else nearLoop w schema s retTupleSet rest

/-- The loop before the key object has been seen. -/
def allLoop (w : Window) (schema : Schema) : State → List Tuple → List (Tuple × Moment) → State × List Tuple
  | s, retTupleSet, [] => (s, retTupleSet)
  | s, retTupleSet, (t, m) :: rest =>
    let (_, s) := getKeyLine w s t
    let (found, s) := isDuplicate w schema s t m
    allLoop w schema s (if found then retTupleSet else retTupleSet ++ [t]) rest

/-- A tuple set that is processed, each tuple with the time at which it is looked at. -/
structure Batch where
  schema : Schema := {}
  tuples : List (Tuple × Moment)

def proc_by_cost_sort (sort : CostSort D) (w : Window) (s : State) (batch : Batch) : State × List Tuple :=
  if 0 < w.num then
    if s.setKeyLine then
      let (s, retTupleSet) := nearLoop dist w batch.schema s [] batch.tuples
      let retTupleSet := if w.limit < retTupleSet.length then (sort.sort retTupleSet).take w.limit else retTupleSet
      (s, (retTupleSet.map Prod.fst).reverse)
    else
      let (s, retTupleSet) := allLoop w batch.schema s [] (batch.tuples.take w.num.toNat)
      (s, retTupleSet.reverse)
  else (s, (batch.tuples.map Prod.fst).reverse)

end Process

/-- The tuples of a batch that are no duplicates, each with the position of the key object that
is known when it is looked at. -/
def offered (w : Window) (schema : Schema) : State → List (Tuple × Moment) → List (Tuple × Position)
  | _, [] => []
  | s, (t, m) :: rest =>
    let s' := (isDuplicate w schema (getKeyLine w s t).2 t m).2
    if (isDuplicate w schema (getKeyLine w s t).2 t m).1 then offered w schema s' rest
    else (t, s.key) :: offered w schema s' rest

/-- The first `num` tuples of a batch that are no duplicates and not of the key object. -/
def candidates (w : Window) (s : State) (batch : Batch) : List (Tuple × Position) :=
  ((offered w batch.schema s batch.tuples).filter fun c => !isKey w c.1).take w.num.toNat

/-- What is known of the key object from the batches: whether it was looked at, and where it was last. -/
structure Sighting where
  seen : Bool := false
  latest : Position := {}

/-- The sighting after a batch. Before the key object is seen `num` tuples are looked at. -/
def Sighting.update (w : Window) (k : Sighting) (batch : Batch) : Sighting where
  seen := k.seen || (batch.tuples.take w.num.toNat).any fun tm => isKey w tm.1
  latest := (((batch.tuples.map Prod.fst).filter (isKey w)).getLast?.map position).getD k.latest

section Runs

variable {D : Type} [LinearOrder D] (dist : Position → Position → D) (sort : CostSort D) (w : Window)

/-- In a run each batch after the key object has been seen gives the `limit` nearest candidates. -/
def Delivers : State → Sighting → List Batch → Prop
  | _, _, [] => True
  | s, k, batch :: batches =>
    let k' := k.update w batch
    (k.seen = true → Smallest w.limit (fun t => dist k'.latest (position t)) ((candidates w s batch).map Prod.fst)
      (proc_by_cost_sort dist sort w s batch).2) ∧
    Delivers (proc_by_cost_sort dist sort w s batch).1 k' batches

/-- In a run each batch after the key object has been seen either has no more candidates than may
be handed on, or each candidate comes when the key object's latest position is known. -/
def Punctual : State → Sighting → List Batch → Prop
  | _, _, [] => True
  | s, k, batch :: batches =>
    let k' := k.update w batch
    (k.seen = true → (candidates w s batch).length ≤ w.limit ∨ ∀ c ∈ candidates w s batch, c.2 = k'.latest) ∧
    Punctual (proc_by_cost_sort dist sort w s batch).1 k' batches

end Runs

variable {D : Type} [LinearOrder D] {dist : Position → Position → D} {w : Window} {s : State}

/-- The candidates among tuples that are offered. -/
def others (w : Window) (offers : List (Tuple × Position)) : List (Tuple × Position) :=
  offers.filter fun c => !isKey w c.1

def costed (dist : Position → Position → D) (c : Tuple × Position) : Tuple × D :=
  (c.1, dist c.2 (position c.1))

omit [LinearOrder D] in
/-- The loop collects the candidates with their costs, as long as the window has room. -/
theorem nearLoop_eq (schema : Schema) (retTupleSet : List (Tuple × D)) (tuples : List (Tuple × Moment))
    (hroom : (retTupleSet.length : Int) < w.num) :
    (nearLoop dist w schema s retTupleSet tuples).2 =
      (retTupleSet ++ (others w (offered w schema s tuples)).map (costed dist)).take w.num.toNat := by
  induction tuples generalizing s retTupleSet with
  | nil =>
    rw [offered, others, List.filter_nil, List.map_nil, List.append_nil, List.take_of_length_le (by omega)]
    rfl
  | cons tm rest ih =>
    obtain ⟨t, m⟩ := tm
    have hkey : (getKeyLine w s t).1 = isKey w t := by
      unfold getKeyLine
      split
      · next h => exact h.symm
      · next h => exact (Bool.eq_false_iff.mpr h).symm
    rw [nearLoop, offered]
    simp only [hkey]
    split
    · exact ih retTupleSet hroom
    · by_cases hkeyLine : isKey w t = true
      · have hothers : ∀ offers, others w ((t, s.key) :: offers) = others w offers := fun offers =>
          List.filter_cons_of_neg (by simp [hkeyLine])
        rw [if_pos hkeyLine, if_neg (by omega), ih retTupleSet hroom, hothers]
      · have hothers : ∀ offers, others w ((t, s.key) :: offers) = (t, s.key) :: others w offers := fun offers =>
          List.filter_cons_of_pos (by simp [hkeyLine])
        have hsplit : ∀ offers : List (Tuple × Position),
            retTupleSet ++ (others w ((t, s.key) :: offers)).map (costed dist) =
              (retTupleSet ++ [getCost dist s t]) ++ (others w offers).map (costed dist) := fun offers => by
          rw [hothers, List.map_cons, List.append_assoc]
          rfl
        rw [if_neg hkeyLine, hsplit]
        have hlength : (retTupleSet ++ [getCost dist s t]).length = retTupleSet.length + 1 := by
          rw [List.length_append, List.length_singleton]
        split
        · next hfull =>
          rw [List.take_append_of_le_length (by omega), List.take_of_length_le (by omega)]
        · next hmore => exact ih _ (by omega)

omit [LinearOrder D] in
private theorem nearLoop_candidates (batch : Batch) (hnum : 0 < w.num) :
    (nearLoop dist w batch.schema s [] batch.tuples).2 = (candidates w s batch).map (costed dist) := by
  rw [nearLoop_eq batch.schema [] batch.tuples (by simpa using hnum), List.nil_append, ← List.map_take]
  rfl

/-- A batch that is looked at when the key object's latest position is known for all candidates,
or that has few of them, gives the nearest. -/
theorem smallest_of_punctual (sort : CostSort D) {batch : Batch} {latest : Position} (hnum : 0 < w.num)
    (hset : s.setKeyLine = true)
    (h : (candidates w s batch).length ≤ w.limit ∨ ∀ c ∈ candidates w s batch, c.2 = latest) :
    Smallest w.limit (fun t => dist latest (position t)) ((candidates w s batch).map Prod.fst)
      (proc_by_cost_sort dist sort w s batch).2 := by
  have hfst : ((candidates w s batch).map (costed dist)).map Prod.fst = (candidates w s batch).map Prod.fst := by
    rw [List.map_map]
    rfl
  have hprocess : (proc_by_cost_sort dist sort w s batch).2 =
      ((if w.limit < ((candidates w s batch).map (costed dist)).length then
        (sort.sort ((candidates w s batch).map (costed dist))).take w.limit
        else (candidates w s batch).map (costed dist)).map Prod.fst).reverse := by
    rw [proc_by_cost_sort, if_pos hnum, if_pos hset]
    simp only [nearLoop_candidates batch hnum]
  rw [hprocess]
  refine Smallest.of_perm ?_ (List.reverse_perm _)
  rw [List.length_map]
  split
  · next hmany =>
    have hlatest := h.resolve_left (by omega)
    have hsorted : Smallest w.limit Prod.snd ((candidates w s batch).map (costed dist))
        ((sort.sort ((candidates w s batch).map (costed dist))).take w.limit) :=
      Smallest.take_of_sorted (sort.perm _) (sort.sorted _)
    rw [← hfst]
    refine hsorted.map ?_
    intro p hp
    obtain ⟨c, hc, rfl⟩ := List.mem_map.mp hp
    rw [costed, hlatest c hc]
  · next hfew =>
    rw [hfst]
    exact Smallest.self (by rw [List.length_map]; omega)

private theorem isDuplicate_setKeyLine (schema : Schema) (t : Tuple) (m : Moment) :
    (isDuplicate w schema s t m).2.setKeyLine = s.setKeyLine := by
  unfold isDuplicate
  split <;> rfl

private theorem getKeyLine_setKeyLine (t : Tuple) :
    (getKeyLine w s t).2.setKeyLine = (s.setKeyLine || isKey w t) := by
  unfold getKeyLine
  split
  · next h => rw [h, Bool.or_true]
  · next h => rw [Bool.eq_false_iff.mpr h, Bool.or_false]

omit [LinearOrder D] in
/-- Once the flag is set the loop leaves it set. -/
private theorem nearLoop_setKeyLine (schema : Schema) (retTupleSet : List (Tuple × D)) (tuples : List (Tuple × Moment))
    (hset : s.setKeyLine = true) : (nearLoop dist w schema s retTupleSet tuples).1.setKeyLine = true := by
  induction tuples generalizing s retTupleSet with
  | nil => exact hset
  | cons tm rest ih =>
    have hnext : (isDuplicate w schema (getKeyLine w s tm.1).2 tm.1 tm.2).2.setKeyLine = true := by
      rw [isDuplicate_setKeyLine, getKeyLine_setKeyLine, hset, Bool.true_or]
    rw [nearLoop]
    simp only
    split
    · exact ih _ hnext
    · generalize (if (getKeyLine w s tm.1).1 = true then retTupleSet else retTupleSet ++ [getCost dist s tm.1]) = ret
      split
      · exact hnext
      · exact ih ret hnext

private theorem allLoop_setKeyLine (schema : Schema) (retTupleSet : List Tuple) (tuples : List (Tuple × Moment)) :
    (allLoop w schema s retTupleSet tuples).1.setKeyLine = (s.setKeyLine || tuples.any fun tm => isKey w tm.1) := by
  induction tuples generalizing s retTupleSet with
  | nil => rw [List.any_nil, Bool.or_false, allLoop]
  | cons tm rest ih =>
    rw [allLoop, ih, isDuplicate_setKeyLine, getKeyLine_setKeyLine, List.any_cons, Bool.or_assoc]

/-- The window knows whether the key object has been seen. -/
theorem proc_by_cost_sort_setKeyLine (sort : CostSort D) {k : Sighting} (batch : Batch)
    (hseen : s.setKeyLine = k.seen) :
    (proc_by_cost_sort dist sort w s batch).1.setKeyLine = (k.update w batch).seen := by
  by_cases hnum : 0 < w.num
  · by_cases hset : s.setKeyLine = true
    · rw [proc_by_cost_sort, if_pos hnum, if_pos hset]
      simp only [Sighting.update]
      rw [nearLoop_setKeyLine batch.schema [] batch.tuples hset, ← hseen, hset, Bool.true_or]
    · rw [proc_by_cost_sort, if_pos hnum, if_neg hset]
      simp only [Sighting.update]
      rw [allLoop_setKeyLine, hseen]
  · have hnone : batch.tuples.take w.num.toNat = [] := by rw [show w.num.toNat = 0 by omega, List.take_zero]
    rw [proc_by_cost_sort, if_neg hnum, Sighting.update, hnone, List.any_nil, Bool.or_false, hseen]

/-- A window without rows never sees the key object. -/
theorem num_pos_of_seen {k : Sighting} {batch : Batch} (h : (k.update w batch).seen = true) :
    k.seen = true ∨ 0 < w.num := by
  rcases Int.lt_or_le 0 w.num with hnum | hnum
  · exact .inr hnum
  · refine .inl ?_
    rw [Sighting.update, show w.num.toNat = 0 by omega, List.take_zero, List.any_nil, Bool.or_false] at h
    exact h

/-- In every run in which the position of the key object is known in time, the nearest objects
are handed on. -/
theorem delivers_of_known {k : Sighting} (sort : CostSort D) (batches : List Batch) (hseen : s.setKeyLine = k.seen)
    (hnum : k.seen = true → 0 < w.num) (h : Punctual dist sort w s k batches) :
    Delivers dist sort w s k batches := by
  induction batches generalizing s k with
  | nil => trivial
  | cons batch batches ih =>
    obtain ⟨hbatch, hrest⟩ := h
    refine ⟨fun hk => smallest_of_punctual sort (hnum hk) (hseen.trans hk) (hbatch hk), ?_⟩
    refine ih (proc_by_cost_sort_setKeyLine sort batch hseen) (fun hk => ?_) hrest
    rcases num_pos_of_seen hk with hbefore | hpositive
    · exact hnum hbefore
    · exact hpositive

/-- Once the key object has been seen each batch gives the nearest to its latest position, in
every run in which that position is known when the candidates are looked at. -/
theorem delivers_of_punctual (dist : Position → Position → D) (sort : CostSort D) (w : Window) (batches : List Batch)
    (h : Punctual dist sort w {} {} batches) : Delivers dist sort w {} {} batches :=
  delivers_of_known sort batches rfl nofun h

/-- An insertion sort by cost. -/
def insertionSort (D : Type) [LinearOrder D] : CostSort D where
  sort l := l.insertionSort fun t u => t.2 ≤ u.2
  perm l := List.perm_insertionSort _ l
  sorted l := by
    have : Std.Total fun t u : Tuple × D => t.2 ≤ u.2 := ⟨fun t u => le_total _ _⟩
    have : IsTrans (Tuple × D) fun t u => t.2 ≤ u.2 := ⟨fun t u v => le_trans⟩
    exact List.pairwise_insertionSort _ l

/-- A tuple of an object at a height above the zero point. -/
def objectAt (id z : Int32) : Tuple × Moment :=
  ({ columns := { value := .scalar .int id } :: List.replicate 22 {} ++ [{ value := .scalar .int z }] }, {})

/-- A window of ten rows that hands on the object nearest to the object 1. -/
def nearestWindow : Window where
  streamName := "object_info_0_8_1".toList
  num := 10
  allowDuplicateData := true
  limit := 1
  costId := "1".toList

/-- The key object is seen at the height 0; then the objects 2 and 3 come before it and it is at 100. -/
def moved : List Batch :=
  [{ tuples := [objectAt 1 0] }, { tuples := [objectAt 2 10, objectAt 3 90, objectAt 1 100] }]

/-- The object near the old position is handed on instead of the one near the new. -/
theorem moved_not_delivers : ¬ Delivers (fun p q : Position => (p.z - q.z).natAbs) (insertionSort Nat) nearestWindow
    {} {} moved := by
  intro h
  obtain ⟨rest, hperm, hle⟩ := (h.2.1 rfl).cheapest
  change ([(objectAt 2 10).1] ++ rest).Perm [(objectAt 2 10).1, (objectAt 3 90).1] at hperm
  rw [List.singleton_append, List.perm_cons, List.perm_singleton] at hperm
  have hnear := hle (objectAt 2 10).1 List.mem_cons_self (objectAt 3 90).1 (hperm ▸ List.mem_cons_self)
  exact absurd hnear (by decide)

/-- The same objects behind the key object. -/
theorem delivers_of_punctual_keyFirst : Delivers (fun p q : Position => (p.z - q.z).natAbs) (insertionSort Nat)
    nearestWindow {} {}
    [{ tuples := [objectAt 1 0] }, { tuples := [objectAt 1 100, objectAt 2 10, objectAt 3 90] }] :=
  delivers_of_punctual _ _ _ _ ⟨nofun, fun _ => .inr (by decide), trivial⟩

end CostWindow

end IS

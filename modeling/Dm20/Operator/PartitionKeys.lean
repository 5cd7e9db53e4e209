import Dm20.Operator.PartitionWindow
import Dm20.TupleLib.Kind

namespace IS

open Texts

/-- The rows of each partition that arrived last, newest arrival first. -/
def Queue.getTupleSetPartition (q : Queue) (rowsPerPartition : Int) (partitionList : List Int)
    (tupleset : TupleSet) : TupleSet :=
  let addTuple := fun (st : List (Str × Int) × List Tuple) (t : Tuple) =>
    let keyGroup := partitionList.flatMap fun colIdx =>
      let key := if 0 ≤ colIdx then (t.getValueByIdx colIdx.toNat).getD .void else .void
      getAnyString key ++ "|".toList
    let count := (st.1.lookup keyGroup).getD 0
    if count < rowsPerPartition then (AssocList.set st.1 keyGroup (count + 1), st.2 ++ [t]) else st
  { tupleset.SetSchema q.schema with tuples := (q.queue.reverse.foldl addTuple ([], [])).2 }

namespace Partition

/-- What values a column can have: those of a kind, and where it is nullable
also none. -/
structure ColumnType where
  kind : Any.Kind
  nullable : Bool
deriving DecidableEq

def ColumnType.Holds (c : ColumnType) (v : Any) : Prop :=
  v.kind = c.kind ∨ (c.nullable = true ∧ v = .void)

def HasColumns (columns : List ColumnType) (t : Tuple) : Prop :=
  List.Forall₂ (fun c (column : Column) => c.Holds column.value) columns t.columns

/-- The value of a partition column; a column that the tuple does not have has none. -/
def valueAt (t : Tuple) (colIdx : Int) : Any :=
  if 0 ≤ colIdx then (t.getValueByIdx colIdx.toNat).getD .void else .void

def columnAt (columns : List ColumnType) (colIdx : Int) : Option ColumnType :=
  if 0 ≤ colIdx then columns[colIdx.toNat]? else none

def SameValues (partitionList : List Int) (t u : Tuple) : Prop :=
  ∀ colIdx ∈ partitionList, valueAt t colIdx = valueAt u colIdx

/-- Tuples are in one partition, of a window and of the retrieval from a queue,
just where their values of all partition columns are equal. -/
structure Separates (partitionList : List Int) (columns : List ColumnType) : Prop where
  window : ∀ w : WindowOperator, w.partitionList = partitionList → ∀ t u, HasColumns columns t → HasColumns columns u →
    (w.makePartitionKey t = w.makePartitionKey u ↔ SameValues partitionList t u)
  queue : ∀ (q : Queue) (rowsPerPartition : Int) (tupleset : TupleSet), (∀ t ∈ q.queue, HasColumns columns t) →
    (q.getTupleSetPartition rowsPerPartition partitionList tupleset).tuples =
      Latest.firstOfEach (SameValues partitionList) rowsPerPartition [] q.queue.reverse

/-- Each partition column has values with texts of their own, no string column
can be without a value, and there is at most one string column. -/
structure Separable (partitionList : List Int) (columns : List ColumnType) : Prop where
  faithful : ∀ i ∈ partitionList, ∀ c, columnAt columns i = some c → c.kind.Faithful
  not_nullable : ∀ i ∈ partitionList, ∀ c, columnAt columns i = some c → c.kind.isText = true → c.nullable = false
  one_text : ∀ i ∈ partitionList, ∀ j ∈ partitionList, ∀ c d, columnAt columns i = some c →
    columnAt columns j = some d →
    c.kind.isText = true → d.kind.isText = true → i = j

private theorem makePartitionKey_eq (w : WindowOperator) (t : Tuple) :
    w.makePartitionKey t = w.partitionList.flatMap fun i => getAnyString (valueAt t i) ++ ['|'] := rfl

/-- Of its columns a tuple has the values; all others are empty. -/
theorem valueAt_spec {columns : List ColumnType} {t : Tuple} (h : HasColumns columns t) (i : Int) :
    (∃ c, columnAt columns i = some c ∧ c.Holds (valueAt t i)) ∨ (columnAt columns i = none ∧ valueAt t i = .void) := by
  by_cases hi : 0 ≤ i
  · rw [valueAt, columnAt, if_pos hi, if_pos hi, Tuple.getValueByIdx]
    by_cases hlt : i.toNat < columns.length
    · have hlt' : i.toNat < t.columns.length := h.length_eq ▸ hlt
      refine .inl ⟨columns[i.toNat], List.getElem?_eq_getElem hlt, ?_⟩
      rw [List.getElem?_eq_getElem hlt']
      exact List.Forall₂.get h hlt hlt'
    · have hge : t.columns.length ≤ i.toNat := h.length_eq ▸ Nat.le_of_not_lt hlt
      exact .inr ⟨List.getElem?_eq_none (Nat.le_of_not_lt hlt), by rw [List.getElem?_eq_none hge]; rfl⟩
  · exact .inr ⟨if_neg hi, if_neg hi⟩

/-- The values of a column that are printed alike are the same. -/
theorem ColumnType.Holds.eq {c : ColumnType} {v w : Any} (hv : c.Holds v) (hw : c.Holds w) (hfaithful : c.kind.Faithful)
    (hnull : c.kind.isText = true → c.nullable = false) (heq : getAnyString v = getAnyString w) : v = w := by
  have hvoid : ∀ x : Any, x.kind = c.kind → c.nullable = true → getAnyString x = getAnyString .void → x = .void := by
    intro x hx hnullable hnone
    by_contra hne
    have htext : c.kind.isText = false := Bool.eq_false_iff.mpr fun htext => by simp [hnull htext] at hnullable
    exact getAnyString_ne_null (hx ▸ hfaithful) (hx ▸ htext) hne hnone
  rcases hv with hv | ⟨hnullable, rfl⟩
  · rcases hw with hw | ⟨hnullable, rfl⟩
    · exact eq_of_getAnyString_eq (hv.trans hw.symm) (hv ▸ hfaithful) heq
    · exact hvoid v hv hnullable heq
  · rcases hw with hw | ⟨-, rfl⟩
    · exact (hvoid w hw hnullable heq.symm).symm
    · rfl

/-- The text of a faithful value other than a text has no `|` in it, so the keys are cut at the
right places. -/
theorem ColumnType.Holds.not_mem {c : ColumnType} {v : Any} (hv : c.Holds v) (hfaithful : c.kind.Faithful)
    (htext : c.kind.isText = false) : '|' ∉ getAnyString v := by
  rcases hv with hv | ⟨-, rfl⟩
  · exact not_mem_getAnyString (hv ▸ hfaithful) (hv ▸ htext)
  · exact not_mem_getAnyString trivial rfl

/-- Keys are equal just where the values are. -/
theorem key_eq_iff {partitionList : List Int} {columns : List ColumnType} (h : Separable partitionList columns)
    {t u : Tuple} (ht : HasColumns columns t) (hu : HasColumns columns u) :
    (partitionList.flatMap (fun i => getAnyString (valueAt t i) ++ ['|']) =
      partitionList.flatMap fun i => getAnyString (valueAt u i) ++ ['|']) ↔ SameValues partitionList t u := by
  have htext : ∀ i ∈ partitionList, ∀ t, HasColumns columns t → '|' ∈ getAnyString (valueAt t i) →
      ∃ c, columnAt columns i = some c ∧ c.kind.isText = true := by
    intro i hi t ht hbar
    rcases valueAt_spec ht i with ⟨c, hc, hholds⟩ | ⟨-, hvoid⟩
    · refine ⟨c, hc, ?_⟩
      by_contra hplain
      exact hholds.not_mem (h.faithful i hi c hc) (Bool.eq_false_iff.mpr hplain) hbar
    · rw [hvoid] at hbar
      exact absurd hbar (not_mem_getAnyString trivial rfl)
  constructor
  · intro heq i hi
    have hsame := eq_of_key_eq_of_one (f := fun i => getAnyString (valueAt t i))
      (g := fun i => getAnyString (valueAt u i)) (fun i hi j hj hbar hbar' => by
        have hci : ∃ c, columnAt columns i = some c ∧ c.kind.isText = true :=
          hbar.elim (htext i hi t ht) (htext i hi u hu)
        have hcj : ∃ c, columnAt columns j = some c ∧ c.kind.isText = true :=
          hbar'.elim (htext j hj t ht) (htext j hj u hu)
        obtain ⟨c, hc, hctext⟩ := hci
        obtain ⟨d, hd, hdtext⟩ := hcj
        exact h.one_text i hi j hj c d hc hd hctext hdtext) heq i hi
    rcases valueAt_spec ht i with ⟨c, hc, hholds⟩ | ⟨hnone, hvoid⟩
    · rcases valueAt_spec hu i with ⟨c', hc', hholds'⟩ | ⟨hnone', -⟩
      · obtain rfl : c = c' := Option.some.inj (hc.symm.trans hc')
        exact hholds.eq hholds' (h.faithful i hi c hc) (h.not_nullable i hi c hc) hsame
      · cases hc.symm.trans hnone'
    · rcases valueAt_spec hu i with ⟨c', hc', -⟩ | ⟨-, hvoid'⟩
      · cases hnone.symm.trans hc'
      · rw [hvoid, hvoid']
  · intro hsame
    have hmap : ∀ i ∈ partitionList, getAnyString (valueAt t i) ++ ['|'] = getAnyString (valueAt u i) ++ ['|'] :=
      fun i hi => by rw [hsame i hi]
    exact List.flatMap_congr hmap

section Retrieval

variable {key : Tuple → Str} {rows : Int}

/-- A step of the retrieval. -/
def addTuple (key : Tuple → Str) (rows : Int) (st : List (Str × Int) × List Tuple) (t : Tuple) :
    List (Str × Int) × List Tuple :=
  let count := (st.1.lookup (key t)).getD 0
  if count < rows then (AssocList.set st.1 (key t) (count + 1), st.2 ++ [t]) else st

/-- The counts of the keys seen, as far as they go. -/
def Counts (key : Tuple → Str) (rows : Int) (seen : List Tuple) (countMap : List (Str × Int)) : Prop :=
  ∀ k, (countMap.lookup k).getD 0 = min (seen.countP fun t => decide (key t = k) : Int) (max rows 0)

/-- A tuple adds one to the rows of its partition, up to the rows of the window. -/
theorem Counts.addTuple {seen : List Tuple} {st : List (Str × Int) × List Tuple} (h : Counts key rows seen st.1)
    (t : Tuple) : Counts key rows (seen ++ [t]) (Partition.addTuple key rows st t).1 := by
  intro k
  have hk := h k
  have hkey := h (key t)
  rw [List.countP_append, List.countP_singleton]
  by_cases heq : key t = k
  · subst heq
    simp only [Partition.addTuple]
    split
    · simp only [AssocList.lookup_set, if_true, Option.getD_some, decide_true]
      omega
    · simp only [decide_true, if_true]
      omega
  · have hne : ¬ k = key t := fun h => heq h.symm
    simp only [Partition.addTuple]
    split
    · simp only [AssocList.lookup_set, hne, heq, if_false, decide_false]
      simpa using hk
    · simpa [heq] using hk

/-- Of the tuples, those are added that are among the first of their partition, up to the rows
and counted with those seen before. -/
private theorem foldl_addTuple {seen l : List Tuple} {st : List (Str × Int) × List Tuple}
    (h : Counts key rows seen st.1) :
    (l.foldl (addTuple key rows) st).2 = st.2 ++ Latest.firstOfEach (fun t u => key t = key u) rows seen l := by
  classical
  induction l generalizing seen st with
  | nil => simp [Latest.firstOfEach]
  | cons t l ih =>
    rw [List.foldl_cons, ih (h.addTuple t), Latest.firstOfEach]
    have hcount := h (key t)
    have hiff : (st.1.lookup (key t)).getD 0 < rows ↔
        (seen.countP fun b => decide (key b = key t) : Int) < rows := by omega
    by_cases hlt : (st.1.lookup (key t)).getD 0 < rows
    · rw [if_pos (by convert hiff.mp hlt)]
      simp [addTuple, hlt]
    · rw [if_neg (by convert hiff.not.mp hlt)]
      simp [addTuple, hlt]

end Retrieval

private theorem getTupleSetPartition_tuples (q : Queue) (rows : Int) (partitionList : List Int) (ts : TupleSet) :
    (q.getTupleSetPartition rows partitionList ts).tuples =
      Latest.firstOfEach (fun t u => partitionList.flatMap (fun i => getAnyString (valueAt t i) ++ ['|']) =
        partitionList.flatMap fun i => getAnyString (valueAt u i) ++ ['|']) rows [] q.queue.reverse := by
  have hcounts : Counts (fun t => partitionList.flatMap fun i => getAnyString (valueAt t i) ++ ['|']) rows [] [] := by
    intro k
    simp
  exact foldl_addTuple hcounts

/-- Columns whose texts tell their values apart give different keys to different partitions. -/
theorem Separable.separates {partitionList : List Int} {columns : List ColumnType}
    (h : Separable partitionList columns) : Separates partitionList columns where
  window w hw t u ht hu := by
    rw [makePartitionKey_eq, makePartitionKey_eq, hw]
    exact key_eq_iff h ht hu
  queue q rows ts hq := by
    rw [getTupleSetPartition_tuples]
    refine Latest.firstOfEach_congr fun t ht u hu => ?_
    rw [List.nil_append, List.mem_reverse] at ht hu
    exact key_eq_iff h (hq t ht) (hq u hu)

section Collisions

/-- A value of each kind. -/
def defaultOf : Any.Kind → Any
  | .void => .void
  | .constCharPtr => .constCharPtr []
  | .bytes => .bytes []
  | .scalar .double => .scalar .double default
  | .scalar .int => .scalar .int 0
  | .scalar .long => .scalar .long 0
  | .scalar .uint => .scalar .uint 0
  | .scalar .ulonglong => .scalar .ulonglong 0
  | .scalar .uint64 => .scalar .uint64 0
  | .scalar .string => .scalar .string []
  | .scalar .bool => .scalar .bool false
  | .vector ty => .vector ty []
  | .vectorVector ty => .vectorVector ty []
  | .vectorAny => .vectorAny []
  | .vectorVectorAny => .vectorVectorAny []

variable {partitionList : List Int} {columns : List ColumnType}

/-- The tuple with the given values of the columns. -/
def tupleOf (columns : List ColumnType) (value : Nat → Any) : Tuple where
  columns := columns.zipIdx.map fun ci => { value := value ci.2 }

def defaults (columns : List ColumnType) (k : Nat) : Any :=
  (columns[k]?.map fun c => defaultOf c.kind).getD .void

/-- Each column can have the value. -/
def Fits (columns : List ColumnType) (value : Nat → Any) : Prop :=
  ∀ (k : Nat) (c : ColumnType), columns[k]? = some c → c.Holds (value k)

/-- Values that fit the columns make up a tuple of these columns. -/
theorem Fits.hasColumns {value : Nat → Any} (h : Fits columns value) : HasColumns columns (tupleOf columns value) := by
  refine List.forall₂_iff_get.mpr ⟨by simp [tupleOf], fun k hk hk' => ?_⟩
  simpa [tupleOf] using h k columns[k] (List.getElem?_eq_getElem hk)

private theorem valueAt_tupleOf (value : Nat → Any) (i : Int) :
    valueAt (tupleOf columns value) i = if (columnAt columns i).isSome = true then value i.toNat else .void := by
  by_cases hi : 0 ≤ i
  · rw [valueAt, columnAt, if_pos hi, if_pos hi, Tuple.getValueByIdx, tupleOf]
    by_cases hlt : i.toNat < columns.length
    · simp [List.getElem?_eq_getElem hlt]
    · simp [List.getElem?_eq_none (Nat.le_of_not_lt hlt)]
  · rw [valueAt, columnAt, if_neg hi, if_neg hi]
    rfl

private theorem kind_defaultOf (k : Any.Kind) : (defaultOf k).kind = k := by
  cases k with
  | scalar ty => cases ty <;> rfl
  | _ => rfl

private theorem fits_defaults (columns : List ColumnType) : Fits columns (defaults columns) := by
  intro k c hc
  rw [defaults, hc]
  exact .inl (kind_defaultOf c.kind)

/-- One value may be replaced by another of the same column. -/
theorem Fits.update {value : Nat → Any} (h : Fits columns value) {j : Nat} {c : ColumnType} {v : Any}
    (hc : columns[j]? = some c) (hv : c.Holds v) : Fits columns (Function.update value j v) := by
  intro k d hd
  by_cases hk : k = j
  · subst hk
    obtain rfl : c = d := Option.some.inj (hc.symm.trans hd)
    rw [Function.update_self]
    exact hv
  · rw [Function.update_of_ne hk]
    exact h k d hd

private theorem columnAt_eq_some {i : Int} {c : ColumnType} (h : columnAt columns i = some c) :
    0 ≤ i ∧ columns[i.toNat]? = some c := by
  unfold columnAt at h
  split at h
  · next hi => exact ⟨hi, h⟩
  · cases h

/-- A window with the given partition columns. -/
def windowOf (partitionList : List Int) : WindowOperator :=
  { streamName := [], partitionList }

/-- Two values of a partition column with one text are not kept apart. -/
theorem not_separates_of_text_eq {i : Int} (hi : i ∈ partitionList) {c : ColumnType} (hc : columnAt columns i = some c)
    {v w : Any} (hv : c.Holds v) (hw : c.Holds w) (hne : v ≠ w) (htext : getAnyString v = getAnyString w) :
    ¬ Separates partitionList columns := by
  intro h
  obtain ⟨hpos, hcolumn⟩ := columnAt_eq_some hc
  have hholds : ∀ x, c.Holds x → HasColumns columns (tupleOf columns (Function.update (defaults columns) i.toNat x)) :=
    fun x hx => ((fits_defaults columns).update hcolumn hx).hasColumns
  have hiff := h.window (windowOf partitionList) rfl _ _ (hholds v hv) (hholds w hw)
  have hkeys : (windowOf partitionList).makePartitionKey (tupleOf columns (Function.update (defaults columns) i.toNat v)) =
      (windowOf partitionList).makePartitionKey (tupleOf columns (Function.update (defaults columns) i.toNat w)) := by
    rw [makePartitionKey_eq, makePartitionKey_eq]
    refine List.flatMap_congr fun j _ => ?_
    rw [valueAt_tupleOf, valueAt_tupleOf]
    by_cases hj : j.toNat = i.toNat
    · rw [hj, Function.update_self, Function.update_self]
      split
      · rw [htext]
      · rfl
    · rw [Function.update_of_ne hj, Function.update_of_ne hj]
  have hsame := hiff.mp hkeys i hi
  rw [valueAt_tupleOf, valueAt_tupleOf, hc, Function.update_self, Function.update_self] at hsame
  exact hne hsame

/-- The value of a string column. -/
def textOf (k : Any.Kind) (s : Str) : Any :=
  if k = .constCharPtr then .constCharPtr s else .scalar .string s

private theorem holds_textOf {c : ColumnType} (h : c.kind.isText = true) (s : Str) : c.Holds (textOf c.kind s) := by
  refine .inl ?_
  rw [textOf]
  split
  · next hk => exact hk.symm
  · next hk =>
    rcases Bool.or_eq_true_iff.mp h with hk' | hk'
    · exact absurd (of_decide_eq_true hk') hk
    · exact (of_decide_eq_true hk').symm

@[simp] theorem getAnyString_textOf (k : Any.Kind) (s : Str) : getAnyString (textOf k s) = s := by
  rw [textOf]
  split <;> rfl

/-- Two string columns with others between them: the text between two bars can
stand in the first or in the second. -/
theorem not_separates_of_two_texts {before between after : List Int} {i j : Int} {c d : ColumnType}
    (hne : i ≠ j) (hi : i ∉ before ++ (between ++ after)) (hj : j ∉ before ++ (between ++ after))
    (hc : columnAt columns i = some c) (hd : columnAt columns j = some d)
    (hctext : c.kind.isText = true) (hdtext : d.kind.isText = true) :
    ¬ Separates (before ++ i :: (between ++ j :: after)) columns := by
  intro h
  obtain ⟨hipos, hci⟩ := columnAt_eq_some hc
  obtain ⟨hjpos, hdj⟩ := columnAt_eq_some hd
  have hne' : i.toNat ≠ j.toNat := by omega
  have hothers : ∀ k ∈ before ++ (between ++ after), k ≠ i ∧ k ≠ j := fun k hk =>
    ⟨fun heq => hi (heq ▸ hk), fun heq => hj (heq ▸ hk)⟩
  let tuple : Str → Str → Tuple := fun x y => tupleOf columns
    (Function.update (Function.update (defaults columns) i.toNat (textOf c.kind x)) j.toNat (textOf d.kind y))
  have hfits : ∀ x y, HasColumns columns (tuple x y) := fun x y =>
    (((fits_defaults columns).update hci (holds_textOf hctext x)).update hdj (holds_textOf hdtext y)).hasColumns
  have hvaluei : ∀ x y, valueAt (tuple x y) i = textOf c.kind x := fun x y => by
    rw [valueAt_tupleOf, hc, Function.update_of_ne hne', Function.update_self]
    rfl
  have hvaluej : ∀ x y, valueAt (tuple x y) j = textOf d.kind y := fun x y => by
    rw [valueAt_tupleOf, hd, Function.update_self]
    rfl
  -- The key of the other columns does not depend on the two texts.
  let key : List Int → Str := fun l =>
    l.flatMap fun k => getAnyString (valueAt (tupleOf columns (defaults columns)) k) ++ ['|']
  have hkey : ∀ x y (l : List Int), l ⊆ before ++ (between ++ after) →
      (l.flatMap fun k => getAnyString (valueAt (tuple x y) k) ++ ['|']) = key l := by
    intro x y l hl
    refine List.flatMap_congr fun k hk => ?_
    obtain ⟨hki, hkj⟩ := hothers k (hl hk)
    rw [valueAt_tupleOf, valueAt_tupleOf]
    split
    · next hsome =>
      obtain ⟨e, he⟩ := Option.isSome_iff_exists.mp hsome
      obtain ⟨hk, -⟩ := columnAt_eq_some he
      have hki' : k.toNat ≠ i.toNat := by omega
      have hkj' : k.toNat ≠ j.toNat := by omega
      rw [Function.update_of_ne hkj', Function.update_of_ne hki']
    · rfl
  have hpartition : ∀ x y, (windowOf (before ++ i :: (between ++ j :: after))).makePartitionKey (tuple x y) =
      key before ++ (x ++ ['|'] ++ key between ++ y ++ ['|']) ++ key after := by
    intro x y
    rw [makePartitionKey_eq, windowOf, List.flatMap_append, List.flatMap_cons, List.flatMap_append, List.flatMap_cons,
      hkey x y before (by simp), hkey x y between (by simp), hkey x y after (by simp), hvaluei, hvaluej,
      getAnyString_textOf, getAnyString_textOf]
    simp only [List.append_assoc]
  have hsame := (h.window (windowOf _) rfl _ _ (hfits ['1'] ("1|".toList ++ key between ++ ['1']))
    (hfits ("1|".toList ++ key between ++ ['1']) ['1'])).mp (by
      rw [hpartition, hpartition]
      simp) i (by simp)
  have htext := congrArg (fun v => (getAnyString v).length) hsame
  rw [hvaluei, hvaluei] at htext
  simp at htext

/-- Keys that separate need faithful texts for each column of the partition. -/
theorem Separates.faithful (h : Separates partitionList columns) {i : Int} (hi : i ∈ partitionList) {c : ColumnType}
    (hc : columnAt columns i = some c) : c.kind.Faithful := by
  by_contra hfaithful
  obtain ⟨v, w, hv, hw, hne, htext⟩ := exists_getAnyString_eq hfaithful
  exact not_separates_of_text_eq hi hc (.inl hv) (.inl hw) hne htext h

/-- Keys that separate have no nullable text column: a missing value has the text of an empty
one. -/
theorem Separates.not_nullable (h : Separates partitionList columns) {i : Int} (hi : i ∈ partitionList) {c : ColumnType}
    (hc : columnAt columns i = some c) (htext : c.kind.isText = true) : c.nullable = false := by
  refine Bool.eq_false_iff.mpr fun hnullable => ?_
  refine not_separates_of_text_eq hi hc (holds_textOf htext "(null)".toList) (.inr ⟨hnullable, rfl⟩) ?_
    (getAnyString_textOf _ _) h
  rw [textOf]
  split <;> simp

/-- What is named once and stands at the given places stands at no other. -/
theorem not_mem_of_count {before between after : List Int} {i j : Int} (hne : i ≠ j)
    (hi : (before ++ j :: (between ++ i :: after)).count i ≤ 1)
    (hj : (before ++ j :: (between ++ i :: after)).count j ≤ 1) :
    i ∉ before ++ (between ++ after) ∧ j ∉ before ++ (between ++ after) := by
  simp only [List.count_append, List.count_cons_self, List.count_cons_of_ne hne,
    List.count_cons_of_ne (Ne.symm hne)] at hi hj
  simp only [← List.count_eq_zero, List.count_append]
  omega

/-- No string column is named twice. -/
def TextsOnce (partitionList : List Int) (columns : List ColumnType) : Prop :=
  ∀ i c, columnAt columns i = some c → c.kind.isText = true → partitionList.count i ≤ 1

/-- Keys that separate have one text column at most, since a `|` in a first one may stand for
the mark between two. -/
theorem Separates.one_text (h : Separates partitionList columns) (honce : TextsOnce partitionList columns) {i j : Int}
    (hi : i ∈ partitionList) (hj : j ∈ partitionList) {c d : ColumnType} (hc : columnAt columns i = some c)
    (hd : columnAt columns j = some d) (hctext : c.kind.isText = true) (hdtext : d.kind.isText = true) : i = j := by
  by_contra hne
  obtain ⟨before, after, rfl⟩ := List.append_of_mem hi
  rcases List.mem_append.mp hj with hj | hj
  · obtain ⟨before, between, rfl⟩ := List.append_of_mem hj
    rw [List.append_assoc, List.cons_append] at h honce
    obtain ⟨hi, hj⟩ := not_mem_of_count hne (honce i c hc hctext) (honce j d hd hdtext)
    exact not_separates_of_two_texts (Ne.symm hne) hj hi hd hc hdtext hctext h
  · obtain ⟨between, after, rfl⟩ := List.append_of_mem ((List.mem_cons.mp hj).resolve_left fun heq => hne heq.symm)
    obtain ⟨hj, hi⟩ := not_mem_of_count (Ne.symm hne) (honce j d hd hdtext) (honce i c hc hctext)
    exact not_separates_of_two_texts hne hi hj hc hd hctext hdtext h

end Collisions

/-- Distinct values of the partition columns mean distinct partitions, if each
column has values with texts of their own and at most one of them has strings;
if no string column is named twice, only then. -/
theorem separates_of_separable (partitionList : List Int) (columns : List ColumnType) :
    (Separable partitionList columns → Separates partitionList columns) ∧
      (TextsOnce partitionList columns → Separates partitionList columns → Separable partitionList columns) :=
  ⟨Separable.separates, fun honce h =>
    { faithful := fun _ hi _ hc => h.faithful hi hc
      not_nullable := fun _ hi _ hc htext => h.not_nullable hi hc htext
      one_text := fun _ hi _ hj _ _ hc hd hctext hdtext => h.one_text honce hi hj hc hd hctext hdtext }⟩

/-- Two string columns: `a|b` and `c` are taken for `a` and `b|c`. -/
theorem bar_not_separated :
    ∃ (w : WindowOperator) (t u : Tuple), w.makePartitionKey t = w.makePartitionKey u ∧
      ¬ SameValues w.partitionList t u := by
  refine ⟨{ streamName := "window".toList, partitionList := [0, 1] },
    { columns := [{ value := .scalar .string "a|b".toList }, { value := .scalar .string "c".toList }] },
    { columns := [{ value := .scalar .string "a".toList }, { value := .scalar .string "b|c".toList }] }, rfl, ?_⟩
  intro h
  have hvalue := h 0 (by simp)
  have htext := congrArg (fun v => (getAnyString v).length) hvalue
  exact absurd htext (by decide)

end Partition

end IS

import Dm20.Operator.Eval
import Dm20.TupleLib.SchemaNames
import Dm20.Lib.Run

open Carry

namespace IS

open StringUtil
open Schema (TypeChecked isOk_foldlM_append_iff)

/-- Tuples with a column for each attribute, of a schema whose index is in its range. -/
structure FoundSet extends TupleSet where
  aligned : ∀ t ∈ tuples, t.columns.length = schema.attributes.length
  index : ∀ name i, schema.colNameIdxMap.lookup name = some i → 0 ≤ i ∧ i < schema.attributes.length
  nonempty : schema.attributes ≠ []

/-- A function of a user that gives one row of results for each row of arguments. -/
structure UserFunction where
  eval : List (List Str) → List (List Str)
  rows : ∀ argList, (eval argList).length = argList.length

namespace EvalOperator

/-- The place of an argument in a schema. -/
def placeOf (schema : Schema) (arg : Str) : Int :=
  match place schema arg with
  | .ok index => index
  | .error _ => OTHER

def places (schema : Schema) (args : List Str) : List Int :=
  args.map (placeOf schema)

/-- The arguments of a tuple. -/
def rowArguments (schema : Schema) (args : List Str) (t : Tuple) : List Str :=
  List.zipWith (argument t) args (places schema args)

/-- The newest timestamp of the arguments of a tuple that are columns. -/
def newestArgument (schema : Schema) (args : List Str) (t : Tuple) : Option Int :=
  ((places schema args).filterMap (timestampAt t)).max?

/-- The values of the results of a tuple. -/
def read (retsType : List Str) (results : List Str) : List Any :=
  List.zipWith getAnyValFromString results retsType

/-- The results of the tuples. -/
def resultRows (self : EvalOperator) (f : UserFunction) (ts : TupleSet) : List (List Str) :=
  f.eval (ts.tuples.map (rowArguments ts.schema self.args))

/-- A tuple with its results behind it, as new as its newest argument. -/
def ResultRow (self : EvalOperator) (schema : Schema) (t : Tuple) (results : List Str) (t' : Tuple) : Prop :=
  ∃ columns, t'.columns = t.columns ++ columns ∧ columns.length = results.length ∧
    columns.map Column.value = read self.retsType results ∧
    ∀ c ∈ columns, ∀ newest ∈ newestArgument schema self.args t, c.timestamp = newest

/-- The function is handed the arguments of each tuple, its results are behind the tuple they are
for, and there is an attribute for each column. -/
structure Delivered (ope : EvalOperator) (f : UserFunction) (now : Int) (ts : TupleSet) (ope' : EvalOperator)
    (ts' : TupleSet) : Prop where
  arguments : (ope'.createArgList now ts.tuples).2 = ts.tuples.map (rowArguments ts.schema ope.args)
  rows : List.Forall₂ (fun row t' => ope.ResultRow ts.schema row.1 row.2 t') (ts.tuples.zip (ope.resultRows f ts))
    ts'.tuples
  width : ∀ t' ∈ ts'.tuples, t'.columns.length = ts'.schema.attributes.length

def KeepsRows (self : EvalOperator) (f : UserFunction) (now : Int) (ts : TupleSet) : Prop :=
  ∃ self' ts', self.process (fun argList => some (f.eval argList)) now ts = .ok (self', ts', true) ∧
    self.Delivered f now ts self' ts'

/-- The places found for earlier tuples are used for these ones. -/
def Remembers (self : EvalOperator) (schema : Schema) : Prop :=
  self.argProcList ≠ [] ∧ self.previousAttributeNum = schema.getAttributeSize

instance (self : EvalOperator) (schema : Schema) : Decidable (self.Remembers schema) :=
  inferInstanceAs (Decidable (_ ∧ _))

/-- The places that are used. -/
def usedPlaces (self : EvalOperator) (schema : Schema) : List Int :=
  if self.Remembers schema then self.argProcList else places schema self.args

/-- The newest timestamp of the last tuple's arguments, if it is positive. -/
def lastTime (now : Int) (tuples : List Tuple) (places : List Int) : Int :=
  match tuples.getLast? with
  | none => 0
  | some t =>
    let newest := (places.filterMap (timestampAt t)).max?.getD 0
    if 0 < newest then newest else now

/-- What a call relies on: the places that are used lead to the arguments, there is a result for
each of the types, no text that is not read stands behind one that is, and the newest argument of
each tuple is as new as that of the last one. -/
structure Meets (ope : EvalOperator) (f : UserFunction) (now : Int) (ts : TupleSet) : Prop where
  types : ope.Remembers ts.schema ∨ ∀ attr ∈ ope.results, TypeChecked attr
  arguments : ∀ t ∈ ts.tuples,
    List.zipWith (argument t) ope.args (ope.usedPlaces ts.schema) = rowArguments ts.schema ope.args t
  results : ∀ results ∈ ope.resultRows f ts, results.length = ope.retsType.length ∧ 0 < ope.retsType.length
  readable : ((ope.resultRows f ts).flatMap (read ope.retsType)).Pairwise fun x y => isVoid y = true → isVoid x = true
  newest : ∀ t ∈ ts.tuples, ∀ newest ∈ newestArgument ts.schema ope.args t,
    newest = lastTime now ts.tuples (ope.usedPlaces ts.schema)

/-- What an operator remembers of earlier tuples: an attribute for each of their columns and each
result, and places of arguments among these columns. -/
structure Ready (ope : EvalOperator) : Prop where
  width : ope.argProcList ≠ [] → ope.outputSchema.attributes.length = ope.previousAttributeNum + ope.results.length
  retsName : ope.argProcList ≠ [] → ope.retsName.length = ope.results.length
  size : ope.argProcList ≠ [] → ope.argProcList.length = ope.args.length
  places : ∀ index ∈ ope.argProcList, index < ope.previousAttributeNum

/-- What holds once the places of the arguments were found. -/
structure Initialized (ope : EvalOperator) (schema : Schema) (ope' : EvalOperator) : Prop where
  args : ope'.args = ope.args
  retsType : ope'.retsType = ope.retsType
  results : ope'.results = ope.results
  argProcList : ope'.argProcList = ope.usedPlaces schema
  retsName : ope'.retsName.length = ope.results.length
  width : ope'.outputSchema.attributes.length = schema.attributes.length + ope.results.length
  previous : ope'.previousAttributeNum = schema.getAttributeSize
  places : ope'.argProcList.length = ope.args.length ∧ ∀ index ∈ ope'.argProcList, index < schema.attributes.length

section Initialize

variable {self self' : EvalOperator} {schema : Schema}

/-- An argument is found in the range of a schema, or it is a literal. -/
theorem place_eq (hne : schema.attributes ≠ [])
    (hindex : ∀ name i, schema.colNameIdxMap.lookup name = some i → 0 ≤ i ∧ i < schema.attributes.length) (arg : Str) :
    place schema arg = .ok (placeOf schema arg) ∧ placeOf schema arg < schema.attributes.length := by
  obtain ⟨index, hfound, hrange⟩ := Schema.getAttributeIdx_cases hne hindex arg
  have hpos : 0 < schema.attributes.length := List.length_pos_iff.mpr hne
  have hplace : ∃ i, place schema arg = .ok i ∧ i < schema.attributes.length := by
    rw [place]
    simp only [hfound]
    split
    · refine ⟨index, rfl, ?_⟩
      rcases hrange with rfl | h
      · omega
      · exact h.2
    · split
      · exact ⟨NUMBER, rfl, by rw [NUMBER]; omega⟩
      · split
        · exact ⟨STRING, rfl, by rw [STRING]; omega⟩
        · exact ⟨OTHER, rfl, by rw [OTHER]; omega⟩
  obtain ⟨i, hi, hlt⟩ := hplace
  simp only [placeOf, hi]
  exact ⟨trivial, hlt⟩

private theorem mapM_place (hne : schema.attributes ≠ [])
    (hindex : ∀ name i, schema.colNameIdxMap.lookup name = some i → 0 ≤ i ∧ i < schema.attributes.length)
    (args : List Str) : args.mapM (place schema) = .ok (places schema args) :=
  Except.mapM_eq_map fun arg _ => (place_eq hne hindex arg).1

/-- The places are found where the types of the results pass the check, or they are remembered. -/
theorem isOk_initializeEval_iff (hne : schema.attributes ≠ [])
    (hindex : ∀ name i, schema.colNameIdxMap.lookup name = some i → 0 ≤ i ∧ i < schema.attributes.length) :
    (self.initializeEval schema).isOk = true ↔
      self.Remembers schema ∨ ∀ attr ∈ self.results, TypeChecked attr := by
  rw [initializeEval]
  split
  · next hnew =>
    have hforgets : ¬ self.Remembers schema := fun h => hnew.elim h.1 fun hsize => hsize h.2
    rw [mapM_place hne hindex, or_iff_right hforgets, ← isOk_foldlM_append_iff]
    change (Except.isOk (self.results.foldlM Schema.append _ >>= _) = true) ↔ _
    rw [Except.isOk_bind_iff, Except.isOk_iff]
    exact exists_congr fun outputSchema => and_iff_left rfl
  · next hold =>
    obtain ⟨hlist, hsize⟩ := not_or.mp hold
    exact iff_of_true rfl (.inl ⟨hlist, not_not.mp hsize⟩)

/-- A first call that succeeds finds the place of each argument and the type of each result. -/
private theorem initialized_of_eq_ok (hready : self.Ready) (hne : schema.attributes ≠ [])
    (hindex : ∀ name i, schema.colNameIdxMap.lookup name = some i → 0 ≤ i ∧ i < schema.attributes.length)
    (h : self.initializeEval schema = .ok self') : self.Initialized schema self' := by
  rw [initializeEval] at h
  split at h
  · next hnew =>
    have hforgets : ¬ self.Remembers schema := fun h => hnew.elim h.1 fun hsize => hsize h.2
    rw [mapM_place hne hindex] at h
    change (self.results.foldlM Schema.append _ >>= _) = _ at h
    obtain ⟨outputSchema, hschema, h⟩ := Except.bind_eq_ok_iff.mp h
    obtain rfl := Except.ok.inj h
    have hused : self.usedPlaces schema = places schema self.args := if_neg hforgets
    refine ⟨rfl, rfl, rfl, hused.symm, List.length_map _, (Schema.foldlM_append hschema).1, rfl, ?_, ?_⟩
    · exact List.length_map _
    · intro index hmem
      obtain ⟨arg, -, rfl⟩ := List.mem_map.mp hmem
      exact (place_eq hne hindex arg).2
  · next hold =>
    obtain ⟨hlist, hsize⟩ := not_or.mp hold
    obtain rfl := Except.ok.inj h
    have hprevious : self.previousAttributeNum = schema.attributes.length := not_not.mp hsize
    have hused : self.usedPlaces schema = self.argProcList := if_pos ⟨hlist, hprevious⟩
    refine ⟨rfl, rfl, rfl, hused.symm, hready.retsName hlist, ?_, hprevious, hready.size hlist, ?_⟩
    · rw [hready.width hlist, hprevious]
    · intro index hmem
      rw [← hprevious]
      exact hready.places index hmem

/-- A first call leaves the operator ready: the places and types it has found are kept. -/
theorem Initialized.ready (h : self.Initialized schema self') : self'.Ready where
  width _ := by rw [h.width, h.previous, h.results, Schema.getAttributeSize]
  retsName _ := by rw [h.retsName, h.results]
  size _ := by rw [h.places.1, h.args]
  places index hmem := by
    rw [h.previous]
    exact h.places.2 index hmem

end Initialize

section Arguments

variable {self : EvalOperator} {now : Int}

/-- The newest time is the greatest of those at the places, from the time on that the search
starts with. -/
private theorem foldl_newest (t : Tuple) (places : List Int) (time : Int) :
    places.foldl (newer t) time = (places.filterMap (timestampAt t)).foldl max time := by
  induction places generalizing time with
  | nil => rfl
  | cons place places ih =>
    rw [List.foldl_cons, ih, newer]
    cases hplace : timestampAt t place with
    | none => rw [List.filterMap_cons_none hplace]
    | some getTime =>
      rw [List.filterMap_cons_some hplace, List.foldl_cons]
      simp only
      split
      · next hlt => rw [max_eq_right hlt.le]
      · next hle => rw [max_eq_left (not_lt.mp hle)]

private theorem newestTime_eq (t : Tuple) (places : List Int) : newestTime now t places =
    if 0 < (places.filterMap (timestampAt t)).max?.getD 0 then (places.filterMap (timestampAt t)).max?.getD 0
    else now := by
  rw [newestTime, foldl_newest, List.foldl_max]
  generalize (places.filterMap (timestampAt t)).max?.getD 0 = newest
  by_cases hnewest : 0 < newest
  · rw [max_eq_right hnewest.le, if_pos hnewest, if_neg hnewest.ne']
  · rw [max_eq_left (not_lt.mp hnewest), if_pos rfl, if_neg hnewest]

/-- The arguments of each tuple, and the time of the last one only. -/
theorem createArgList_eq (tuples : List Tuple) : self.createArgList now tuples =
    (lastTime now tuples self.argProcList,
      tuples.map fun t => List.zipWith (argument t) self.args self.argProcList) := by
  induction tuples using List.reverseRecOn with
  | nil => rfl
  | append_singleton tuples t ih =>
    have hlast : lastTime now (tuples ++ [t]) self.argProcList = newestTime now t self.argProcList := by
      rw [lastTime, List.getLast?_concat, newestTime_eq]
    rw [createArgList, List.foldl_append, ← createArgList, ih, hlast, List.map_append]
    rfl

end Arguments

/-- The columns for some values. -/
def columnsFor (time : Int) (values : List Any) : List Column :=
  values.map fun value => { value, timestamp := time }

/-- A tuple with columns behind its own. -/
def appended (time : Int) (t : Tuple) (values : List Any) : Tuple :=
  { t with columns := t.columns ++ columnsFor time values }

section Rows

variable {self : EvalOperator} {width n : Nat} {time : Int} {val : Any} {t : Tuple} {row : List Str}

/-- Results that are wide enough are each read as the type of their column. -/
private theorem cells_eq_ok (hrow : width ≤ row.length) (htypes : width ≤ self.retsType.length) :
    ((List.range width).mapM fun i => do
      let text ← at? row i
      let type ← at? self.retsType i
      return getAnyValFromString text type) = .ok ((read self.retsType row).take width) := by
  rw [Except.mapM_eq_ok_iff, List.forall₂_iff_get]
  refine ⟨?_, fun i hi hi' => ?_⟩
  · rw [List.length_range, List.length_take, read, List.length_zipWith]
    omega
  · rw [List.length_range] at hi
    have htext : at? row i = .ok row[i] := by rw [at?, List.getElem?_eq_getElem (by omega)]
    have htype : at? self.retsType i = .ok self.retsType[i] := by rw [at?, List.getElem?_eq_getElem (by omega)]
    simp only [List.get_eq_getElem, List.getElem_range, htext, htype, List.getElem_take, read, List.getElem_zipWith]
    rfl

private theorem lt_of_at?_eq_ok {α : Type} {v : List α} {i : Nat} {x : α} (h : at? v i = .ok x) : i < v.length := by
  rw [at?] at h
  split at h
  · next hx => exact (List.getElem?_eq_some_iff.mp hx).1
  · cases h

/-- A row whose results are taken has as many of them, and there are types for them. -/
theorem le_of_cells_eq_ok {cells : List Any} (h : ((List.range width).mapM fun i => do
      let text ← at? row i
      let type ← at? self.retsType i
      return getAnyValFromString text type) = .ok cells) : width ≤ row.length ∧ width ≤ self.retsType.length := by
  have hall : ∀ i < width, i < row.length ∧ i < self.retsType.length := by
    intro i hi
    have hok := Except.isOk_mapM_iff.mp (Except.isOk_iff.mpr ⟨cells, h⟩) i (List.mem_range.mpr hi)
    obtain ⟨text, htext, hok⟩ := Except.isOk_bind_iff.mp hok
    obtain ⟨type, htype, -⟩ := Except.isOk_bind_iff.mp hok
    exact ⟨lt_of_at?_eq_ok htext, lt_of_at?_eq_ok htype⟩
  constructor
  · by_contra hlt
    exact absurd (hall row.length (Nat.lt_of_not_le hlt)).1 (Nat.lt_irrefl _)
  · by_contra hlt
    exact absurd (hall self.retsType.length (Nat.lt_of_not_le hlt)).2 (Nat.lt_irrefl _)

/-- The columns behind those of a tuple are set one after the other. -/
theorem foldl_setValue (cells : List Any) (i : Nat) {columns : List Column} (hi : columns.length = n + i)
    (ht : t.columns = columns ++ List.replicate cells.length ({} : Column)) :
    (cells.zipIdx i).foldl (fun (val, t) (cell, i) =>
        let val := assign isVoid val cell
        (val, t.setValue ((n : Int) + i) val time false)) (val, t) =
      (final isVoid val cells, { t with columns := columns ++ columnsFor time (carry isVoid val cells) }) := by
  induction cells generalizing i val t columns with
  | nil =>
    rw [List.length_nil, List.replicate_zero] at ht
    rw [List.zipIdx_nil, List.foldl_nil, carry, columnsFor, List.map_nil, ← ht]
    rfl
  | cons cell cells ih =>
    have hset : (t.setValue ((n : Int) + i) (assign isVoid val cell) time false).columns =
        columns ++ [{ value := assign isVoid val cell, timestamp := time }] ++
          List.replicate cells.length ({} : Column) := by
      have hrange : 0 ≤ (n : Int) + i ∧ (n : Int) + i < t.size := by
        rw [Tuple.size, ht, List.length_append, List.length_replicate, List.length_cons]
        omega
      have hindex : ((n : Int) + i).toNat = columns.length := by omega
      rw [Tuple.setValue, if_pos hrange, ht, hindex, List.length_cons, List.replicate_succ]
      rw [List.set_append_right _ _ (Nat.le_refl _), Nat.sub_self, List.set_cons_zero, List.append_assoc,
        List.singleton_append]
    have hnext : (columns ++ [({ value := assign isVoid val cell, timestamp := time } : Column)]).length =
        n + (i + 1) := by
      rw [List.length_append, List.length_singleton]
      omega
    have hrest := @ih (assign isVoid val cell) _ (i + 1) _ hnext hset
    rw [List.zipIdx_cons, List.foldl_cons]
    simp only
    rw [hrest, carry, columnsFor, columnsFor, List.map_cons, List.append_assoc, List.singleton_append, final, final,
      List.foldl_cons, Tuple.setValue]
    split <;> rfl

private theorem foldl_setValue_resize (time : Int) (val : Any) {cells : List Any} (ht : t.columns.length = n)
    (hcells : cells.length = width) :
    cells.zipIdx.foldl (fun (val, t) (cell, i) =>
        let val := assign isVoid val cell
        (val, t.setValue ((n : Int) + i) val time false)) (val, t.resize (n + width)) =
      (final isVoid val cells, appended time t (carry isVoid val cells)) := by
  have hresize : (t.resize (n + width)).columns = t.columns ++ List.replicate cells.length ({} : Column) := by
    rw [Tuple.resize, List.take_of_length_le (by omega), ht, Nat.add_sub_cancel_left, hcells]
  exact foldl_setValue cells 0 ht hresize

private theorem length_take_read (hrow : width ≤ row.length) (htypes : width ≤ self.retsType.length) :
    ((read self.retsType row).take width).length = width := by
  rw [List.length_take, read, List.length_zipWith]
  omega

/-- A tuple gets its results where there are enough of them, and of types. -/
theorem appendRow_eq_ok_iff (ht : t.columns.length = n) {val' : Any} {t' : Tuple} :
    self.appendRow width n time val t row = .ok (val', t') ↔
      (width ≤ row.length ∧ width ≤ self.retsType.length) ∧
        val' = final isVoid val ((read self.retsType row).take width) ∧
          t' = appended time t (carry isVoid val ((read self.retsType row).take width)) := by
  constructor
  · intro h
    obtain ⟨cells, hcells, h⟩ := Except.bind_eq_ok_iff.mp h
    obtain ⟨hrow, htypes⟩ := le_of_cells_eq_ok hcells
    obtain rfl := Except.ok.inj (hcells.symm.trans (cells_eq_ok hrow htypes))
    have hfold := foldl_setValue_resize time val ht (length_take_read hrow htypes)
    obtain ⟨hval, ht'⟩ := Prod.mk.inj ((Except.ok.inj h).symm.trans hfold)
    exact ⟨⟨hrow, htypes⟩, hval, ht'⟩
  · rintro ⟨⟨hrow, htypes⟩, rfl, rfl⟩
    rw [appendRow, cells_eq_ok hrow htypes]
    exact congrArg Except.ok (foldl_setValue_resize time val ht (length_take_read hrow htypes))

/-- The values of the results of several tuples, as one variable holds them. -/
def carriedValues (self : EvalOperator) (width : Nat) (val : Any) (rows : List (List Str)) : List (List Any) :=
  carryRows isVoid val (rows.map fun row => (read self.retsType row).take width)

/-- If appending the rows succeeds, each row has as many results as the first one, and the
tuples are those with the results behind them. -/
private theorem foldlM_appendRow {rows : List (Tuple × List Str)} (hrows : ∀ row ∈ rows, row.1.columns.length = n)
    {tuples tuples' : List Tuple} {val' : Any} :
    rows.foldlM (self.appendNext width n time) (val, tuples) = .ok (val', tuples') →
      (∀ row ∈ rows, width ≤ row.2.length ∧ width ≤ self.retsType.length) ∧
        tuples' = tuples ++
          List.zipWith (appended time) (rows.map Prod.fst) (self.carriedValues width val (rows.map Prod.snd)) := by
  intro h
  induction rows generalizing val tuples with
  | nil =>
    obtain ⟨-, rfl⟩ := Prod.mk.inj (Except.ok.inj h)
    exact ⟨fun _ hrow => absurd hrow List.not_mem_nil, (List.append_nil _).symm⟩
  | cons row rows ih =>
    obtain ⟨hn, hrest⟩ := List.forall_mem_cons.mp hrows
    rw [List.foldlM_cons] at h
    obtain ⟨⟨val₁, tuples₁⟩, hrow, h⟩ := Except.bind_eq_ok_iff.mp h
    obtain ⟨⟨val₂, t⟩, happend, heq⟩ := Except.map_eq_ok_iff.mp hrow
    obtain ⟨rfl, rfl⟩ := Prod.mk.inj heq
    obtain ⟨hwidth, rfl, rfl⟩ := (appendRow_eq_ok_iff hn).mp happend
    obtain ⟨hall, rfl⟩ := ih hrest h
    refine ⟨List.forall_mem_cons.mpr ⟨hwidth, hall⟩, ?_⟩
    rw [List.append_assoc]
    rfl

/-- Rows that are wide enough are appended without an error. -/
private theorem foldlM_appendRow_of_le {rows : List (Tuple × List Str)} (hrows : ∀ row ∈ rows, row.1.columns.length = n)
    (hall : ∀ row ∈ rows, width ≤ row.2.length ∧ width ≤ self.retsType.length) (val : Any)
    (tuples : List Tuple) :
    ∃ val' tuples', rows.foldlM (self.appendNext width n time) (val, tuples) = .ok (val', tuples') := by
  induction rows generalizing val tuples with
  | nil => exact ⟨val, tuples, rfl⟩
  | cons row rows ih =>
    obtain ⟨hn, hrest⟩ := List.forall_mem_cons.mp hrows
    obtain ⟨hwidth, hall⟩ := List.forall_mem_cons.mp hall
    have happend : self.appendRow width n time val row.1 row.2 = .ok (_, _) :=
      (appendRow_eq_ok_iff hn).mpr ⟨hwidth, rfl, rfl⟩
    obtain ⟨val', tuples', h⟩ := ih hrest hall (final isVoid val ((read self.retsType row.2).take width))
      (tuples ++ [appended time row.1 (carry isVoid val ((read self.retsType row.2).take width))])
    refine ⟨val', tuples', ?_⟩
    rw [List.foldlM_cons, appendNext, happend]
    exact h

/-- The rows get their results where each has enough of them. -/
theorem appendRows_eq_ok_iff {rows : List (Tuple × List Str)} (hrows : ∀ row ∈ rows, row.1.columns.length = n)
    {tuples : List Tuple} : (∃ val, self.appendRows width n time rows = .ok (val, tuples)) ↔
      (∀ row ∈ rows, width ≤ row.2.length ∧ width ≤ self.retsType.length) ∧
        tuples = List.zipWith (appended time) (rows.map Prod.fst)
          (self.carriedValues width .void (rows.map Prod.snd)) := by
  constructor
  · rintro ⟨val, h⟩
    exact foldlM_appendRow hrows h
  · rintro ⟨hall, rfl⟩
    obtain ⟨val', tuples', h⟩ := foldlM_appendRow_of_le hrows hall .void []
    obtain ⟨-, rfl⟩ := foldlM_appendRow hrows h
    exact ⟨val', h⟩

end Rows

section ResultRow

variable {self : EvalOperator} {schema : Schema} {width n : Nat} {time : Int} {tuples : List Tuple}
  {rows : List (List Str)}

/-- There is an attribute for each type, and one if there is no type. -/
theorem length_results (self : EvalOperator) : self.results.length = max 1 self.retsType.length := by
  rw [results]
  split
  · next hmany =>
    rw [List.length_map, List.length_zip]
    split
    · rw [List.length_map, List.length_range, Nat.min_self, max_eq_right hmany.le]
    · next hnames =>
      have hsize : self.retsType.length = (split self.retNameStr ",".toList).length := self.names.resolve_left hnames
      rw [← hsize, Nat.min_self, max_eq_right hmany.le]
  · next hone =>
    rw [List.length_singleton, max_eq_left (Nat.not_lt.mp hone)]

/-- A tuple with results behind it is a row of the operator exactly if each result was read as
its type and the time is that of the newest argument. -/
private theorem resultRow_appended_iff {t : Tuple} {results : List Str} {values : List Any} :
    self.ResultRow schema t results (appended time t values) ↔
      (values.length = results.length ∧ values = read self.retsType results) ∧
        (values ≠ [] → ∀ newest ∈ newestArgument schema self.args t, time = newest) := by
  have hvalues : (columnsFor time values).map Column.value = values := by
    rw [columnsFor, List.map_map]
    exact List.map_id _
  constructor
  · rintro ⟨columns, hcolumns, hlength, hread, htimes⟩
    obtain rfl := List.append_cancel_left hcolumns
    rw [columnsFor, List.length_map] at hlength
    refine ⟨⟨hlength, hvalues.symm.trans hread⟩, fun hne newest hnewest => ?_⟩
    obtain ⟨value, hvalue⟩ := List.exists_mem_of_ne_nil values hne
    exact htimes { value, timestamp := time } (List.mem_map.mpr ⟨value, hvalue, rfl⟩) newest hnewest
  · rintro ⟨⟨hlength, hread⟩, htimes⟩
    refine ⟨columnsFor time values, rfl, (List.length_map _).trans hlength, hvalues.trans hread, ?_⟩
    intro c hc newest hnewest
    obtain ⟨value, hvalue, rfl⟩ := List.mem_map.mp hc
    exact htimes (List.ne_nil_of_mem hvalue) newest hnewest

/-- Tuples with values behind them are right just where the values of each are. -/
theorem forall₂_resultRow_iff (hrows : rows.length = tuples.length) {valuess : List (List Any)}
    (hvalues : valuess.length = tuples.length) :
    List.Forall₂ (fun row t' => self.ResultRow schema row.1 row.2 t') (tuples.zip rows)
        (List.zipWith (appended time) tuples valuess) ↔
      List.Forall₂ (fun results values => values.length = results.length ∧ values = read self.retsType results)
          rows valuess ∧
        List.Forall₂ (fun t values => values ≠ [] → ∀ newest ∈ newestArgument schema self.args t, time = newest)
          tuples valuess := by
  induction tuples generalizing rows valuess with
  | nil =>
    obtain rfl := List.eq_nil_of_length_eq_zero hrows
    obtain rfl := List.eq_nil_of_length_eq_zero hvalues
    exact iff_of_true .nil ⟨.nil, .nil⟩
  | cons t tuples ih =>
    obtain ⟨results, rows, rfl⟩ := List.exists_cons_of_length_eq_add_one hrows
    obtain ⟨values, valuess, rfl⟩ := List.exists_cons_of_length_eq_add_one hvalues
    rw [List.zip_cons_cons, List.zipWith_cons_cons, List.forall₂_cons, List.forall₂_cons, List.forall₂_cons,
      resultRow_appended_iff, ih (Nat.succ.inj hrows) (Nat.succ.inj hvalues)]
    exact and_and_and_comm

private theorem length_carriedValues (self : EvalOperator) (width : Nat) (val : Any) (rows : List (List Str)) :
    (self.carriedValues width val rows).length = rows.length := by
  rw [carriedValues, length_carryRows, List.length_map]

private theorem eq_void_of_isVoid {x : Any} (h : isVoid x = true) : x = .void := by
  cases x with
  | void => rfl
  | _ => cases h

/-- The values are those of the results where no text that is not read stands behind one that is. -/
theorem carriedValues_eq_iff (hrows : ∀ results ∈ rows, results.length = width) :
    self.carriedValues width .void rows = rows.map (read self.retsType) ↔
      (rows.flatMap (read self.retsType)).Pairwise fun x y => isVoid y = true → isVoid x = true := by
  have htake : rows.map (fun row => (read self.retsType row).take width) = rows.map (read self.retsType) := by
    refine List.map_congr_left fun row hrow => List.take_of_length_le ?_
    rw [read, List.length_zipWith, hrows row hrow]
    exact min_le_left _ _
  have hvoid : ∀ x y, isVoid x = true → isVoid y = true → x = y := fun x y hx hy =>
    (eq_void_of_isVoid hx).trans (eq_void_of_isVoid hy).symm
  rw [carriedValues, htake, carryRows_eq_self_iff, carry_eq_self_iff hvoid, List.pairwise_cons, List.flatMap]
  exact and_iff_right fun _ _ _ => rfl

/-- The times are right where the newest argument of each tuple has the time. -/
theorem forall₂_time_iff (hrows : rows.length = tuples.length)
    (hne : ∀ results ∈ rows, read self.retsType results ≠ []) :
    List.Forall₂ (fun t values => values ≠ [] → ∀ newest ∈ newestArgument schema self.args t, time = newest) tuples
        (rows.map (read self.retsType)) ↔
      ∀ t ∈ tuples, ∀ newest ∈ newestArgument schema self.args t, newest = time := by
  rw [List.forall₂_map_right_iff, List.forall₂_iff_zip]
  constructor
  · rintro ⟨-, hall⟩ t ht newest hnewest
    rw [← List.map_fst_zip hrows.ge] at ht
    obtain ⟨⟨t, results⟩, hmem, rfl⟩ := List.mem_map.mp ht
    exact (hall hmem (hne results (List.of_mem_zip hmem).2) newest hnewest).symm
  · intro hall
    exact ⟨hrows.symm, fun hmem _ newest hnewest => (hall _ (List.of_mem_zip hmem).1 newest hnewest).symm⟩

/-- There are as many results as types where the rows are as wide as the schema is. -/
theorem length_eq_of_forall₂ (hall : ∀ row ∈ rows, width ≤ row.length ∧ width ≤ self.retsType.length)
    (hwidth : width = max 1 self.retsType.length) {valuess : List (List Any)}
    (hrows : List.Forall₂ (fun results values => values.length = results.length ∧ values = read self.retsType results)
      rows valuess) : ∀ results ∈ rows, results.length = width := by
  induction hrows with
  | nil => exact fun _ hmem => absurd hmem List.not_mem_nil
  | @cons results values rows valuess hvalues hrest ih =>
    obtain ⟨hfirst, hall⟩ := List.forall_mem_cons.mp hall
    refine List.forall_mem_cons.mpr ⟨?_, ih hall⟩
    have hread : values.length = min results.length self.retsType.length := by rw [hvalues.2, read, List.length_zipWith]
    have hlength : results.length = min results.length self.retsType.length := hvalues.1.symm.trans hread
    omega

private theorem length_read {results : List Str} (h : results.length = self.retsType.length) :
    (read self.retsType results).length = results.length := by
  rw [read, List.length_zipWith, h, Nat.min_self]

private theorem read_ne_nil {results : List Str} (h : results.length = self.retsType.length)
    (htypes : 0 < self.retsType.length) : read self.retsType results ≠ [] := by
  rw [← List.length_pos_iff, length_read h, h]
  exact htypes

private theorem exists_of_mem_zipWith {α β γ : Type} {f : α → β → γ} {xs : List α} {ys : List β} {z : γ}
    (h : z ∈ List.zipWith f xs ys) : ∃ x ∈ xs, ∃ y ∈ ys, z = f x y := by
  rw [← List.map_uncurry_zip_eq_zipWith] at h
  obtain ⟨⟨x, y⟩, hmem, rfl⟩ := List.mem_map.mp h
  exact ⟨x, (List.of_mem_zip hmem).1, y, (List.of_mem_zip hmem).2, rfl⟩

/-- Rows of tuples and their results, where the results are taken as one list. -/
theorem rows_iff (hne : tuples ≠ []) (hrows : rows.length = tuples.length) (hn : ∀ t ∈ tuples, t.columns.length = n)
    (hfirst : ∀ row ∈ rows.head?, width = row.length) :
    ((∀ row ∈ rows, width ≤ row.length ∧ width ≤ self.retsType.length) ∧
      List.Forall₂ (fun row t' => self.ResultRow schema row.1 row.2 t') (tuples.zip rows)
        (List.zipWith (appended time) tuples (self.carriedValues width .void rows)) ∧
      ∀ t' ∈ List.zipWith (appended time) tuples (self.carriedValues width .void rows),
        t'.columns.length = n + self.results.length) ↔
      (∀ results ∈ rows, results.length = self.retsType.length ∧ 0 < self.retsType.length) ∧
        ((rows.flatMap (read self.retsType)).Pairwise fun x y => isVoid y = true → isVoid x = true) ∧
          ∀ t ∈ tuples, ∀ newest ∈ newestArgument schema self.args t, newest = time := by
  have hvalues := length_carriedValues self width .void rows
  rw [forall₂_resultRow_iff hrows (hvalues.trans hrows), length_results]
  constructor
  · rintro ⟨hall, ⟨hread, htimes⟩, hwidths⟩
    have hwidth : width = max 1 self.retsType.length := by
      obtain ⟨t, rest, rfl⟩ := List.exists_cons_of_ne_nil hne
      obtain ⟨row, rows, rfl⟩ := List.exists_cons_of_length_eq_add_one hrows
      have ht' := hwidths _ (List.mem_cons_self ..)
      rw [appended, List.length_append, hn t (List.mem_cons_self ..), columnsFor, List.length_map, length_carry] at ht'
      have hfirst := hall row (List.mem_cons_self ..)
      have htake := length_take_read hfirst.1 hfirst.2
      simp only [htake] at ht'
      omega
    have htypes : width = self.retsType.length ∧ 0 < self.retsType.length := by
      have hsome : rows ≠ [] := by
        rintro rfl
        exact hne (List.eq_nil_of_length_eq_zero hrows.symm)
      obtain ⟨row, hrow⟩ := List.exists_mem_of_ne_nil rows hsome
      have hle := (hall row hrow).2
      omega
    have hlengths := length_eq_of_forall₂ hall hwidth hread
    have hcarried : self.carriedValues width .void rows = rows.map (read self.retsType) := by
      have heq : List.Forall₂ (· = ·) (rows.map (read self.retsType)) (self.carriedValues width .void rows) :=
        List.forall₂_map_left_iff.mpr (hread.imp fun _ _ h => h.2.symm)
      rw [List.forall₂_eq_eq_eq] at heq
      exact heq.symm
    have hne' : ∀ results ∈ rows, read self.retsType results ≠ [] := fun results hmem =>
      read_ne_nil ((hlengths results hmem).trans htypes.1) htypes.2
    rw [hcarried, forall₂_time_iff hrows hne'] at htimes
    exact ⟨fun results hmem => ⟨(hlengths results hmem).trans htypes.1, htypes.2⟩,
      (carriedValues_eq_iff hlengths).mp hcarried, htimes⟩
  · rintro ⟨hlengths, hreadable, htimes⟩
    obtain ⟨t, rest, rfl⟩ := List.exists_cons_of_ne_nil hne
    obtain ⟨row, rows, rfl⟩ := List.exists_cons_of_length_eq_add_one hrows
    obtain ⟨hrow, htypes⟩ := hlengths row (List.mem_cons_self ..)
    have hwidth : width = self.retsType.length := (hfirst row rfl).trans hrow
    have hlengths' : ∀ results ∈ row :: rows, results.length = width := fun results hmem =>
      (hlengths results hmem).1.trans hwidth.symm
    have hne' : ∀ results ∈ row :: rows, read self.retsType results ≠ [] := fun results hmem =>
      read_ne_nil (hlengths results hmem).1 htypes
    have hcarried := (carriedValues_eq_iff hlengths').mpr hreadable
    refine ⟨fun results hmem => ⟨(hlengths' results hmem).ge, hwidth.le⟩, ?_, ?_⟩
    · rw [hcarried]
      refine ⟨?_, (forall₂_time_iff hrows hne').mpr htimes⟩
      rw [List.forall₂_map_right_iff]
      exact List.forall₂_same.mpr fun results hmem => ⟨length_read (hlengths results hmem).1, rfl⟩
    · rw [hcarried]
      intro t' ht'
      obtain ⟨t, ht, values, hvalues, rfl⟩ := exists_of_mem_zipWith ht'
      obtain ⟨results, hresults, rfl⟩ := List.mem_map.mp hvalues
      rw [appended, List.length_append, hn t ht, columnsFor, List.length_map, length_read (hlengths results hresults).1,
        (hlengths results hresults).1, max_eq_right htypes]

end ResultRow

section AppendReturnValue

variable {self self' : EvalOperator} {ts ts' : TupleSet} {tuples : List Tuple} {retList : List (List Str)} {n : Nat}
  {time : Int}

/-- The tuples with one result each. -/
def resultTuples (self : EvalOperator) (time : Int) (tuples : List Tuple) (retList : List (List Str)) : List Tuple :=
  List.zipWith (appended time) tuples (self.carriedValues (retList.headD []).length .void retList)

/-- What holds once the results are behind the tuples. -/
structure Appended (ope : EvalOperator) (ts : TupleSet) (retList : List (List Str)) (time : Int) (ope' : EvalOperator)
    (ts' : TupleSet) : Prop where
  width : ∀ row ∈ retList, (retList.headD []).length ≤ row.length ∧ (retList.headD []).length ≤ ope.retsType.length
  tuples : ts'.tuples = ope.resultTuples time ts.tuples retList
  schema : ts'.schema.attributes = ope.outputSchema.attributes
  outputSchema : ope'.outputSchema.attributes = ope.outputSchema.attributes
  others : ope' = { ope with outputSchema := ope'.outputSchema }

/-- Appending succeeds exactly if no row has fewer results than the first one, nor the operator
fewer types, and gives the tuples with their results. -/
private theorem appendRows_resultTuples (hlength : retList.length = tuples.length)
    (hn : ∀ t ∈ tuples, t.columns.length = n)
    {tuples' : List Tuple} :
    (∃ val, self.appendRows (retList.headD []).length n time (tuples.zip retList) = .ok (val, tuples')) ↔
      (∀ row ∈ retList, (retList.headD []).length ≤ row.length ∧ (retList.headD []).length ≤ self.retsType.length) ∧
        tuples' = self.resultTuples time tuples retList := by
  have hrows : ∀ row ∈ tuples.zip retList, row.1.columns.length = n := fun row hrow => hn _ (List.of_mem_zip hrow).1
  have hwidth : (∀ row ∈ tuples.zip retList, (retList.headD []).length ≤ row.2.length ∧
      (retList.headD []).length ≤ self.retsType.length) ↔
      ∀ row ∈ retList, (retList.headD []).length ≤ row.length ∧ (retList.headD []).length ≤ self.retsType.length := by
    have hsnd := List.map_snd_zip hlength.le
    constructor
    · intro h row hrow
      rw [← hsnd] at hrow
      obtain ⟨row, hmem, rfl⟩ := List.mem_map.mp hrow
      exact h row hmem
    · intro h row hrow
      exact h row.2 (List.of_mem_zip hrow).2
  rw [appendRows_eq_ok_iff hrows, hwidth, List.map_fst_zip hlength.ge, List.map_snd_zip hlength.le, resultTuples]

/-- The set that a successful call returns has the tuples of the call with their results behind
them. -/
private theorem appended_of_eq_ok (hne : ts.tuples ≠ []) (hlength : retList.length = ts.tuples.length)
    (hn : ∀ t ∈ ts.tuples, t.columns.length = n) (hschema : ts.schema = self.outputSchema)
    (h : self.appendReturnValue ts retList time = .ok (self', ts')) :
    self.Appended ts retList time self' ts' := by
  obtain ⟨schema, tuples⟩ := ts
  obtain ⟨t, rest, rfl⟩ := List.exists_cons_of_ne_nil hne
  obtain ⟨first, rows, rfl⟩ := List.exists_cons_of_length_eq_add_one hlength
  have hsize : t.size = n := hn t (List.mem_cons_self ..)
  unfold appendReturnValue at h
  simp only [hsize] at h
  split at h
  · obtain ⟨⟨val, tuples'⟩, hrows, h⟩ := Except.bind_eq_ok_iff.mp h
    obtain ⟨rfl, rfl⟩ := Prod.mk.inj (Except.ok.inj h)
    obtain ⟨hwidth, rfl⟩ := (appendRows_resultTuples hlength hn).mp ⟨val, hrows⟩
    exact ⟨hwidth, rfl, congrArg Schema.attributes hschema, rfl, rfl⟩
  · obtain ⟨⟨val, tuples'⟩, hrows, h⟩ := Except.bind_eq_ok_iff.mp h
    obtain ⟨rfl, rfl⟩ := Prod.mk.inj (Except.ok.inj h)
    rw [List.take_of_length_le hlength.ge, TupleSet.size, hlength, Nat.sub_self, List.replicate_zero,
      List.append_nil] at hrows
    obtain ⟨hwidth, rfl⟩ := (appendRows_resultTuples hlength hn).mp ⟨val, hrows⟩
    exact ⟨hwidth, rfl, rfl, rfl, rfl⟩

/-- A call whose rows are wide enough appends its results without an error. -/
private theorem isOk_appendReturnValue (hne : ts.tuples ≠ []) (hlength : retList.length = ts.tuples.length)
    (hn : ∀ t ∈ ts.tuples, t.columns.length = n)
    (hwidth : ∀ row ∈ retList, (retList.headD []).length ≤ row.length ∧
      (retList.headD []).length ≤ self.retsType.length) :
    (self.appendReturnValue ts retList time).isOk = true := by
  obtain ⟨schema, tuples⟩ := ts
  obtain ⟨t, rest, rfl⟩ := List.exists_cons_of_ne_nil hne
  obtain ⟨first, rows, rfl⟩ := List.exists_cons_of_length_eq_add_one hlength
  have hsize : t.size = n := hn t (List.mem_cons_self ..)
  obtain ⟨val, hrows⟩ := appendRows_resultTuples hlength hn |>.mpr ⟨hwidth, rfl⟩
  unfold appendReturnValue
  simp only [hsize]
  split
  · exact Except.isOk_bind_iff.mpr ⟨_, hrows, rfl⟩
  · rw [List.take_of_length_le hlength.ge, TupleSet.size, hlength, Nat.sub_self, List.replicate_zero, List.append_nil]
    exact Except.isOk_bind_iff.mpr ⟨_, hrows, rfl⟩

end AppendReturnValue

section Process

variable {self self' : EvalOperator} {f : UserFunction} {now : Int} {ts ts' : TupleSet}

private theorem process_eq_of_nil (h : self.initializeEval ts.schema = .ok self') (hnil : ts.tuples = [])
    (evalFunc : List (List Str) → Option (List (List Str))) :
    self.process evalFunc now ts = .ok (self', ts.SetSchema self'.outputSchema, true) := by
  rw [process, h]
  exact if_pos hnil

/-- With tuples, the results are taken from one call of the function. -/
theorem process_eq_ok_iff {ope : EvalOperator} (h : self.initializeEval ts.schema = .ok self') (hne : ts.tuples ≠ []) :
    self.process (fun argList => some (f.eval argList)) now ts = .ok (ope, ts', true) ↔
      self'.appendReturnValue (ts.SetSchema self'.outputSchema)
        (f.eval (ts.tuples.map fun t => List.zipWith (argument t) self'.args self'.argProcList))
        (lastTime now ts.tuples self'.argProcList) = .ok (ope, ts') := by
  rw [process, h]
  change (if ts.tuples = [] then _ else _) = _ ↔ _
  rw [if_neg hne]
  change (self'.appendReturnValue (ts.SetSchema self'.outputSchema) (f.eval (self'.createArgList now ts.tuples).2)
    (self'.createArgList now ts.tuples).1 >>= fun x => .ok (x.1, x.2, true)) = _ ↔ _
  rw [createArgList_eq, Except.bind_eq_ok_iff]
  constructor
  · rintro ⟨⟨ope', ts₁⟩, hok, heq⟩
    obtain ⟨hope, heq'⟩ := Prod.mk.inj (Except.ok.inj heq)
    obtain ⟨rfl, -⟩ := Prod.mk.inj heq'
    rw [← hope]
    exact hok
  · intro hok
    exact ⟨(ope, ts'), hok, rfl⟩

private theorem exists_initialized
    (h : self.process (fun argList => some (f.eval argList)) now ts = .ok (self', ts', true)) :
    ∃ ope, self.initializeEval ts.schema = .ok ope := by
  rw [process] at h
  obtain ⟨ope, hope, -⟩ := Except.bind_eq_ok_iff.mp h
  exact ⟨ope, hope⟩

private theorem resultTuples_congr (h : self'.retsType = self.retsType) (time : Int) (tuples : List Tuple)
    (retList : List (List Str)) : self'.resultTuples time tuples retList = self.resultTuples time tuples retList := by
  rw [resultTuples, resultTuples, carriedValues, carriedValues, h]

/-- The results of a call leave what the next one hands to the function as it is. -/
theorem Appended.createArgList_eq {retList : List (List Str)} {time : Int}
    (h : self.Appended ts retList time self' ts') (tuples : List Tuple) :
    self'.createArgList now tuples = self.createArgList now tuples := by
  rw [createArgList, createArgList, congrArg args h.others, congrArg argProcList h.others]

end Process

section Deliver

variable {ope ope' : EvalOperator} {f : UserFunction} {now : Int} {ts : FoundSet}

private theorem length_resultRows : (ope.resultRows f ts.toTupleSet).length = ts.tuples.length := by
  rw [resultRows, f.rows, List.length_map]

/-- The function is handed the arguments of the tuples just where the places that are used lead to them. -/
theorem arguments_iff (h : ope.Initialized ts.schema ope') :
    (ope'.createArgList now ts.tuples).2 = ts.tuples.map (rowArguments ts.schema ope.args) ↔
      ∀ t ∈ ts.tuples,
        List.zipWith (argument t) ope.args (ope.usedPlaces ts.schema) = rowArguments ts.schema ope.args t := by
  rw [createArgList_eq, h.args, h.argProcList]
  exact List.map_inj_left

/-- What is delivered once the places of the arguments were found. -/
theorem exists_delivered_iff (h : ope.Initialized ts.schema ope') (hne : ts.tuples ≠ []) :
    (∃ ope₂ ts₂, ope'.appendReturnValue (ts.SetSchema ope'.outputSchema) (ope.resultRows f ts.toTupleSet)
        (lastTime now ts.tuples (ope.usedPlaces ts.schema)) = .ok (ope₂, ts₂) ∧
      List.Forall₂ (fun row t' => ope.ResultRow ts.schema row.1 row.2 t')
        (ts.tuples.zip (ope.resultRows f ts.toTupleSet)) ts₂.tuples ∧
      ∀ t' ∈ ts₂.tuples, t'.columns.length = ts₂.schema.attributes.length) ↔
      (∀ results ∈ ope.resultRows f ts.toTupleSet,
        results.length = ope.retsType.length ∧ 0 < ope.retsType.length) ∧
        (((ope.resultRows f ts.toTupleSet).flatMap (read ope.retsType)).Pairwise fun x y =>
          isVoid y = true → isVoid x = true) ∧
          ∀ t ∈ ts.tuples, ∀ newest ∈ newestArgument ts.schema ope.args t,
            newest = lastTime now ts.tuples (ope.usedPlaces ts.schema) := by
  have hfirst : ∀ row ∈ (ope.resultRows f ts.toTupleSet).head?,
      ((ope.resultRows f ts.toTupleSet).headD []).length = row.length := by
    intro row hrow
    rw [List.headD_eq_head?_getD, Option.mem_def.mp hrow]
    rfl
  have hne' : (ts.SetSchema ope'.outputSchema).tuples ≠ [] := hne
  rw [← rows_iff hne length_resultRows ts.aligned hfirst]
  constructor
  · rintro ⟨ope₂, ts₂, hok, hrows, hwidth⟩
    have happended := appended_of_eq_ok hne' length_resultRows ts.aligned rfl hok
    rw [happended.tuples, resultTuples_congr h.retsType] at hrows hwidth
    rw [happended.schema, h.width] at hwidth
    refine ⟨fun row hrow => ?_, hrows, hwidth⟩
    rw [← h.retsType]
    exact happended.width row hrow
  · rintro ⟨hall, hrows, hwidth⟩
    rw [← h.retsType] at hall
    obtain ⟨⟨ope₂, ts₂⟩, hok⟩ := Except.isOk_iff.mp (isOk_appendReturnValue hne' length_resultRows ts.aligned hall)
    have happended := appended_of_eq_ok hne' length_resultRows ts.aligned rfl hok
    refine ⟨ope₂, ts₂, hok, ?_, ?_⟩
    · rw [happended.tuples, resultTuples_congr h.retsType]
      exact hrows
    · rw [happended.tuples, resultTuples_congr h.retsType, happended.schema, h.width]
      exact hwidth

/-- A set without tuples keeps its rows exactly if the call meets the condition. -/
private theorem keepsRows_iff_of_nil (hnil : ts.tuples = []) :
    ope.KeepsRows f now ts.toTupleSet ↔ ope.Meets f now ts.toTupleSet := by
  have hrows : ope.resultRows f ts.toTupleSet = [] := by
    rw [← List.length_eq_zero_iff, length_resultRows, hnil, List.length_nil]
  have htypes : (ope.initializeEval ts.schema).isOk = true ↔ _ := isOk_initializeEval_iff ts.nonempty ts.index
  constructor
  · rintro ⟨ope', ts', h, -⟩
    obtain ⟨ope₁, hope⟩ := exists_initialized h
    refine ⟨htypes.mp (Except.isOk_iff.mpr ⟨ope₁, hope⟩), ?_, ?_, ?_, ?_⟩
    · rw [hnil]
      exact fun t ht => absurd ht List.not_mem_nil
    · rw [hrows]
      exact fun results hresults => absurd hresults List.not_mem_nil
    · rw [hrows]
      exact .nil
    · rw [hnil]
      exact fun t ht => absurd ht List.not_mem_nil
  · intro h
    obtain ⟨ope₁, hope⟩ := Except.isOk_iff.mp (htypes.mpr h.types)
    refine ⟨ope₁, _, process_eq_of_nil hope hnil _, ⟨?_, ?_, ?_⟩⟩
    · rw [createArgList_eq, hnil]
      rfl
    · rw [TupleSet.SetSchema, hnil]
      exact .nil
    · rw [TupleSet.SetSchema, hnil]
      exact fun t ht => absurd ht List.not_mem_nil

private theorem eval_eq_resultRows (h : ope.Initialized ts.schema ope') (harguments : ∀ t ∈ ts.tuples,
    List.zipWith (argument t) ope.args (ope.usedPlaces ts.schema) = rowArguments ts.schema ope.args t) :
    f.eval (ts.tuples.map fun t => List.zipWith (argument t) ope'.args ope'.argProcList) =
      ope.resultRows f ts.toTupleSet := by
  rw [resultRows, h.args, h.argProcList, List.map_congr_left harguments]

/-- A ready operator keeps the rows of a set with tuples exactly if the call meets the
condition. -/
private theorem keepsRows_iff_of_ne_nil (hready : ope.Ready) (hne : ts.tuples ≠ []) :
    ope.KeepsRows f now ts.toTupleSet ↔ ope.Meets f now ts.toTupleSet := by
  have htypes : (ope.initializeEval ts.schema).isOk = true ↔ _ := isOk_initializeEval_iff ts.nonempty ts.index
  constructor
  · rintro ⟨ope₂, ts₂, h, hdelivered⟩
    obtain ⟨ope₁, hope⟩ := exists_initialized h
    have hinit := initialized_of_eq_ok hready ts.nonempty ts.index hope
    have hok := (process_eq_ok_iff hope hne).mp h
    have hlength : (f.eval (ts.tuples.map fun t => List.zipWith (argument t) ope₁.args ope₁.argProcList)).length =
        ts.tuples.length := by
      rw [f.rows, List.length_map]
    have hne' : (ts.SetSchema ope₁.outputSchema).tuples ≠ [] := hne
    have happended := appended_of_eq_ok hne' hlength ts.aligned rfl hok
    have harguments := hdelivered.arguments
    rw [happended.createArgList_eq, arguments_iff hinit] at harguments
    rw [eval_eq_resultRows hinit harguments, hinit.argProcList] at hok
    obtain ⟨hresults, hreadable, hnewest⟩ :=
      (exists_delivered_iff hinit hne).mp ⟨ope₂, ts₂, hok, hdelivered.rows, hdelivered.width⟩
    exact ⟨htypes.mp (Except.isOk_iff.mpr ⟨ope₁, hope⟩), harguments, hresults, hreadable, hnewest⟩
  · intro h
    obtain ⟨ope₁, hope⟩ := Except.isOk_iff.mp (htypes.mpr h.types)
    have hinit := initialized_of_eq_ok hready ts.nonempty ts.index hope
    obtain ⟨ope₂, ts₂, hok, hrows, hwidth⟩ :=
      (exists_delivered_iff hinit hne).mpr ⟨h.results, h.readable, h.newest⟩
    have hne' : (ts.SetSchema ope₁.outputSchema).tuples ≠ [] := hne
    have happended := appended_of_eq_ok hne' length_resultRows ts.aligned rfl hok
    rw [← eval_eq_resultRows hinit h.arguments, ← hinit.argProcList] at hok
    refine ⟨ope₂, ts₂, (process_eq_ok_iff hope hne).mpr hok, ⟨?_, hrows, hwidth⟩⟩
    rw [happended.createArgList_eq]
    exact (arguments_iff hinit).mpr h.arguments

end Deliver

section Run

variable {self self' : EvalOperator} {ts ts' : TupleSet}

private theorem ready_of_argProcList_eq_nil (h : self.argProcList = []) : self.Ready where
  width hne := absurd h hne
  retsName hne := absurd h hne
  size hne := absurd h hne
  places := by
    rw [h]
    exact fun index hindex => absurd hindex List.not_mem_nil

/-- Readiness depends on the columns of the schema and the places only. -/
theorem Ready.congr (h : self.Ready) (hattributes : self'.outputSchema.attributes = self.outputSchema.attributes)
    (hothers : self' = { self with outputSchema := self'.outputSchema }) : self'.Ready := by
  have hresults := congrArg results hothers
  have hargs := congrArg args hothers
  have hretsName := congrArg EvalOperator.retsName hothers
  have hlist := congrArg argProcList hothers
  have hprevious := congrArg previousAttributeNum hothers
  refine ⟨?_, ?_, ?_, ?_⟩
  · rw [hlist, hattributes, hprevious, hresults]
    exact h.width
  · rw [hlist, hretsName, hresults]
    exact h.retsName
  · rw [hlist, hargs]
    exact h.size
  · rw [hlist, hprevious]
    exact h.places

/-- The results change no attribute. -/
theorem Ready.appendReturnValue (h : self.Ready) {retList : List (List Str)} {time : Int}
    (hok : self.appendReturnValue ts retList time = .ok (self', ts')) : self'.Ready := by
  unfold EvalOperator.appendReturnValue at hok
  split at hok
  · obtain ⟨rfl, -⟩ := Prod.mk.inj (Except.ok.inj hok)
    exact h
  · cases hok
  · simp only at hok
    split at hok
    · obtain ⟨⟨val, tuples⟩, -, hok⟩ := Except.bind_eq_ok_iff.mp hok
      obtain ⟨rfl, -⟩ := Prod.mk.inj (Except.ok.inj hok)
      exact h
    · obtain ⟨⟨val, tuples⟩, -, hok⟩ := Except.bind_eq_ok_iff.mp hok
      obtain ⟨rfl, -⟩ := Prod.mk.inj (Except.ok.inj hok)
      exact h.congr rfl rfl

/-- A call leaves an operator that is ready for the next one. -/
theorem Ready.process {ts : FoundSet} (h : self.Ready) {evalFunc : List (List Str) → Option (List (List Str))}
    {now : Int} {handedOn : Bool} (hok : self.process evalFunc now ts.toTupleSet = .ok (self', ts', handedOn)) :
    self'.Ready := by
  rw [EvalOperator.process] at hok
  obtain ⟨ope, hope, hok⟩ := Except.bind_eq_ok_iff.mp hok
  have hready := (initialized_of_eq_ok h ts.nonempty ts.index hope).ready
  simp only at hok
  split at hok
  · obtain ⟨rfl, -⟩ := Prod.mk.inj (Except.ok.inj hok)
    exact hready
  · split at hok
    · obtain ⟨rfl, -⟩ := Prod.mk.inj (Except.ok.inj hok)
      exact hready
    · obtain ⟨⟨ope', ts₁⟩, happend, hok⟩ := Except.bind_eq_ok_iff.mp hok
      obtain ⟨rfl, -⟩ := Prod.mk.inj (Except.ok.inj hok)
      exact hready.appendReturnValue happend

end Run

end EvalOperator

/-- An operator in any state its calls leave it in. -/
structure ReadyOperator extends EvalOperator where
  ready : toEvalOperator.Ready

namespace ReadyOperator

open EvalOperator Run

/-- The operator for a call in a query. -/
def ofNew (ope : EvalOperator) (h : ope.argProcList = []) : ReadyOperator :=
  ⟨ope, ready_of_argProcList_eq_nil h⟩

/-- What a call with a set of the input leaves of an operator. -/
def call (evalFunc : List (List Str) → Option (List (List Str))) (ope : EvalOperator) (input : Int × FoundSet) :
    Except Failure EvalOperator :=
  (ope.process evalFunc input.1 input.2.toTupleSet).map (·.1)

/-- The operator that is made for a call in a query is ready, and so is what
the sets of the input leave of it, whichever function it calls. -/
theorem ready_of_run {readConfigFile : Str → Str} {argument : Str} {new ope : EvalOperator}
    {evalFunc : List (List Str) → Option (List (List Str))} {inputs : List (Int × FoundSet)}
    (hnew : checkParameter readConfigFile argument = .ok (some new))
    (hrun : run (call evalFunc) new inputs = .ok ope) : ope.Ready := by
  refine run_invariant (P := EvalOperator.Ready) (fun ope input ope' hready hcall => ?_) ?_ hrun
  · obtain ⟨⟨ope'', ts', handedOn⟩, hprocess, rfl⟩ := Except.map_eq_ok_iff.mp hcall
    exact hready.process hprocess
  · obtain ⟨call, -, hnew⟩ := Except.bind_eq_ok_iff.mp hnew
    obtain ⟨args, -, hnew⟩ := Except.bind_eq_ok_iff.mp hnew
    refine ready_of_argProcList_eq_nil ?_
    split at hnew
    · cases hnew
    · dsimp only at hnew
      split at hnew
      · cases hnew
        rfl
      · cases hnew

/-- The rows are kept just where the places lead to the arguments, each row of results fits the
types and is read, and the last tuple is as new as each of the others. -/
theorem keepsRows_iff_meets (ope : ReadyOperator) (f : UserFunction) (now : Int) (ts : FoundSet) :
    ope.KeepsRows f now ts.toTupleSet ↔ ope.Meets f now ts.toTupleSet := by
  by_cases hnil : ts.tuples = []
  · exact keepsRows_iff_of_nil hnil
  · exact keepsRows_iff_of_ne_nil ope.ready hnil

/-- A function of one column that gives the same number for each row. -/
def single : EvalOperator where
  functionName := "F".toList
  parameter := "f(a)".toList
  args := ["a".toList]
  retTypeStr := "int".toList
  retNameStr := []
  names := .inl rfl

def constant : UserFunction where
  eval argList := argList.map fun _ => ["1".toList]
  rows _ := List.length_map _

def oneColumn : Schema where
  tablename := "t".toList
  attributes := [{ name := "a".toList, type := "int".toList }]
  colNameIdxMap := [("a".toList, 0)]

def twoTuples : FoundSet where
  schema := oneColumn
  tuples := [{ columns := [{ timestamp := 5 }] }, { columns := [{ timestamp := 10 }] }]
  aligned := by decide
  index name i h := by
    rw [oneColumn, List.lookup_cons] at h
    split at h
    · obtain rfl := Option.some.inj h
      decide
    · cases h
  nonempty := List.cons_ne_nil _ _

/-- The first tuple's result has the time of the second one. -/
theorem twoTuples_not_keepsRows :
    ¬ ∀ (ope : ReadyOperator) (f : UserFunction) (now : Int) (ts : FoundSet), ope.KeepsRows f now ts.toTupleSet := by
  intro h
  have hne : twoTuples.tuples ≠ [] := List.cons_ne_nil _ _
  have hmeets := (keepsRows_iff_of_ne_nil (ofNew single rfl).ready hne).mp (h (ofNew single rfl) constant 0 twoTuples)
  have hnewest : (5 : Int) = 10 := hmeets.newest _ (List.mem_cons_self ..) 5 rfl
  exact absurd hnewest (by decide)

end ReadyOperator

end IS

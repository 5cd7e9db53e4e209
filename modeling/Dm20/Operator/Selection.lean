import Dm20.Operator.Join

open Collect

namespace IS

open StringUtil

/-- A selection with what it keeps from one call to the next: the conditions, and the number
of attributes of the schema they are made for. -/
structure SelectionOperator where
  argument : Str
  conditions : List Condition := []
  previousAttributeNum : Nat := 0

namespace SelectionOperator

/-- The order the conditions are tested in. `!=` is in the source's list as well, but the
conditions of its statements have the comparator `<>`. -/
def priorityList : List Comparator :=
  [.EQ, .LT, .GT, .LE, .GE, .NE]

def sortConditions (tmp : List Condition) : List Condition :=
  priorityList.flatMap fun c => tmp.filter fun cond => decide (cond.cond = some c)

/-- The condition of a statement. `some none` is a statement that is not understood, `none`
an exception. -/
def statement (schema : Schema) (now : Int64) (state : Str) : Option (Option Condition) :=
  (Condition.getCondition schema (deleteSpace state) {} now).map fun (understood, cond) =>
    if understood then some cond else none

/-- The conditions of the statements in their order, up to one that is not understood. -/
def statements (argument : Str) (schema : Schema) (now : Int64) : Option (Bool × List Condition) :=
  collect (statement schema now) (split argument " AND ".toList)

/-- Whether the conditions are made anew for a schema. -/
def Rebuilds (ope : SelectionOperator) (schema : Schema) : Prop :=
  ope.conditions.length = 0 ∨ ope.previousAttributeNum ≠ schema.getAttributeSize

instance (ope : SelectionOperator) (schema : Schema) : Decidable (ope.Rebuilds schema) :=
  inferInstanceAs (Decidable (_ ∨ _))

/-- Makes the conditions. Where a statement is not understood there are none. -/
def setParam (ope : SelectionOperator) (schema : Schema) (now : Int64) : Option (Bool × SelectionOperator) :=
  (statements ope.argument schema now).map fun (ok, tmp) =>
    (ok,
      { ope with
        conditions := if ok then sortConditions tmp else []
        previousAttributeNum := schema.getAttributeSize })

/-- Whether a condition holds of a tuple, and the values read last. -/
def matchCondition (t : Tuple) (cond : Condition) (vals : Any × Any) : Bool × Any × Any :=
  let val := t.readByIdx cond.fieldIdx vals.1
  if cond.valuePosition ≠ .nothing then (cond.isMatchCondition val, val, vals.2)
  else
    let val2 := t.readByIdx cond.fieldIdx2 vals.2
    (cond.isMatchCondition2 val val2, val, val2)

/-- Whether all conditions hold of a tuple; those behind one that does not are not looked at. -/
def matchConditions (t : Tuple) : List Condition → Any × Any → Bool × Any × Any
  | [], vals => (true, vals)
  | cond :: conds, vals =>
    match matchCondition t cond vals with
    | (true, vals) => matchConditions t conds vals
    | (false, vals) => (false, vals)

/-- The tuples all conditions hold of, looked at one after the other. -/
def selectTuples (conditions : List Condition) : List Tuple → Any × Any → List Tuple
  | [], _ => []
  | t :: tuples, vals =>
    let (matched, vals) := matchConditions t conditions vals
    if matched then t :: selectTuples conditions tuples vals else selectTuples conditions tuples vals

/-- Hands on the tuples of a set. Without a result the call returned false; `none` is an
exception, which ends the process. -/
def process (ope : SelectionOperator) (now : Int64) (ts : TupleSet) :
    Option (SelectionOperator × Option TupleSet) :=
  if ts.size = 0 then some (ope, some ts)
  else
    match (if ope.Rebuilds ts.schema then ope.setParam ts.schema now else some (true, ope)) with
    | none => none
    | some (false, ope) => some (ope, none)
    | some (true, ope) =>
      some (ope, some { ts with tuples := selectTuples ope.conditions ts.tuples (.void, .void), fromOperator := 0 })

/-- The calls of an operator, one after the other. -/
def calls (ope : SelectionOperator) : List (Int64 × TupleSet) → Option (SelectionOperator × List (Option TupleSet))
  | [] => some (ope, [])
  | (now, ts) :: rest => do
    let (ope, result) ← ope.process now ts
    let (ope, results) ← ope.calls rest
    return (ope, result :: results)

/-- Sorting leaves out only the conditions without a comparator. -/
private theorem mem_sortConditions {cond : Condition} {tmp : List Condition} :
    cond ∈ sortConditions tmp ↔ cond ∈ tmp ∧ cond.cond ≠ none := by
  rw [sortConditions, List.mem_flatMap]
  constructor
  · rintro ⟨c, -, hcond⟩
    obtain ⟨hmem, hc⟩ := List.mem_filter.mp hcond
    exact ⟨hmem, by rw [of_decide_eq_true hc]; exact Option.some_ne_none c⟩
  · rintro ⟨hmem, hne⟩
    obtain ⟨c, hc⟩ := Option.ne_none_iff_exists'.mp hne
    refine ⟨c, ?_, List.mem_filter.mpr ⟨hmem, decide_eq_true hc⟩⟩
    cases c <;> decide

/-- A condition between a column of a tuple and a literal. -/
def OnColumn (t : Tuple) (cond : Condition) : Prop :=
  cond.valuePosition ≠ .nothing ∧ 0 ≤ cond.fieldIdx ∧ cond.fieldIdx.toNat < t.size

/-- Whether a condition holds of the value of its column. -/
def holds (t : Tuple) (cond : Condition) : Bool :=
  cond.isMatchCondition ((t.getValueByIdx cond.fieldIdx.toNat).getD .void)

/-- A condition on a column is matched by the value at its place. -/
private theorem matchCondition_eq {t : Tuple} {cond : Condition} (h : OnColumn t cond) (vals : Any × Any) :
    matchCondition t cond vals =
      (holds t cond, (t.getValueByIdx cond.fieldIdx.toNat).getD .void, vals.2) := by
  obtain ⟨hposition, hidx, hsize⟩ := h
  have hlt : cond.fieldIdx.toNat < t.columns.length := hsize
  have hvalue : t.getValueByIdx cond.fieldIdx.toNat = some t.columns[cond.fieldIdx.toNat].value := by
    rw [Tuple.getValueByIdx, List.getElem?_eq_getElem hsize]
    rfl
  rw [matchCondition, if_pos hposition, Tuple.readByIdx, if_pos hidx, holds, hvalue]
  rfl

/-- The conditions match a tuple if all of them hold of it. -/
private theorem matchConditions_fst {t : Tuple} {conds : List Condition} (h : ∀ cond ∈ conds, OnColumn t cond)
    (vals : Any × Any) : (matchConditions t conds vals).1 = conds.all (holds t) := by
  induction conds generalizing vals with
  | nil => rfl
  | cons cond conds ih =>
    obtain ⟨hcond, hconds⟩ := List.forall_mem_cons.mp h
    rw [matchConditions, matchCondition_eq hcond, List.all_cons]
    cases hholds : holds t cond with
    | true => exact ih hconds _
    | false => rfl

/-- The tuples that are handed on are those all conditions hold of. -/
theorem selectTuples_eq {conds : List Condition} {tuples : List Tuple}
    (h : ∀ t ∈ tuples, ∀ cond ∈ conds, OnColumn t cond) (vals : Any × Any) :
    selectTuples conds tuples vals = tuples.filter fun t => conds.all (holds t) := by
  induction tuples generalizing vals with
  | nil => rfl
  | cons t tuples ih =>
    obtain ⟨ht, htuples⟩ := List.forall_mem_cons.mp h
    have hmatched := matchConditions_fst ht vals
    rw [selectTuples, List.filter_cons, ← hmatched]
    simp only [ih htuples]

/-- Conditions that mean the same as a property of the tuples of a schema. -/
structure Expresses (schema : Schema) (meaning : Tuple → Prop) (conds : List Condition) : Prop where
  compared : ∀ cond ∈ conds, cond.cond ≠ none
  onColumn : ∀ t : Tuple, t.size = schema.getAttributeSize → ∀ cond ∈ conds, OnColumn t cond
  holds_iff : ∀ t : Tuple, t.size = schema.getAttributeSize → (conds.all (holds t) = true ↔ meaning t)

/-- The order in which the conditions are tried does not change what they express. -/
theorem Expresses.sorted {schema : Schema} {meaning : Tuple → Prop} {conds : List Condition}
    (h : Expresses schema meaning conds) : Expresses schema meaning (sortConditions conds) where
  compared := fun cond hcond => (mem_sortConditions.mp hcond).2
  onColumn := fun t ht cond hcond => h.onColumn t ht cond (mem_sortConditions.mp hcond).1
  holds_iff := fun t ht => by
    rw [← h.holds_iff t ht, List.all_eq_true, List.all_eq_true]
    constructor
    · exact fun hall cond hcond => hall cond (mem_sortConditions.mpr ⟨hcond, h.compared cond hcond⟩)
    · exact fun hall cond hcond => hall cond (mem_sortConditions.mp hcond).1

/-- A set of tuples with a column for each attribute of a schema. -/
structure OfSchema (schema : Schema) (ts : TupleSet) : Prop where
  schema_eq : ts.schema = schema
  aligned : ∀ t ∈ ts.tuples, t.size = schema.getAttributeSize

open Classical in
/-- A call hands on the tuples of its set that have a property, in their order. -/
def Selects (meaning : Tuple → Prop) (ts : TupleSet) (result : Option TupleSet) : Prop :=
  ∃ ts', result = some ts' ∧ ts'.schema = ts.schema ∧ ts'.tuples = ts.tuples.filter fun t => decide (meaning t)

/-- A selection depends on the meaning of the condition at the tuples of the set only. -/
theorem Selects.congr {meaning meaning' : Tuple → Prop} {ts : TupleSet} {result : Option TupleSet}
    (h : Selects meaning ts result) (hsame : ∀ t ∈ ts.tuples, (meaning t ↔ meaning' t)) :
    Selects meaning' ts result := by
  obtain ⟨ts', rfl, hschema, htuples⟩ := h
  refine ⟨ts', rfl, hschema, ?_⟩
  rw [htuples]
  exact List.filter_congr fun t ht => decide_eq_decide.mpr (hsame t ht)

/-- Where the meaning can be decided, the tuples that are selected are those it filters. -/
theorem Selects.tuples_eq {meaning : Tuple → Prop} {ts out : TupleSet} (h : Selects meaning ts (some out))
    {keep : Tuple → Bool} (hkeep : ∀ t ∈ ts.tuples, keep t = true ↔ meaning t) :
    out.tuples = ts.tuples.filter keep := by
  obtain ⟨ts', hout, -, htuples⟩ := h
  obtain rfl := Option.some.inj hout
  rw [htuples]
  refine List.filter_congr fun t ht => ?_
  rw [Bool.eq_iff_iff, hkeep t ht]
  simp

/-- An operator without conditions, or with such as mean the property. -/
structure Ready (argument : Str) (schema : Schema) (meaning : Tuple → Prop) (ope : SelectionOperator) : Prop where
  argument : ope.argument = argument
  conditions : ¬ ope.Rebuilds schema → Expresses schema meaning ope.conditions

section Calls

variable {argument : Str} {schema : Schema} {meaning : Tuple → Prop}

/-- A new operator has no conditions yet, and makes them of its argument at the first set. -/
theorem ready_new (argument : Str) (schema : Schema) (meaning : Tuple → Prop) :
    Ready argument schema meaning { argument } where
  argument := rfl
  conditions := fun hnot => absurd (.inl rfl) hnot

private theorem selects_selectTuples {conds : List Condition} (h : Expresses schema meaning conds) {ts : TupleSet}
    (hts : OfSchema schema ts) (vals : Any × Any) : Selects meaning ts
      (some { ts with tuples := selectTuples conds ts.tuples vals, fromOperator := 0 }) := by
  refine ⟨_, rfl, rfl, ?_⟩
  change selectTuples conds ts.tuples vals = _
  rw [selectTuples_eq fun t ht => h.onColumn t (hts.aligned t ht)]
  refine List.filter_congr fun t ht => ?_
  rw [Bool.eq_iff_iff, h.holds_iff t (hts.aligned t ht)]
  simp

/-- A call of an operator whose statements give conditions that mean a property. -/
theorem process_eq_some (h : ∀ now, ∃ conds, statements argument schema now = some (true, conds) ∧
      Expresses schema meaning conds) {ope : SelectionOperator} (hready : Ready argument schema meaning ope)
    {ts : TupleSet} (hts : OfSchema schema ts) (now : Int64) : ∃ ope' result, ope.process now ts = some (ope', result) ∧
      Ready argument schema meaning ope' ∧ Selects meaning ts result := by
  by_cases hempty : ts.size = 0
  · refine ⟨ope, some ts, if_pos hempty, hready, ts, rfl, rfl, ?_⟩
    rw [List.length_eq_zero_iff.mp hempty]
    rfl
  · obtain rfl := hts.schema_eq
    rw [process, if_neg hempty]
    by_cases hrebuilds : ope.Rebuilds ts.schema
    · obtain ⟨conds, hstatements, hexpresses⟩ := h now
      have hnew : ope.setParam ts.schema now = some (true, { ope with
          conditions := sortConditions conds
          previousAttributeNum := ts.schema.getAttributeSize }) := by
        rw [setParam, hready.argument, hstatements]
        rfl
      rw [if_pos hrebuilds, hnew]
      exact ⟨_, _, rfl, ⟨hready.argument, fun _ => hexpresses.sorted⟩,
        selects_selectTuples hexpresses.sorted hts _⟩
    · rw [if_neg hrebuilds]
      exact ⟨ope, _, rfl, hready, selects_selectTuples (hready.conditions hrebuilds) hts _⟩

/-- Each of its calls hands on the tuples with the property. -/
theorem calls_eq_some (h : ∀ now, ∃ conds, statements argument schema now = some (true, conds) ∧
      Expresses schema meaning conds) {ope : SelectionOperator} (hready : Ready argument schema meaning ope)
    {sets : List (Int64 × TupleSet)} (hsets : ∀ call ∈ sets, OfSchema schema call.2) :
    ∃ ope' results, ope.calls sets = some (ope', results) ∧
      List.Forall₂ (fun call result => Selects meaning call.2 result) sets results := by
  induction sets generalizing ope with
  | nil => exact ⟨ope, [], rfl, .nil⟩
  | cons call sets ih =>
    obtain ⟨hcall, hrest⟩ := List.forall_mem_cons.mp hsets
    obtain ⟨ope', result, hprocess, hready', hselects⟩ := process_eq_some h hready hcall call.1
    obtain ⟨ope'', results, hcalls, hall⟩ := ih hready' hrest
    refine ⟨ope'', result :: results, ?_, .cons hselects hall⟩
    simp only [calls, hprocess, hcalls, bind, Option.bind, pure]

end Calls

end SelectionOperator

end IS

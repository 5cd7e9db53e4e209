import Mathlib.Data.List.MinMax
import Dm20.TupleLib.Schema

namespace IS

/-- One column of a tuple: its value, its timestamp in milliseconds and its null flag. -/
structure Column where
  value : Any := .void
  timestamp : Int := 0
  isNull : Bool := false
deriving Inhabited

/-- A row of a stream. The source keeps the values, the timestamps and the null
flags in three vectors of one length. -/
structure Tuple where
  columns : List Column
  recvTime : Int := 0
deriving Inhabited

namespace Tuple

def size (t : Tuple) : Nat :=
  t.columns.length

def setRecvTime (t : Tuple) (time : Int) : Tuple :=
  { t with recvTime := time }

/-- Sets a column; an index outside the tuple changes nothing. -/
def setValue (t : Tuple) (index : Int) (val : Any) (timestamp : Int) (isnull : Bool) : Tuple :=
  if 0 ≤ index ∧ index < t.size then
    { t with columns := t.columns.set index.toNat { value := val, timestamp, isNull := isnull } }
  else t

/-- The value of a column, if there is one. -/
def getValueByIdx (t : Tuple) (idx : Nat) : Option Any :=
  t.columns[idx]?.map Column.value

/-- The newest of the column timestamps. -/
def getNewestTimestamp (t : Tuple) : Int :=
  (t.columns.map Column.timestamp).max?.getD 0

/-- The timestamp of the first column. -/
def getTimestamp (t : Tuple) : Int :=
  (t.columns.head?.map Column.timestamp).getD 0

/-- Whether no visible column is as old as the given time. -/
def checkTimestamp (t : Tuple) (time : Int) (schema : Schema) : Bool :=
  t.columns.zipIdx.all fun (c, i) =>
    !(decide (c.timestamp ≤ time) && (schema.getAttribute i).hidden == false)

@[simp] theorem setRecvTime_recvTime (t : Tuple) (time : Int) : (t.setRecvTime time).recvTime = time := rfl

@[simp] theorem setValue_recvTime (t : Tuple) (index : Int) (val : Any) (timestamp : Int)
    (isnull : Bool) : (t.setValue index val timestamp isnull).recvTime = t.recvTime := by
  unfold setValue
  split <;> rfl

@[simp] theorem setValue_size (t : Tuple) (index : Int) (val : Any) (timestamp : Int)
    (isnull : Bool) : (t.setValue index val timestamp isnull).size = t.size := by
  unfold setValue
  split
  · exact List.length_set
  · rfl

/-- The timestamp check in terms of the visible columns. -/
theorem checkTimestamp_iff (t : Tuple) (time : Int) (schema : Schema) :
    t.checkTimestamp time schema = true ↔
      ∀ i (h : i < t.columns.length), (schema.getAttribute i).hidden = false →
        time < t.columns[i].timestamp := by
  simp only [checkTimestamp, List.all_eq_true, Prod.forall, Bool.not_eq_true', Bool.and_eq_false_iff,
    decide_eq_false_iff_not, Int.not_le, beq_eq_false_iff_ne, ne_eq, List.mem_zipIdx_iff_getElem?]
  constructor
  · intro h i hi hvisible
    rcases h t.columns[i] i (List.getElem?_eq_getElem hi) with hnew | hhidden
    · exact hnew
    · exact absurd hvisible hhidden
  · intro h c i hc
    obtain ⟨hi, rfl⟩ := List.getElem?_eq_some_iff.mp hc
    by_cases hvisible : (schema.getAttribute i).hidden = false
    · exact Or.inl (h i hi hvisible)
    · exact Or.inr hvisible

end Tuple

end IS

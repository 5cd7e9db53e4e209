import Dm20.TupleLib.Tuple

namespace IS

/-- How the tuples of a set came about. -/
inductive OccurrenceType where
  | master
  | self
  | pull
deriving DecidableEq, Repr

/-- `fromOperator` tells which operator handed the set on. -/
structure TupleSet where
  schema : Schema := {}
  tuples : List Tuple := []
  type : OccurrenceType := .self
  recvTime : Int := 0
  isRecursive : Bool := false
  fromOperator : Nat := 0

namespace TupleSet

def SetSchema (ts : TupleSet) (schema : Schema) : TupleSet :=
  { ts with schema }

def size (ts : TupleSet) : Nat :=
  ts.tuples.length

end TupleSet

end IS

import Mathlib.Data.List.ReduceOption
import Mathlib.Logic.Function.Basic
import Mathlib.Logic.Relation
import Dm20.Lib.Transducer
import Dm20.TupleLib.TupleSet

open Relation Transducer

namespace IS

namespace Operator

/-- A call that another thread makes: it hands a set in, requests data of an operator without
parents, or ends the operator. -/
inductive Call where
  | receiveTupleSet (ts : TupleSet)
  | requestData
  | exit

/-- How far a call has come. The steps of `notify_one` are steps of their own, since it does not
take the mutex that the thread of the operator waits with. -/
inductive Caller where
  | idle
  | calling (call : Call)
  | testing
  | setting
  | notifying

/-- Where the thread of an operator is in `execute`. It is `dozing` after it has found too few
sets and before it waits. -/
inductive Place where
  | loop
  | resetting
  | testingReady
  | testingExit
  | testingSize
  | dozing
  | waiting
  | awake
  | fetching
  | processing (ts : List TupleSet)
  | processed (result : Option TupleSet)
  | firing (result : TupleSet)
  | exited

/-- A class of operators: how many sets it needs, and what `process` may make of some with its
state. Without a result it returned false. -/
structure Program (σ : Type) where
  expect_data_size : Nat
  process : σ → List TupleSet → σ → Option TupleSet → Prop

/-- What `process` does where a class of operators has none of its own. -/
def plain : Program Unit where
  expect_data_size := 1
  process _ ts _ result := result = ts.head?

/-- The sets that the thread of an operator takes from its buffer, and those that stay there. -/
def getTupleSet (expect_data_size : Nat) (ts : List TupleSet) : List TupleSet → List TupleSet × List TupleSet
  | [] => (ts, [])
  | front :: buffer =>
    if (ts ++ [front]).length = expect_data_size then (ts ++ [front], buffer)
    else getTupleSet expect_data_size (ts ++ [front]) buffer

/-- Whether the sets in the buffer are enough to go on. -/
def Enough (expect_data_size : Nat) (buffer : List TupleSet) : Prop :=
  (expect_data_size = 0 ∧ buffer.length > 0) ∨ (expect_data_size ≠ 0 ∧ buffer.length ≥ expect_data_size)

instance (expect_data_size : Nat) (buffer : List TupleSet) : Decidable (Enough expect_data_size buffer) :=
  inferInstanceAs (Decidable (_ ∨ _))

/-- An operator with its thread and the calls of other threads. What it has received, processed and
fired so far is noted, and whether a notification came after its thread had tested whether data is
ready, and before it waited. -/
structure State (σ T : Type) where
  ope : σ
  buffer : List TupleSet := []
  data_ready : Bool := false
  exit_flag : Bool := false
  place : Place := .loop
  caller : T → Caller := fun _ => .idle
  received : List TupleSet := []
  handed : List (List TupleSet) := []
  results : List (Option TupleSet) := []
  fired : List TupleSet := []
  missed : Bool := false

/-- Where the thread goes when it only reads the flags, or waits. -/
def Place.next (data_ready exit_flag : Bool) : Place → Option Place
  | .loop => some (if exit_flag then .exited else .resetting)
  | .testingReady => some (if data_ready then .awake else .testingExit)
  | .testingExit => some (if exit_flag then .awake else .testingSize)
  | .dozing => some .waiting
  | .awake => some (if exit_flag then .exited else .fetching)
  | .processed none => some .loop
  | .processed (some _) => if exit_flag then some .loop else none
  | _ => none

/-- The places where a notification does not reach the thread. -/
def Place.deaf : Place → Bool
  | .testingExit | .testingSize | .dozing => true
  | _ => false

variable {σ T : Type}

/-- A step of the thread of an operator inside `execute`. -/
inductive Work (p : Program σ) : State σ T → State σ T → Prop where
  | move {s} (place : Place) (hnext : s.place.next s.data_ready s.exit_flag = some place) : Work p s
      { s with
        place
        missed := s.place.deaf && s.missed }
  | reset {s} (hplace : s.place = .resetting) : Work p s { s with data_ready := false, place := .testingReady }
  | enough {s} (hplace : s.place = .testingSize) (henough : Enough p.expect_data_size s.buffer) :
      Work p s { s with place := .awake }
  | short {s} (hplace : s.place = .testingSize) (hshort : ¬ Enough p.expect_data_size s.buffer) :
      Work p s { s with place := .dozing }
  | fetch {s} (ts buffer : List TupleSet) (hplace : s.place = .fetching)
      (hget : getTupleSet p.expect_data_size [] s.buffer = (ts, buffer)) :
      Work p s { s with buffer, place := if ts = [] then .loop else .processing ts }
  | process {s} (ts : List TupleSet) (ope : σ) (result : Option TupleSet) (hplace : s.place = .processing ts)
      (hprocess : p.process s.ope ts ope result) :
      Work p s { s with
        ope
        place := .processed result
        handed := s.handed ++ [ts]
        results := s.results ++ [result] }

/-- The thread begins to hand a result on. -/
inductive BeginFire : State σ T → State σ T → Prop where
  | mk {s} (result : TupleSet) (hplace : s.place = .processed (some result)) (hexit : s.exit_flag = false) :
      BeginFire s { s with place := .firing result, fired := s.fired ++ [result] }

inductive EndFire : State σ T → State σ T → Prop where
  | mk {s} (result : TupleSet) (hplace : s.place = .firing result) : EndFire s { s with place := .loop }

/-- A set that is not refused. -/
def Known (ts : TupleSet) : Prop :=
  ts.schema.tablename ≠ Schema.UNKNOWN

instance : DecidablePred Known := fun ts => inferInstanceAs (Decidable (ts.schema.tablename ≠ Schema.UNKNOWN))

/-- What a call does before it notifies the thread. -/
def Call.apply (s : State σ T) : Call → State σ T
  | .receiveTupleSet ts =>
    if Known ts then { s with buffer := s.buffer ++ [ts], received := s.received ++ [ts] } else s
  | .requestData => s
  | .exit => { s with exit_flag := true }

def State.setCaller [DecidableEq T] (s : State σ T) (t : T) (caller : Caller) : State σ T :=
  { s with caller := Function.update s.caller t caller }

@[simp] theorem State.caller_setCaller_self [DecidableEq T] (s : State σ T) (t : T) (caller : Caller) :
    (s.setCaller t caller).caller t = caller :=
  Function.update_self _ _ _

theorem State.caller_setCaller_of_ne [DecidableEq T] (s : State σ T) {t u : T} (h : u ≠ t) (caller : Caller) :
    (s.setCaller t caller).caller u = s.caller u :=
  Function.update_of_ne h _ _

/-- The thread is woken where it waits. -/
def State.notify_one (s : State σ T) : State σ T :=
  { s with
    place :=
      match s.place with
      | .waiting => .testingReady
      | place => place
    missed := s.place.deaf || s.missed }

/-- A step of another thread in its call. -/
inductive Calls [DecidableEq T] (t : T) : State σ T → State σ T → Prop where
  | apply {s} (call : Call) (hcaller : s.caller t = .calling call) : Calls t s ((call.apply s).setCaller t .testing)
  | test {s} (hcaller : s.caller t = .testing) :
      Calls t s (s.setCaller t (if s.data_ready = false then .setting else .notifying))
  | set {s} (hcaller : s.caller t = .setting) : Calls t s ({ s with data_ready := true }.setCaller t .notifying)
  | notify {s} (hcaller : s.caller t = .notifying) : Calls t s (s.notify_one.setCaller t .idle)

/-- The steps of an operator whose callers call it as they like. Its thread may be woken though it
was not notified. -/
inductive Next [DecidableEq T] (p : Program σ) : State σ T → State σ T → Prop where
  | work {s s'} (h : Work p s s') : Next p s s'
  | beginFire {s s'} (h : BeginFire s s') : Next p s s'
  | endFire {s s'} (h : EndFire s s') : Next p s s'
  | wake {s} (hplace : s.place = .waiting) : Next p s { s with place := .testingReady }
  | call {s} (t : T) (call : Call) (hidle : s.caller t = .idle) : Next p s (s.setCaller t (.calling call))
  | calls {s s'} (t : T) (h : Calls t s s') : Next p s s'

def Reachable [DecidableEq T] (p : Program σ) (ope : σ) : State σ T → Prop :=
  ReflTransGen (Next p) { ope }

end Operator

end IS

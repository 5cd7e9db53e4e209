import Mathlib.Logic.Function.Basic
import Dm20.Lib.AssocList
import Dm20.Lib.Run

namespace IS

namespace QueryManager

/-- A thread that can call `cancelQuery`: the one that runs a query, or another one. -/
inductive Thread where
  | run (mngId : Nat)
  | other (n : Nat)
deriving DecidableEq, Repr

/-- How far `addQuery` has come for a management number. -/
inductive AddPhase where
  | none
  | started (continuous startupMode : Bool)
  | inserted (continuous : Bool)
deriving DecidableEq, Repr

/-- How far `run` has come: inside `runForNearBy`, or past the point where the
exit flag is set and in the cancellation that follows an error. -/
inductive RunPhase where
  | none
  | running
  | nearBy
  | failed
  | exited
deriving DecidableEq, Repr

/-- How far a call of `cancelQuery` has come: it waits for the mutex of the map,
or it holds it and polls the exit flag of the executer it has found. -/
inductive CancelPhase where
  | idle
  | waiting (mngId : Nat)
  | polling (mngId : Nat)
deriving DecidableEq, Repr

/-- How `run` goes on from the analysis of its query: to its end, with an error
that it notices, with an exception that it catches, or into `runForNearBy` for a
task that is already there. -/
inductive Outcome where
  | ok
  | isErr
  | exception
  | taskExists
deriving DecidableEq, Repr

/-- The manager with its map and the mutex of it, and the threads at work. Of an
executer there are its exit flag and how often it has been stopped. The last two
fields keep the queries whose run ended with an error and those that
`cancelQuery` was called for. -/
structure State where
  mp : List (Nat × Bool) := []
  QImapMtx : Option Thread := none
  adding : Nat → AddPhase := fun _ => .none
  run : Nat → RunPhase := fun _ => .none
  isExitRun : Nat → Bool := fun _ => false
  cancelling : Thread → CancelPhase := fun _ => .idle
  exitExecuter : Nat → Nat := fun _ => 0
  answers : List (Thread × Bool) := []
  failed : List Nat := []
  cancelled : List Nat := []

inductive Act where
  | addQuery (mngId : Nat) (continuous startupMode : Bool)
  | insert (mngId : Nat)
  | run (mngId : Nat) (outcome : Outcome)
  | resume (mngId : Nat)
  | cancelQuery (n mngId : Nat)
  | lock (t : Thread)
  | poll (t : Thread)
deriving DecidableEq, Repr

def State.setRun (s : State) (mngId : Nat) (phase : RunPhase) : State :=
  { s with run := Function.update s.run mngId phase }

def State.setExitRun (s : State) (mngId : Nat) : State :=
  { s with isExitRun := Function.update s.isExitRun mngId true }

def State.setCancelling (s : State) (t : Thread) (phase : CancelPhase) : State :=
  { s with cancelling := Function.update s.cancelling t phase }

/-- `cancelQuery` releases the mutex and returns. -/
def State.answer (s : State) (t : Thread) (ret : Bool) : State :=
  { s.setCancelling t .idle with QImapMtx := none, answers := s.answers ++ [(t, ret)] }

/-- A run goes on. In each way to its end but the one with an error noticed, the
flag is set and nothing else is done. -/
def State.goOn (s : State) (mngId : Nat) : Outcome → State
  | .ok => (s.setExitRun mngId).setRun mngId .exited
  | .isErr =>
    let s := ((s.setExitRun mngId).setRun mngId .failed).setCancelling (.run mngId) (.waiting mngId)
    { s with failed := mngId :: s.failed }
  | .exception =>
    let s := (s.setExitRun mngId).setRun mngId .exited
    { s with failed := mngId :: s.failed }
  | .taskExists => (s.setRun mngId .nearBy).setCancelling (.run mngId) (.waiting mngId)

/-- The first part of `cancelQuery`, under the mutex: a query that is not in the
map is answered with false, one that is not continuous with true. -/
def State.lookUp (s : State) (t : Thread) (mngId : Nat) : State :=
  let s := if s.adding mngId = .none then s else { s with cancelled := mngId :: s.cancelled }
  match s.mp.lookup mngId with
  | none => s.answer t false
  | some false => s.answer t true
  | some true => { s.setCancelling t (.polling mngId) with QImapMtx := some t }

/-- The second part: where the flag is set the executer is stopped, deleted and
erased from the map. -/
def State.exitAndErase (s : State) (t : Thread) (mngId : Nat) : State :=
  { s with
    exitExecuter := Function.update s.exitExecuter mngId (s.exitExecuter mngId + 1)
    mp := s.mp.filter fun p => decide (p.1 ≠ mngId) }.answer t true

/-- One step of a thread, where it is enabled. -/
def step (s : State) : Act → Except Unit State
  | .addQuery mngId continuous startupMode =>
    if s.adding mngId = .none then
      .ok { s.setRun mngId .running with
        adding := Function.update s.adding mngId (.started continuous startupMode) }
    else .error ()
  | .insert mngId =>
    match s.adding mngId with
    | .started continuous startupMode =>
      if s.QImapMtx = none ∧ (startupMode = true → s.run mngId = .exited) then
        .ok { s with
          mp := s.mp ++ [(mngId, continuous)]
          adding := Function.update s.adding mngId (.inserted continuous) }
      else .error ()
    | _ => .error ()
  | .run mngId outcome =>
    if s.run mngId = .running then .ok (s.goOn mngId outcome) else .error ()
  | .resume mngId =>
    if s.cancelling (.run mngId) = .idle then
      match s.run mngId with
      | .nearBy => .ok ((s.setExitRun mngId).setRun mngId .exited)
      | .failed => .ok (s.setRun mngId .exited)
      | _ => .error ()
    else .error ()
  | .cancelQuery n mngId =>
    if s.cancelling (.other n) = .idle then .ok (s.setCancelling (.other n) (.waiting mngId)) else .error ()
  | .lock t =>
    match s.cancelling t with
    | .waiting mngId => if s.QImapMtx = none then .ok (s.lookUp t mngId) else .error ()
    | _ => .error ()
  | .poll t =>
    match s.cancelling t with
    | .polling mngId => if s.isExitRun mngId then .ok (s.exitAndErase t mngId) else .ok s
    | _ => .error ()

/-- No thread waits for an exit flag that it would set itself. -/
def NoSelfWait (s : State) : Prop :=
  ∀ mngId, s.cancelling (.run mngId) = .polling mngId → s.isExitRun mngId = true

/-- All calls have returned and all runs have ended. -/
structure Finished (s : State) : Prop where
  added : ∀ mngId, s.adding mngId = .none ∨ ∃ continuous, s.adding mngId = .inserted continuous
  exited : ∀ mngId, s.run mngId = .none ∨ s.run mngId = .exited
  returned : ∀ t, s.cancelling t = .idle

/-- The map and the executers agree: no thread waits for itself, no executer is
stopped twice, and when all is done the queries that failed or were cancelled
are out of the map and stopped. -/
structure Agree (s : State) : Prop where
  noSelfWait : NoSelfWait s
  atMostOnce : ∀ mngId, s.exitExecuter mngId ≤ 1
  removed : Finished s → ∀ mngId, mngId ∈ s.failed ∨ mngId ∈ s.cancelled →
    s.mp.lookup mngId = none ∧ s.exitExecuter mngId = 1

/-- The steps that keep the agreement: no run ends by an exception or cancels
itself midway, and a query is looked up for its cancellation where it is
inserted, as a continuous one (or not even started). -/
def Orderly (s : State) : Act → Prop
  | .run _ .exception => False
  | .run _ .taskExists => False
  | .lock t => ∀ mngId, s.cancelling t = .waiting mngId →
    s.adding mngId = .none ∨ s.adding mngId = .inserted true
  | _ => True

end QueryManager

end IS

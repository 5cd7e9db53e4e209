import Mathlib.Logic.Function.Basic
import Mathlib.Logic.Relation

/-! Operations on shared data under one mutex with one condition variable. An operation waits in a
loop until it is ready, changes the data, wakes one waiting thread and leaves. -/

namespace Monitor

open Relation

variable {T κ σ : Type}

/-- When an operation need not wait, and what it does. -/
structure Operations (κ σ : Type) where
  ready : κ → σ → Prop
  effect : κ → σ → σ

/-- How far a thread has come. It holds the mutex while it is `testing`, has `changed` the data or is
`leaving`. -/
inductive Phase (κ : Type) where
  | idle
  | locking (call : κ)
  | testing (call : κ)
  | waiting (call : κ)
  | changed
  | leaving

structure State (T κ σ : Type) where
  data : σ
  owner : Option T
  phase : T → Phase κ

def initial (data : σ) : State T κ σ where
  data
  owner := none
  phase _ := .idle

/-- A step of a thread in a call. `wait` gives the mutex back; `notify` wakes any of those that wait. -/
inductive Step [DecidableEq T] (ops : Operations κ σ) (t : T) : State T κ σ → State T κ σ → Prop where
  | lock {s} (call : κ) (hphase : s.phase t = .locking call) (hfree : s.owner = none) :
      Step ops t s { s with owner := some t, phase := Function.update s.phase t (.testing call) }
  | wait {s} (call : κ) (hphase : s.phase t = .testing call) (hready : ¬ ops.ready call s.data) :
      Step ops t s { s with owner := none, phase := Function.update s.phase t (.waiting call) }
  | change {s} (call : κ) (hphase : s.phase t = .testing call) (hready : ops.ready call s.data) :
      Step ops t s { s with data := ops.effect call s.data, phase := Function.update s.phase t .changed }
  | notify {s} (u : T) (call : κ) (hphase : s.phase t = .changed) (hwaiting : s.phase u = .waiting call) :
      Step ops t s
        { s with phase := Function.update (Function.update s.phase t .leaving) u (.locking call) }
  | notifyNone {s} (hphase : s.phase t = .changed) (hnone : ∀ u call, s.phase u ≠ .waiting call) :
      Step ops t s { s with phase := Function.update s.phase t .leaving }
  | unlock {s} (hphase : s.phase t = .leaving) :
      Step ops t s { s with owner := none, phase := Function.update s.phase t .idle }

/-- What comes from outside: a thread makes a call, or is woken though it was not notified. -/
inductive Outside [DecidableEq T] : State T κ σ → State T κ σ → Prop where
  | call {s} (t : T) (call : κ) (hphase : s.phase t = .idle) :
      Outside s { s with phase := Function.update s.phase t (.locking call) }
  | wake {s} (t : T) (call : κ) (hphase : s.phase t = .waiting call) :
      Outside s { s with phase := Function.update s.phase t (.locking call) }

inductive Next [DecidableEq T] (ops : Operations κ σ) : State T κ σ → State T κ σ → Prop where
  | step {s s'} (t : T) (h : Step ops t s s') : Next ops s s'
  | outside {s s'} (h : Outside s s') : Next ops s s'

def Reachable [DecidableEq T] (ops : Operations κ σ) (data : σ) : State T κ σ → Prop :=
  ReflTransGen (Next ops) (initial data)

def Phase.critical : Phase κ → Bool
  | .testing _ | .changed | .leaving => true
  | _ => false

/-- The thread in the critical section is the owner of the mutex. -/
def Exclusive (s : State T κ σ) : Prop :=
  ∀ t, (s.phase t).critical = true ↔ s.owner = some t

variable [DecidableEq T] {ops : Operations κ σ} {s s' : State T κ σ} {t : T}

omit [DecidableEq T] in
/-- At first no thread holds the mutex. -/
theorem exclusive_initial (data : σ) : Exclusive (initial data : State T κ σ) :=
  fun _ => iff_of_false Bool.false_ne_true fun h => by cases h

/-- One thread moves, and the owner stays the same for the others. -/
theorem Exclusive.update (hs : Exclusive s) {new : Phase κ} {owner : Option T} {data : σ}
    (hnew : new.critical = true ↔ owner = some t) (hothers : ∀ u ≠ t, s.owner = some u ↔ owner = some u) :
    Exclusive { data, owner, phase := Function.update s.phase t new } := by
  intro u
  by_cases hu : u = t
  · subst hu
    simp only [Function.update_self]
    exact hnew
  · simp only [Function.update_of_ne hu]
    exact (hs u).trans (hothers u hu)

omit [DecidableEq T] in
/-- A thread in a critical phase is the owner of the mutex. -/
theorem Exclusive.owner_eq (hs : Exclusive s) (h : (s.phase t).critical = true) : s.owner = some t :=
  (hs t).mp h

/-- A thread outside the critical section moves to another place outside. -/
theorem Exclusive.update_outside (hs : Exclusive s) {new : Phase κ} (hnew : new.critical = false)
    (hphase : (s.phase t).critical = false) : Exclusive { s with phase := Function.update s.phase t new } := by
  refine hs.update ?_ fun _ _ => Iff.rfl
  rw [hnew, ← hs t, hphase]

/-- A step of a thread keeps the mutex to one owner. -/
theorem exclusive_step (hs : Exclusive s) (h : Step ops t s s') : Exclusive s' := by
  have hleave : ∀ {u}, (s.phase t).critical = true → u ≠ t → (s.owner = some u ↔ (none : Option T) = some u) := by
    intro u hcritical hu
    rw [hs.owner_eq hcritical, Option.some.injEq]
    exact iff_of_false hu.symm fun h => by cases h
  cases h with
  | lock call hphase hfree =>
    refine hs.update (iff_of_true rfl rfl) fun u hu => ?_
    rw [hfree, Option.some.injEq]
    exact iff_of_false (fun h => by cases h) hu.symm
  | wait call hphase hready =>
    exact hs.update (iff_of_false Bool.false_ne_true fun h => by cases h) fun u => hleave (by rw [hphase]; rfl)
  | change call hphase hready =>
    have howner := hs.owner_eq (t := t) (by rw [hphase]; rfl)
    exact hs.update (iff_of_true rfl howner) fun _ _ => Iff.rfl
  | notify u call hphase hwaiting =>
    have howner := hs.owner_eq (t := t) (by rw [hphase]; rfl)
    have hleaving : Exclusive { s with phase := Function.update s.phase t .leaving } :=
      hs.update (iff_of_true rfl howner) fun _ _ => Iff.rfl
    have hu : u ≠ t := by
      rintro rfl
      rw [hphase] at hwaiting
      cases hwaiting
    refine hleaving.update_outside rfl ?_
    simp only [Function.update_of_ne hu, hwaiting]
    rfl
  | notifyNone hphase hnone =>
    have howner := hs.owner_eq (t := t) (by rw [hphase]; rfl)
    exact hs.update (iff_of_true rfl howner) fun _ _ => Iff.rfl
  | unlock hphase =>
    exact hs.update (iff_of_false Bool.false_ne_true fun h => by cases h) fun u => hleave (by rw [hphase]; rfl)

/-- A step of the system keeps the mutex to one owner. -/
theorem exclusive_next (hs : Exclusive s) (h : Next ops s s') : Exclusive s' := by
  cases h with
  | step t h => exact exclusive_step hs h
  | outside h =>
    cases h with
    | call t call hphase => exact hs.update_outside rfl (by rw [hphase]; rfl)
    | wake t call hphase => exact hs.update_outside rfl (by rw [hphase]; rfl)

/-- Whatever holds at first and is kept by each step holds in every state that is reached. -/
theorem Reachable.induction {data : σ} {P : State T κ σ → Prop} (hinitial : P (initial data))
    (hnext : ∀ s s', P s → Next ops s s' → P s') (h : Reachable ops data s) : P s := by
  induction h with
  | refl => exact hinitial
  | tail _ h ih => exact hnext _ _ ih h

theorem reachable_initial (data : σ) : Reachable ops data (initial data : State T κ σ) :=
  .refl

/-- A step of a thread leads from a reachable state to one. -/
theorem Reachable.step {data : σ} (h : Reachable ops data s) (t : T) (hstep : Step ops t s s') :
    Reachable ops data s' :=
  h.tail (.step t hstep)

theorem Reachable.outside {data : σ} (h : Reachable ops data s) (hstep : Outside s s') : Reachable ops data s' :=
  h.tail (.outside hstep)

/-- The owner of the mutex can always go on. -/
theorem exists_step_of_critical (h : (s.phase t).critical = true) : ∃ s', Step ops t s s' := by
  cases hphase : s.phase t with
  | idle => rw [hphase] at h; cases h
  | locking call => rw [hphase] at h; cases h
  | waiting call => rw [hphase] at h; cases h
  | testing call =>
    by_cases hready : ops.ready call s.data
    · exact ⟨_, .change call hphase hready⟩
    · exact ⟨_, .wait call hphase hready⟩
  | changed =>
    by_cases hwaiting : ∃ u call, s.phase u = .waiting call
    · obtain ⟨u, call, hwaiting⟩ := hwaiting
      exact ⟨_, .notify u call hphase hwaiting⟩
    · exact ⟨_, .notifyNone hphase fun u call hu => hwaiting ⟨u, call, hu⟩⟩
  | leaving => exact ⟨_, .unlock hphase⟩

/-- Where no thread can go on, each is outside a call or waits. -/
theorem idle_or_waiting_of_stuck (hs : Exclusive s) (hstuck : ∀ t s', ¬ Step ops t s s') (t : T) :
    s.phase t = .idle ∨ ∃ call, s.phase t = .waiting call := by
  have hnone : ∀ u, (s.phase u).critical = false := by
    intro u
    by_contra hu
    have hgo : ∃ s', Step ops u s s' := exists_step_of_critical (eq_true_of_ne_false hu)
    obtain ⟨s', h⟩ := hgo
    exact hstuck u s' h
  cases hphase : s.phase t with
  | idle => exact .inl rfl
  | waiting call => exact .inr ⟨call, rfl⟩
  | locking call =>
    cases howner : s.owner with
    | none => exact absurd (.lock call hphase howner) (hstuck t _)
    | some u =>
      have hcritical := (hs u).mpr howner
      rw [hnone u] at hcritical
      cases hcritical
  | testing call =>
    have hcritical := hnone t
    rw [hphase] at hcritical
    cases hcritical
  | changed =>
    have hcritical := hnone t
    rw [hphase] at hcritical
    cases hcritical
  | leaving =>
    have hcritical := hnone t
    rw [hphase] at hcritical
    cases hcritical

end Monitor

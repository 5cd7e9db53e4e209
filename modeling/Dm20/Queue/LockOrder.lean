import Mathlib.Data.Finset.Image
import Dm20.Lib.WaitCycle
import Dm20.Queue.AddTuple

namespace IS

open Relation

/-- Whether a window is one of those that `addTuple` hands tuples to. -/
def WindowOperator.reads (w : WindowOperator) : Bool :=
  decide (w.num > 0 ∨ w.msec > 0 ∨ w.msec = 0 ∨ w.notifyAllFlg)

/-- The stream whose queue mutex `addTuple` takes for a listener: that of a
window on another stream. The own queue is read without taking the mutex again. -/
def Operator.lockedStream (streamName : Str) : Operator → Option Str
  | .other => none
  | .window w => if w.reads ∧ w.streamName ≠ streamName then some w.streamName else none

/-- The queues by stream name with the operators that listen to them, and the
workers, each of one queue. -/
structure WorkerSystem (W : Type) where
  listeners : Str → Option (List Operator)
  own : W → Str

namespace WorkerSystem

/-- How far the `addTuple` of a worker has come. It holds the mutex of its own
queue in every phase but `idle`. -/
inductive Phase where
  | idle
  | notifying (rest : List Operator)
  | reading (stream : Str) (rest : List Operator)
deriving DecidableEq

/-- The phases of the workers and the holders of the queue mutexes. -/
structure State (W : Type) where
  phase : W → Phase
  owner : Str → Option W

variable {W : Type} (sys : WorkerSystem W)

/-- The mutex that a worker takes for a listener. A stream without a queue has none. -/
def wanted (w : W) (ope : Operator) : Option Str :=
  (ope.lockedStream (sys.own w)).filter fun stream => (sys.listeners stream).isSome

/-- A step of a worker. It waits where the mutex it is to take has a holder. -/
inductive Step [DecidableEq W] : State W → State W → Prop where
  | lockOwn {s : State W} (w : W) (rest : List Operator) (hphase : s.phase w = .idle)
      (hqueue : sys.listeners (sys.own w) = some rest) (hfree : s.owner (sys.own w) = none) :
      Step s ⟨Function.update s.phase w (.notifying rest), Function.update s.owner (sys.own w) (some w)⟩
  | notify {s : State W} (w : W) (ope : Operator) (rest : List Operator)
      (hphase : s.phase w = .notifying (ope :: rest)) (hwanted : sys.wanted w ope = none) :
      Step s { s with phase := Function.update s.phase w (.notifying rest) }
  | lockTarget {s : State W} (w : W) (ope : Operator) (rest : List Operator) (stream : Str)
      (hphase : s.phase w = .notifying (ope :: rest)) (hwanted : sys.wanted w ope = some stream)
      (hfree : s.owner stream = none) :
      Step s ⟨Function.update s.phase w (.reading stream rest), Function.update s.owner stream (some w)⟩
  | unlockTarget {s : State W} (w : W) (stream : Str) (rest : List Operator)
      (hphase : s.phase w = .reading stream rest) :
      Step s ⟨Function.update s.phase w (.notifying rest), Function.update s.owner stream none⟩
  | unlockOwn {s : State W} (w : W) (hphase : s.phase w = .notifying []) :
      Step s ⟨Function.update s.phase w .idle, Function.update s.owner (sys.own w) none⟩

def init : State W :=
  { phase := fun _ => .idle, owner := fun _ => none }

def Reachable [DecidableEq W] : State W → Prop :=
  ReflTransGen sys.Step init

/-- The one worker holds the mutex of its own queue and waits for that of the
other one's queue, which the other one holds. -/
structure WaitsFor (s : State W) (w w' : W) : Prop where
  holds : s.owner (sys.own w) = some w
  waits : ∃ ope rest, s.phase w = .notifying (ope :: rest) ∧ sys.wanted w ope = some (sys.own w')
  held : s.owner (sys.own w') = some w'

/-- A cycle of workers each of which waits for the next one. -/
def Deadlock (s : State W) : Prop :=
  ∃ w, TransGen (sys.WaitsFor s) w w

/-- A worker of the one stream takes the mutex of the other one for a listener. -/
def Triggers (x y : Str) : Prop :=
  ∃ w rest ope, sys.own w = x ∧ sys.listeners x = some rest ∧ ope ∈ rest ∧ sys.wanted w ope = some y

variable {sys}

/-- A worker is at listeners of its own queue. -/
def AtListeners (sys : WorkerSystem W) (s : State W) : Prop :=
  ∀ w rest', (s.phase w = .notifying rest' ∨ ∃ stream, s.phase w = .reading stream rest') →
    ∃ rest, sys.listeners (sys.own w) = some rest ∧ rest' <:+ rest

/-- A worker may go on to any listener that is left of those of its queue. -/
theorem AtListeners.update [DecidableEq W] {s : State W} (h : AtListeners sys s) (w : W) (phase : Phase)
    (owner : Str → Option W)
    (hphase : ∀ rest', (phase = .notifying rest' ∨ ∃ stream, phase = .reading stream rest') →
      ∃ rest, sys.listeners (sys.own w) = some rest ∧ rest' <:+ rest) :
    AtListeners sys ⟨Function.update s.phase w phase, owner⟩ := by
  intro w' rest' hw'
  by_cases heq : w' = w
  · subst heq
    exact hphase rest' (by simpa using hw')
  · exact h w' rest' (by simpa [heq] using hw')

/-- The listeners that a worker has still to notify are always the last ones of its queue. -/
theorem AtListeners.step [DecidableEq W] {s s' : State W} (h : AtListeners sys s) (hstep : sys.Step s s') :
    AtListeners sys s' := by
  cases hstep with
  | lockOwn w rest hphase hqueue hfree =>
    refine h.update w _ _ fun rest' hrest' => ⟨rest, hqueue, ?_⟩
    obtain rfl : rest = rest' := by simpa using hrest'
    exact List.suffix_refl _
  | notify w ope rest hphase hwanted =>
    refine h.update w _ _ fun rest' hrest' => ?_
    obtain rfl : rest = rest' := by simpa using hrest'
    obtain ⟨all, hall, hsuffix⟩ := h w _ (Or.inl hphase)
    exact ⟨all, hall, (List.suffix_cons ope rest).trans hsuffix⟩
  | lockTarget w ope rest stream hphase hwanted hfree =>
    refine h.update w _ _ fun rest' hrest' => ?_
    obtain rfl : rest = rest' := by simpa using hrest'
    obtain ⟨all, hall, hsuffix⟩ := h w _ (Or.inl hphase)
    exact ⟨all, hall, (List.suffix_cons ope rest).trans hsuffix⟩
  | unlockTarget w stream rest hphase =>
    refine h.update w _ _ fun rest' hrest' => ?_
    obtain rfl : rest = rest' := by simpa using hrest'
    exact h w _ (Or.inr ⟨stream, hphase⟩)
  | unlockOwn w hphase => exact h.update w _ _ fun rest' hrest' => by simp at hrest'

private theorem atListeners_of_reachable [DecidableEq W] {s : State W} (h : sys.Reachable s) : AtListeners sys s := by
  induction h with
  | refl => exact fun w rest' hw => by simp [init] at hw
  | tail _ hstep ih => exact ih.step hstep

/-- A worker waits only for one whose stream is read by a listener of its own: the order in
which it holds a mutex and waits for another is that of the queries. -/
theorem WaitsFor.triggers {s : State W} (h : AtListeners sys s) {w w' : W} (hwaits : sys.WaitsFor s w w') :
    sys.Triggers (sys.own w) (sys.own w') := by
  obtain ⟨ope, rest', hphase, hwanted⟩ := hwaits.waits
  obtain ⟨rest, hqueue, hsuffix⟩ := h w _ (Or.inl hphase)
  exact ⟨w, rest, ope, rfl, hqueue, hsuffix.subset List.mem_cons_self, hwanted⟩

section Construction

variable [DecidableEq W]

/-- From the start, workers of different queues can each lock their own. -/
theorem exists_locked (ws : List W) (hown : (ws.map sys.own).Nodup)
    (hqueue : ∀ w ∈ ws, ∃ rest, sys.listeners (sys.own w) = some rest) :
    ∃ s, sys.Reachable s ∧
      (∀ w ∈ ws, s.owner (sys.own w) = some w ∧
        ∃ rest, sys.listeners (sys.own w) = some rest ∧ s.phase w = .notifying rest) ∧
      (∀ w, w ∉ ws → s.phase w = .idle) ∧ ∀ stream, stream ∉ ws.map sys.own → s.owner stream = none := by
  induction ws with
  | nil => exact ⟨init, ReflTransGen.refl, by simp, by simp [init], by simp [init]⟩
  | cons w ws ih =>
    obtain ⟨hw, hws⟩ := List.nodup_cons.mp hown
    obtain ⟨s, hreach, hlocked, hidle, hfree⟩ := ih hws fun w' hw' => hqueue w' (List.mem_cons_of_mem _ hw')
    obtain ⟨rest, hrest⟩ := hqueue w List.mem_cons_self
    have hnew : ∀ w' ∈ ws, w' ≠ w ∧ sys.own w' ≠ sys.own w := by
      intro w' hw'
      have hne : sys.own w' ≠ sys.own w := fun heq => hw (heq ▸ List.mem_map_of_mem hw')
      exact ⟨fun heq => hne (by rw [heq]), hne⟩
    refine ⟨_, hreach.tail (Step.lockOwn w rest (hidle w fun hmem => (hnew w hmem).1 rfl) hrest (hfree _ hw)),
      ?_, ?_, ?_⟩
    · intro w' hw'
      rcases List.mem_cons.mp hw' with rfl | hw'
      · exact ⟨by simp, rest, hrest, by simp⟩
      · obtain ⟨howner, rest', hrest', hphase⟩ := hlocked w' hw'
        exact ⟨by simp [hnew w' hw', howner], rest', hrest', by simp [hnew w' hw', hphase]⟩
    · intro w' hw'
      obtain ⟨hne, hmem⟩ := not_or.mp (mt List.mem_cons.mpr hw')
      simp [hne, hidle w' hmem]
    · intro stream hstream
      obtain ⟨hne, hmem⟩ := not_or.mp (mt List.mem_cons.mpr hstream)
      simp [hne, hfree stream hmem]

/-- A worker can go on to the first listener for which it takes a mutex out of
the set, where the other mutexes are free. -/
theorem exists_advanced (C : Finset Str) (w : W) (l : List Operator) (s : State W)
    (hphase : s.phase w = .notifying l) (htarget : ∃ ope ∈ l, ∃ y ∈ C, sys.wanted w ope = some y)
    (hfree : ∀ stream, stream ∉ C → s.owner stream = none) :
    ∃ ope rest, (∃ y ∈ C, sys.wanted w ope = some y) ∧
      ReflTransGen sys.Step s { s with phase := Function.update s.phase w (.notifying (ope :: rest)) } := by
  induction l generalizing s with
  | nil =>
    obtain ⟨ope, hope, -⟩ := htarget
    cases hope
  | cons ope l ih =>
    by_cases hin : ∃ y ∈ C, sys.wanted w ope = some y
    · refine ⟨ope, l, hin, ?_⟩
      rw [← hphase, Function.update_eq_self]
    have hrest : ∃ ope ∈ l, ∃ y ∈ C, sys.wanted w ope = some y := by
      obtain ⟨ope', hmem, hope'⟩ := htarget
      rcases List.mem_cons.mp hmem with rfl | hmem
      · exact absurd hope' hin
      · exact ⟨ope', hmem, hope'⟩
    have hpass : ReflTransGen sys.Step s { s with phase := Function.update s.phase w (.notifying l) } := by
      cases hwanted : sys.wanted w ope with
      | none => exact ReflTransGen.single (Step.notify w ope l hphase hwanted)
      | some stream =>
        have howner : s.owner stream = none := hfree stream fun hmem => hin ⟨stream, hmem, hwanted⟩
        have hlock := Step.lockTarget w ope l stream hphase hwanted howner
        have hunlock : sys.Step
            ⟨Function.update s.phase w (.reading stream l), Function.update s.owner stream (some w)⟩ _ :=
          Step.unlockTarget w stream l (by simp)
        simp only [Function.update_idem] at hunlock
        rw [← howner, Function.update_eq_self] at hunlock
        exact (ReflTransGen.single hlock).tail hunlock
    obtain ⟨ope', rest, hope', hreach⟩ :=
      ih { s with phase := Function.update s.phase w (.notifying l) } (by simp) hrest hfree
    simp only [Function.update_idem] at hreach
    exact ⟨ope', rest, hope', hpass.trans hreach⟩

/-- Workers that each have a queue of the set ahead of them come to it one after the other,
since the queues outside of the set are free. -/
private theorem exists_all_advanced (C : Finset Str) (ws : List W) (hws : ws.Nodup) (s : State W)
    (htarget : ∀ w ∈ ws, ∃ l, s.phase w = .notifying l ∧ ∃ ope ∈ l, ∃ y ∈ C, sys.wanted w ope = some y)
    (hfree : ∀ stream, stream ∉ C → s.owner stream = none) :
    ∃ s', ReflTransGen sys.Step s s' ∧ s'.owner = s.owner ∧ (∀ w, w ∉ ws → s'.phase w = s.phase w) ∧
      ∀ w ∈ ws, ∃ ope rest, s'.phase w = .notifying (ope :: rest) ∧ ∃ y ∈ C, sys.wanted w ope = some y := by
  induction ws generalizing s with
  | nil => exact ⟨s, ReflTransGen.refl, rfl, fun _ _ => rfl, by simp⟩
  | cons w ws ih =>
    obtain ⟨hw, hws⟩ := List.nodup_cons.mp hws
    obtain ⟨l, hphase, hl⟩ := htarget w List.mem_cons_self
    obtain ⟨ope, rest, hope, hreach⟩ := exists_advanced C w l s hphase hl hfree
    have hother : ∀ w' ∈ ws, w' ≠ w := fun w' hw' heq => hw (heq ▸ hw')
    obtain ⟨s', hreach', howner, hkept, hat⟩ :=
      ih hws { s with phase := Function.update s.phase w (.notifying (ope :: rest)) }
        (fun w' hw' => by
          simpa only [Function.update_of_ne (hother w' hw')] using htarget w' (List.mem_cons_of_mem _ hw'))
        hfree
    refine ⟨s', hreach.trans hreach', howner, fun w' hw' => ?_, fun w' hw' => ?_⟩
    · obtain ⟨hne, hmem⟩ := not_or.mp (mt List.mem_cons.mpr hw')
      exact (hkept w' hmem).trans (Function.update_of_ne hne _ _)
    · rcases List.mem_cons.mp hw' with rfl | hw'
      · exact ⟨ope, rest, (hkept w' hw).trans (Function.update_self _ _ _), hope⟩
      · exact hat w' hw'

/-- A cycle of triggers is a deadlock that can be reached: each worker on it
locks its own queue and goes on until it waits for the next one's. -/
theorem exists_deadlock {x : Str} (hcycle : TransGen sys.Triggers x x) :
    ∃ s, sys.Reachable s ∧ sys.Deadlock s := by
  obtain ⟨C, hne, hC⟩ := WaitCycle.exists_loop_iff.mp ⟨x, hcycle⟩
  have hworker : ∀ c : C, ∃ w rest, sys.own w = c.1 ∧ sys.listeners c.1 = some rest ∧
      ∃ ope ∈ rest, ∃ y ∈ C, sys.wanted w ope = some y := by
    rintro ⟨c, hc⟩
    obtain ⟨y, hy, w, rest, ope, hown, hqueue, hope, hwanted⟩ := hC c hc
    exact ⟨w, rest, hown, hqueue, ope, hope, y, hy, hwanted⟩
  choose worker rest hown hqueue htarget using hworker
  have hmap : (C.attach.toList.map worker).map sys.own = C.attach.toList.map Subtype.val := by
    rw [List.map_map]
    exact List.map_congr_left fun c _ => hown c
  have hmem : ∀ stream, stream ∈ C.attach.toList.map Subtype.val ↔ stream ∈ C := by
    intro stream
    simp
  have hnodup : ((C.attach.toList.map worker).map sys.own).Nodup := by
    rw [hmap]
    exact (Finset.nodup_toList _).map Subtype.val_injective
  have hall : ∀ w ∈ C.attach.toList.map worker, ∃ c, w = worker c := by
    intro w hw
    obtain ⟨c, -, rfl⟩ := List.mem_map.mp hw
    exact ⟨c, rfl⟩
  obtain ⟨s, hreach, hlocked, -, hfree⟩ := exists_locked (C.attach.toList.map worker) hnodup fun w hw => by
    obtain ⟨c, rfl⟩ := hall w hw
    exact ⟨rest c, by rw [hown c]; exact hqueue c⟩
  have hfree' : ∀ stream, stream ∉ C → s.owner stream = none := by
    intro stream hstream
    refine hfree stream ?_
    rw [hmap, hmem]
    exact hstream
  obtain ⟨s', hreach', howner, -, hat⟩ := exists_all_advanced C (C.attach.toList.map worker)
    (List.Nodup.of_map _ hnodup) s (fun w hw => by
      obtain ⟨c, rfl⟩ := hall w hw
      obtain ⟨-, l, hl, hphase⟩ := hlocked _ hw
      obtain rfl : rest c = l := by
        rw [hown c, hqueue c] at hl
        exact Option.some.inj hl
      exact ⟨rest c, hphase, htarget c⟩) hfree'
  have hin : ∀ c, worker c ∈ C.attach.toList.map worker := fun c =>
    List.mem_map_of_mem (Finset.mem_toList.mpr (Finset.mem_attach C c))
  refine ⟨s', hreach.trans hreach', ?_⟩
  refine WaitCycle.exists_loop (C := C.attach.image worker) (hne.attach.image worker) fun w hw => ?_
  obtain ⟨c, -, rfl⟩ := Finset.mem_image.mp hw
  obtain ⟨ope, rest', hphase, y, hy, hwanted⟩ := hat _ (hin c)
  refine ⟨worker ⟨y, hy⟩, Finset.mem_image_of_mem _ (Finset.mem_attach C _), ?_, ?_, ?_⟩
  · rw [howner]
    exact (hlocked _ (hin c)).1
  · exact ⟨ope, rest', hphase, by rw [hown]; exact hwanted⟩
  · rw [howner]
    exact (hlocked _ (hin _)).1

end Construction

/-- The additions to the queues cannot reach a deadlock exactly where no stream
triggers itself by way of others. -/
theorem deadlockFree_iff [DecidableEq W] (sys : WorkerSystem W) :
    (∀ s, sys.Reachable s → ¬ sys.Deadlock s) ↔ ∀ x, ¬ TransGen sys.Triggers x x := by
  constructor
  · intro hfree x hcycle
    obtain ⟨s, hreach, hdeadlock⟩ := exists_deadlock hcycle
    exact hfree s hreach hdeadlock
  · rintro hacyclic s hreach ⟨w, hw⟩
    exact hacyclic _ (hw.lift sys.own fun _ _ hwaits => hwaits.triggers (atListeners_of_reachable hreach))

/-- Two streams of one worker each, with a window on each of them that the other
one triggers. -/
def crossed : WorkerSystem Bool where
  listeners stream :=
    if stream = "A".toList then some [.window { streamName := "B".toList, num := 1 }]
    else if stream = "B".toList then some [.window { streamName := "A".toList, num := 1 }]
    else none
  own w := if w then "A".toList else "B".toList

/-- Such workers do come to a state where each holds the queue of its own stream and waits for
the queue of the other one. -/
theorem crossed_deadlock : ¬ ∀ s, crossed.Reachable s → ¬ crossed.Deadlock s := by
  intro hfree
  have hAB : crossed.Triggers "A".toList "B".toList :=
    ⟨true, _, _, rfl, rfl, List.mem_singleton_self _, by decide⟩
  have hBA : crossed.Triggers "B".toList "A".toList :=
    ⟨false, _, _, rfl, rfl, List.mem_singleton_self _, by decide⟩
  obtain ⟨s, hreach, hdeadlock⟩ := exists_deadlock ((TransGen.single hAB).tail hBA)
  exact hfree s hreach hdeadlock

end WorkerSystem

end IS

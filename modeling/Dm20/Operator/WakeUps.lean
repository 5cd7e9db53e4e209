import Dm20.Operator.Delivery

open Relation Transducer

namespace IS

namespace Operator

/-- A call that has yet to notify the thread. -/
def Caller.pending : Caller → Bool
  | .testing | .setting | .notifying => true
  | _ => false

section WakeUps

variable {σ T : Type} {p : Program σ} {ope : σ} {s s' : State σ T}

/-- A thread that is about to wait, or waits, though it was ended or has enough sets: a call has yet
to notify it, or has done so while it was deaf. -/
structure Alert (p : Program σ) (s : State σ T) : Prop where
  ended : (s.place = .testingSize ∨ s.place = .dozing ∨ s.place = .waiting) → s.exit_flag = true →
    s.missed = true ∨ ∃ t, (s.caller t).pending = true
  enough : (s.place = .dozing ∨ s.place = .waiting) → Enough p.expect_data_size s.buffer →
    s.missed = true ∨ ∃ t, (s.caller t).pending = true

private theorem alert_initial (ope : σ) : Alert p ({ ope } : State σ T) where
  ended := fun h => by rcases h with h | h | h <;> cases h
  enough := fun h => by rcases h with h | h <;> cases h

private theorem alert_of_place {s : State σ T} (hsize : s.place ≠ .testingSize) (hdozing : s.place ≠ .dozing)
    (hwaiting : s.place ≠ .waiting) : Alert p s where
  ended := fun h => (h.elim hsize fun h => h.elim hdozing hwaiting).elim
  enough := fun h => (h.elim hdozing hwaiting).elim

/-- A step of the own thread keeps it alert, since it looks at the buffer before it waits. -/
private theorem alert_work (hs : Alert p s) (h : Work p s s') : Alert p s' := by
  cases h with
  | move place hnext =>
    generalize hplace : s.place = old at hnext
    cases old with
    | loop =>
      cases hexit : s.exit_flag <;> rw [hexit] at hnext <;> cases hnext <;> exact alert_of_place nofun nofun nofun
    | testingReady =>
      cases hready : s.data_ready <;> rw [hready] at hnext <;> cases hnext <;> exact alert_of_place nofun nofun nofun
    | testingExit =>
      cases hexit : s.exit_flag with
      | true =>
        rw [hexit] at hnext
        cases hnext
        exact alert_of_place nofun nofun nofun
      | false =>
        rw [hexit] at hnext
        cases hnext
        exact ⟨fun _ => nofun, nofun⟩
    | dozing =>
      cases hnext
      exact ⟨fun _ => hs.ended (.inr (.inl hplace)), fun _ => hs.enough (.inl hplace)⟩
    | awake =>
      cases hexit : s.exit_flag <;> rw [hexit] at hnext <;> cases hnext <;> exact alert_of_place nofun nofun nofun
    | processed result =>
      cases result with
      | none =>
        cases hnext
        exact alert_of_place nofun nofun nofun
      | some result =>
        cases hexit : s.exit_flag <;> rw [hexit] at hnext <;> cases hnext
        exact alert_of_place nofun nofun nofun
    | _ => cases hnext
  | reset hplace => exact alert_of_place nofun nofun nofun
  | enough hplace henough => exact alert_of_place nofun nofun nofun
  | short hplace hshort => exact ⟨fun _ => hs.ended (.inl hplace), fun _ henough => absurd henough hshort⟩
  | fetch ts buffer hplace hget =>
    by_cases hts : ts = []
    · rw [if_pos hts]
      exact alert_of_place nofun nofun nofun
    · rw [if_neg hts]
      exact alert_of_place nofun nofun nofun
  | process ts ope result hplace hprocess => exact alert_of_place nofun nofun nofun

/-- A call that has yet to notify the thread keeps it alert. -/
theorem alert_of_pending {s : State σ T} {t : T} (h : (s.caller t).pending = true) : Alert p s where
  ended := fun _ _ => .inr ⟨t, h⟩
  enough := fun _ _ => .inr ⟨t, h⟩

/-- A notification wakes a thread that waits, and is missed by one that is deaf. -/
theorem notify_one_hears (s : State σ T) :
    s.notify_one.place ≠ .waiting ∧ (s.notify_one.place.deaf = true → s.notify_one.missed = true) := by
  unfold State.notify_one
  cases hplace : s.place <;> simp [Place.deaf]

/-- A caller that adds a set goes on to a notification, so the thread stays alert. -/
private theorem alert_calls [DecidableEq T] {t : T} (h : Calls t s s') : Alert p s' := by
  have hpending : ∀ {s : State σ T} {caller : Caller}, caller.pending = true → Alert p (s.setCaller t caller) := by
    intro s caller hcaller
    refine alert_of_pending (t := t) ?_
    rw [State.caller_setCaller_self]
    exact hcaller
  cases h with
  | apply call hcaller => exact hpending rfl
  | test hcaller =>
    split
    · exact hpending rfl
    · exact hpending rfl
  | set hcaller => exact hpending rfl
  | notify hcaller =>
    obtain ⟨hwaiting, hdeaf⟩ := notify_one_hears s
    refine ⟨fun hplace _ => .inl (hdeaf ?_), fun hplace _ => .inl (hdeaf ?_)⟩
    · rcases hplace with hplace | hplace | hplace
      · exact hplace ▸ rfl
      · exact hplace ▸ rfl
      · exact absurd hplace hwaiting
    · rcases hplace with hplace | hplace
      · exact hplace ▸ rfl
      · exact absurd hplace hwaiting

/-- Every step keeps the thread alert. -/
private theorem alert_next [DecidableEq T] (hs : Alert p s) (h : Next p s s') : Alert p s' := by
  cases h with
  | work h => exact alert_work hs h
  | beginFire h =>
    cases h
    exact alert_of_place nofun nofun nofun
  | endFire h =>
    cases h
    exact alert_of_place nofun nofun nofun
  | wake hplace => exact alert_of_place nofun nofun nofun
  | call t call hidle =>
    have hpending : (s.missed = true ∨ ∃ u, (s.caller u).pending = true) →
        s.missed = true ∨ ∃ u, ((s.setCaller t (.calling call)).caller u).pending = true := by
      rintro (hmissed | ⟨u, hu⟩)
      · exact .inl hmissed
      · refine .inr ⟨u, ?_⟩
        have hne : u ≠ t := by
          rintro rfl
          rw [hidle] at hu
          cases hu
        rw [State.caller_setCaller_of_ne s hne]
        exact hu
    exact ⟨fun hplace hended => hpending (hs.ended hplace hended),
      fun hplace henough => hpending (hs.enough hplace henough)⟩
  | calls t h => exact alert_calls h

/-- In any reachable state a thread that waits for a set has been told of each that came, or is
about to be told. -/
theorem alert_of_reachable [DecidableEq T] (h : Reachable p ope s) : Alert p s := by
  induction h with
  | refl => exact alert_initial ope
  | tail _ h ih => exact alert_next ih h

/-- The thread waits, and no call has yet to notify it. -/
structure Resting (s : State σ T) : Prop where
  waiting : s.place = .waiting
  notified : ∀ t, (s.caller t).pending = false

/-- At rest no caller is on its way to a notification. -/
theorem Resting.not_pending (hs : Resting s) : ¬ ∃ t, (s.caller t).pending = true := by
  rintro ⟨t, ht⟩
  rw [hs.notified t] at ht
  cases ht

/-- The thread of an operator that rests does not go on by itself. -/
theorem Resting.not_work (hs : Resting s) (s' : State σ T) : ¬ Work p s s' := by
  intro h
  have hwaiting := hs.waiting
  cases h with
  | move place hnext =>
    rw [hwaiting] at hnext
    cases hnext
  | reset hplace => cases hwaiting.symm.trans hplace
  | enough hplace henough => cases hwaiting.symm.trans hplace
  | short hplace hshort => cases hwaiting.symm.trans hplace
  | fetch ts buffer hplace hget => cases hwaiting.symm.trans hplace
  | process ts ope result hplace hprocess => cases hwaiting.symm.trans hplace

/-- A thread that rests with enough sets in its buffer has missed their notification. -/
theorem Resting.missed (hs : Resting s) (halert : Alert p s)
    (hwork : Enough p.expect_data_size s.buffer ∨ s.exit_flag = true) : s.missed = true := by
  rcases hwork with henough | hended
  · exact (halert.enough (.inr hs.waiting) henough).resolve_right hs.not_pending
  · exact (halert.ended (.inr (.inr hs.waiting)) hended).resolve_right hs.not_pending

/-- A thread that dozes, and sets that come while it does. -/
structure Dozing (s : State σ T) (buffer : List TupleSet) : Prop where
  dozing : s.place = .dozing
  idle : ∀ t, s.caller t = .idle
  buffer_eq : s.buffer = buffer

private theorem exists_dozing [DecidableEq T] (p : Program σ) (ope : σ) :
    ∃ s : State σ T, Reachable p ope s ∧ Dozing s [] := by
  have hstart : Reachable p ope ({ ope } : State σ T) := .refl
  have htest := ((hstart.tail (.work (.move .resetting rfl))).tail (.work (.reset rfl))).tail
    (.work (.move .testingExit rfl))
  have hshort : ¬ Enough p.expect_data_size [] := by
    rw [Enough, List.length_nil]
    omega
  exact ⟨_, (htest.tail (.work (.move .testingSize rfl))).tail (.work (.short rfl hshort)), rfl, fun _ => rfl, rfl⟩

/-- A notification leaves the thread as it is. -/
theorem exists_dozing_of_notifying [DecidableEq T] {buffer : List TupleSet} (h : Reachable p ope s)
    (hplace : s.place = .dozing) (hbuffer : s.buffer = buffer) {t : T} (hothers : ∀ u ≠ t, s.caller u = .idle)
    (hcaller : s.caller t = .notifying) : ∃ s' : State σ T, Reachable p ope s' ∧ Dozing s' buffer := by
  refine ⟨_, h.tail (.calls t (.notify hcaller)), ?_, fun u => ?_, hbuffer⟩
  · rcases notify_one_place s with heq | ⟨hwaiting, -⟩
    · exact heq.trans hplace
    · cases hplace.symm.trans hwaiting
  · by_cases hu : u = t
    · subst hu
      rw [State.caller_setCaller_self]
    · rw [State.caller_setCaller_of_ne _ hu]
      exact hothers u hu

/-- Nor does a set that is handed in meanwhile wake it. -/
theorem Dozing.receive [DecidableEq T] {buffer : List TupleSet} (hs : Dozing s buffer) (h : Reachable p ope s) (t : T)
    {ts : TupleSet} (hts : Known ts) : ∃ s' : State σ T, Reachable p ope s' ∧ Dozing s' (buffer ++ [ts]) := by
  have happlied := (h.tail (.call t (.receiveTupleSet ts) (hs.idle t))).tail
    (.calls t (.apply (.receiveTupleSet ts) (State.caller_setCaller_self _ _ _)))
  rw [Call.apply, if_pos hts] at happlied
  have htested := happlied.tail (.calls t (.test (State.caller_setCaller_self _ _ _)))
  have hbuffer : s.buffer ++ [ts] = buffer ++ [ts] := by rw [hs.buffer_eq]
  have hothers : ∀ {s' : State σ T} {caller : Caller}, (∀ u ≠ t, s'.caller u = .idle) →
      ∀ u ≠ t, (s'.setCaller t caller).caller u = .idle :=
    fun hs' u hu => (State.caller_setCaller_of_ne _ hu _).trans (hs' u hu)
  have hidle : ∀ u ≠ t, s.caller u = .idle := fun u _ => hs.idle u
  split at htested
  · have hset := htested.tail (.calls t (.set (State.caller_setCaller_self _ _ _)))
    exact exists_dozing_of_notifying hset hs.dozing hbuffer (hothers (hothers (hothers (hothers hidle))))
      (State.caller_setCaller_self _ _ _)
  · exact exists_dozing_of_notifying htested hs.dozing hbuffer (hothers (hothers (hothers hidle)))
      (State.caller_setCaller_self _ _ _)

/-- The thread may be about to wait while any number of sets come in. -/
private theorem exists_dozing_replicate [DecidableEq T] (p : Program σ) (ope : σ) (t : T) {ts : TupleSet}
    (hts : Known ts)
    (n : Nat) :
    ∃ s : State σ T, Reachable p ope s ∧ Dozing s (List.replicate n ts) := by
  induction n with
  | zero => exact exists_dozing p ope
  | succ n ih =>
    obtain ⟨s, hs, hdozing⟩ := ih
    rw [List.replicate_succ']
    exact hdozing.receive hs t hts

end WakeUps

/-- An operator can sleep on though it has enough sets to go on, or was ended, with no call under
way: but only where a notification came between the test of `data_ready` and the wait, as the
operator does not take its mutex to notify. -/
theorem sleeps_with_work {σ T : Type} [DecidableEq T] (p : Program σ) (ope : σ) (t : T) :
    (∀ s : State σ T, Reachable p ope s → Resting s → (Enough p.expect_data_size s.buffer ∨ s.exit_flag = true) →
        s.missed = true) ∧
      ∃ s : State σ T, Reachable p ope s ∧ Resting s ∧ Enough p.expect_data_size s.buffer ∧ ∀ s', ¬ Work p s s' := by
  refine ⟨fun s h hrest hwork => hrest.missed (alert_of_reachable h) hwork, ?_⟩
  have hts : Known { schema := { tablename := "a".toList } } := by decide
  obtain ⟨s, hs, hdozing⟩ := exists_dozing_replicate p ope t hts (max p.expect_data_size 1)
  have hnext : s.place.next s.data_ready s.exit_flag = some .waiting := by
    rw [hdozing.dozing]
    rfl
  have hrest : Resting { s with place := .waiting, missed := s.place.deaf && s.missed } :=
    ⟨rfl, fun t => by rw [hdozing.idle t]; rfl⟩
  refine ⟨_, hs.tail (.work (.move .waiting hnext)), hrest, ?_, hrest.not_work⟩
  simp only [Enough, hdozing.buffer_eq, List.length_replicate]
  omega

end Operator

end IS

import Dm20.Operator.Runtime

open Relation Transducer

namespace IS

namespace Operator

/-- What is taken from the buffer and what stays in it are all that there was, in its order. -/
private theorem getTupleSet_append (n : Nat) (ts buffer : List TupleSet) :
    (getTupleSet n ts buffer).1 ++ (getTupleSet n ts buffer).2 = ts ++ buffer := by
  induction buffer generalizing ts with
  | nil => rfl
  | cons front buffer ih =>
    rw [getTupleSet]
    split
    · rw [List.append_assoc]
      rfl
    · rw [ih, List.append_assoc]
      rfl

/-- No more sets are taken than are asked for. -/
private theorem length_getTupleSet_le {n : Nat} {ts : List TupleSet} (h : ts.length < n) (buffer : List TupleSet) :
    (getTupleSet n ts buffer).1.length ≤ n := by
  induction buffer generalizing ts with
  | nil => exact h.le
  | cons front buffer ih =>
    rw [getTupleSet]
    split
    · next hfull => exact hfull.le
    · next hmore =>
      refine ih ?_
      rw [List.length_append, List.length_singleton] at hmore ⊢
      omega

/-- The sets that the thread has taken and not processed yet. -/
def Place.held : Place → List TupleSet
  | .processing ts => ts
  | _ => []

/-- The result that the thread may have to fire. -/
def Place.owed : Place → List TupleSet
  | .processed result => result.toList
  | _ => []

/-- As many sets as `process` is given at once. -/
def Batch {σ : Type} (p : Program σ) (ts : List TupleSet) : Prop :=
  ts ≠ [] ∧ (p.expect_data_size ≠ 0 → ts.length ≤ p.expect_data_size)

/-- Each set that was received is in one place, in the order of reception: with those that were
processed, with those that the thread holds, or in the buffer. The results are what `process` made of
them, and each was fired, until the operator was ended. -/
structure Delivers {σ T : Type} (p : Program σ) (ope : σ) (s : State σ T) : Prop where
  received : s.received = s.handed.flatten ++ s.place.held ++ s.buffer
  batches : ∀ ts, (ts ∈ s.handed ∨ s.place = .processing ts) → Batch p ts
  runs : Runs p.process ope s.handed s.ope s.results
  fired : s.fired ++ s.place.owed = s.results.reduceOption ∨
    s.exit_flag = true ∧ (s.place = .loop ∨ s.place = .exited) ∧ s.fired <+: s.results.reduceOption

section Delivers

variable {σ T : Type} {p : Program σ} {ope : σ} {s s' : State σ T}

private theorem held_eq_nil {place : Place} (h : ∀ ts, place ≠ .processing ts) : place.held = [] := by
  cases place with
  | processing ts => exact absurd rfl (h ts)
  | _ => rfl

/-- A step that only reads the flags loses a result only where the operator was ended. -/
structure Moves (exit_flag : Bool) (place place' : Place) : Prop where
  before : ∀ ts, place ≠ .processing ts
  after : ∀ ts, place' ≠ .processing ts
  owed' : place'.owed = []
  owed : place.owed = [] ∨ exit_flag = true ∧ place' = .loop
  exits : place = .loop → exit_flag = true → place' = .exited
  runs : place ≠ .exited

/-- The thread of an operator goes from place to place only as the loop of `exec` says. -/
private theorem moves_of_next {data_ready exit_flag : Bool} {place place' : Place}
    (h : place.next data_ready exit_flag = some place') : Moves exit_flag place place' := by
  cases place with
  | resetting => cases h
  | testingSize => cases h
  | fetching => cases h
  | processing ts => cases h
  | firing result => cases h
  | exited => cases h
  | processed result =>
    cases result with
    | none =>
      cases h
      exact ⟨nofun, nofun, rfl, .inl rfl, nofun, nofun⟩
    | some result =>
      cases exit_flag with
      | false => cases h
      | true =>
        cases h
        exact ⟨nofun, nofun, rfl, .inr ⟨rfl, rfl⟩, nofun, nofun⟩
  | loop =>
    cases exit_flag with
    | false =>
      cases h
      exact ⟨nofun, nofun, rfl, .inl rfl, nofun, nofun⟩
    | true =>
      cases h
      exact ⟨nofun, nofun, rfl, .inl rfl, fun _ _ => rfl, nofun⟩
  | testingReady => cases data_ready <;> cases h <;> exact ⟨nofun, nofun, rfl, .inl rfl, nofun, nofun⟩
  | testingExit => cases exit_flag <;> cases h <;> exact ⟨nofun, nofun, rfl, .inl rfl, nofun, nofun⟩
  | awake => cases exit_flag <;> cases h <;> exact ⟨nofun, nofun, rfl, .inl rfl, nofun, nofun⟩
  | dozing =>
    cases h
    exact ⟨nofun, nofun, rfl, .inl rfl, nofun, nofun⟩
  | waiting => cases h

private theorem delivers_initial (ope : σ) : Delivers p ope ({ ope } : State σ T) where
  received := rfl
  batches := fun ts h => by rcases h with h | h <;> cases h
  runs := .nil
  fired := .inl rfl

/-- Outside of the loop, what was fired and what is still owed are all the results so far. -/
theorem Delivers.fired_eq (hs : Delivers p ope s) (hloop : s.place ≠ .loop) (hexited : s.place ≠ .exited) :
    s.fired ++ s.place.owed = s.results.reduceOption := by
  rcases hs.fired with hfired | ⟨-, hplace | hplace, -⟩
  · exact hfired
  · exact absurd hplace hloop
  · exact absurd hplace hexited

/-- The thread moves from one place where it holds nothing to another. -/
theorem Delivers.relocate (hs : Delivers p ope s) {place : Place} {data_ready missed : Bool}
    (hbefore : ∀ ts, s.place ≠ .processing ts) (hafter : ∀ ts, place ≠ .processing ts)
    (hfired : s.fired ++ place.owed = s.results.reduceOption ∨
      s.exit_flag = true ∧ (place = .loop ∨ place = .exited) ∧ s.fired <+: s.results.reduceOption) :
    Delivers p ope { s with data_ready, place, missed } where
  received := by
    have hreceived := hs.received
    rw [held_eq_nil hbefore, ← held_eq_nil hafter] at hreceived
    exact hreceived
  batches := fun ts h => h.elim (fun hts => hs.batches ts (.inl hts)) fun hplace => absurd hplace (hafter ts)
  runs := hs.runs
  fired := hfired

/-- A step of the own thread moves sets on from the buffer to those processed, and results from
those owed to those fired. -/
private theorem delivers_work (hs : Delivers p ope s) (h : Work p s s') : Delivers p ope s' := by
  cases h with
  | move place hnext =>
    have hmoves := moves_of_next hnext
    refine hs.relocate hmoves.before hmoves.after ?_
    rw [hmoves.owed', List.append_nil]
    rcases hs.fired with hfired | ⟨hflag, hplace, hfront⟩
    · rcases hmoves.owed with howed | ⟨hflag, hplace⟩
      · rw [howed, List.append_nil] at hfired
        exact .inl hfired
      · exact .inr ⟨hflag, .inl hplace, _, hfired⟩
    · exact .inr ⟨hflag, .inr (hmoves.exits (hplace.resolve_right hmoves.runs) hflag), hfront⟩
  | reset hplace =>
    have hfired := hs.fired_eq (by rw [hplace]; nofun) (by rw [hplace]; nofun)
    rw [hplace] at hfired
    exact hs.relocate (by rw [hplace]; nofun) nofun (.inl hfired)
  | enough hplace henough =>
    have hfired := hs.fired_eq (by rw [hplace]; nofun) (by rw [hplace]; nofun)
    rw [hplace] at hfired
    exact hs.relocate (by rw [hplace]; nofun) nofun (.inl hfired)
  | short hplace hshort =>
    have hfired := hs.fired_eq (by rw [hplace]; nofun) (by rw [hplace]; nofun)
    rw [hplace] at hfired
    exact hs.relocate (by rw [hplace]; nofun) nofun (.inl hfired)
  | fetch ts buffer hplace hget =>
    have hfired := hs.fired_eq (by rw [hplace]; nofun) (by rw [hplace]; nofun)
    rw [hplace] at hfired
    have happend := getTupleSet_append p.expect_data_size [] s.buffer
    rw [hget, List.nil_append] at happend
    have hreceived := hs.received
    rw [hplace, ← happend] at hreceived
    by_cases hts : ts = []
    · subst hts
      exact ⟨hreceived, fun ts h => h.elim (fun hts => hs.batches ts (.inl hts)) nofun, hs.runs, .inl hfired⟩
    · rw [if_neg hts]
      refine ⟨?_, fun ts' hts' => ?_, hs.runs, .inl hfired⟩
      · simpa [Place.held] using hreceived
      · rcases hts' with hts' | hts'
        · exact hs.batches ts' (.inl hts')
        · cases hts'
          refine ⟨hts, fun hne => ?_⟩
          have hempty : ([] : List TupleSet).length < p.expect_data_size := Nat.pos_of_ne_zero hne
          have hle := length_getTupleSet_le hempty s.buffer
          rw [hget] at hle
          exact hle
  | process ts ope' result hplace hprocess =>
    have hfired := hs.fired_eq (by rw [hplace]; nofun) (by rw [hplace]; nofun)
    rw [hplace] at hfired
    refine ⟨?_, fun ts' hts' => ?_, hs.runs.snoc hprocess, .inl ?_⟩
    · have hreceived := hs.received
      rw [hplace] at hreceived
      rw [List.flatten_append, List.flatten_singleton]
      simpa [Place.held] using hreceived
    · rcases hts' with hts' | hts'
      · rcases List.mem_append.mp hts' with hts' | hts'
        · exact hs.batches ts' (.inl hts')
        · rw [List.mem_singleton.mp hts']
          exact hs.batches ts (.inr hplace)
      · cases hts'
    · rw [List.reduceOption_append, ← hfired]
      cases result <;> simp [Place.owed]

/-- Where a caller stands is of no concern to what is delivered. -/
theorem Delivers.setCaller [DecidableEq T] (hs : Delivers p ope s) (t : T) (caller : Caller) :
    Delivers p ope (s.setCaller t caller) :=
  ⟨hs.received, hs.batches, hs.runs, hs.fired⟩

/-- A call adds its set to the buffer and to what was received, and changes nothing else that is
delivered. -/
theorem Delivers.apply (hs : Delivers p ope s) (call : Call) : Delivers p ope (call.apply s) := by
  cases call with
  | receiveTupleSet ts =>
    rw [Call.apply]
    split
    · refine ⟨?_, hs.batches, hs.runs, hs.fired⟩
      simp only [hs.received, List.append_assoc]
    · exact hs
  | requestData => exact hs
  | exit => exact ⟨hs.received, hs.batches, hs.runs, hs.fired.imp_right fun h => ⟨rfl, h.2⟩⟩

/-- A notification wakes the thread where it waits, and otherwise goes unnoticed. -/
theorem notify_one_place (s : State σ T) :
    s.notify_one.place = s.place ∨ s.place = .waiting ∧ s.notify_one.place = .testingReady := by
  unfold State.notify_one
  cases s.place <;> simp

/-- A notification delivers nothing. -/
theorem Delivers.notify_one (hs : Delivers p ope s) : Delivers p ope s.notify_one := by
  have hnotify : s.notify_one = { s with place := s.notify_one.place, missed := s.notify_one.missed } := rfl
  rw [hnotify]
  rcases notify_one_place s with hplace | ⟨hwaiting, hplace⟩
  · rw [hplace]
    exact ⟨hs.received, hs.batches, hs.runs, hs.fired⟩
  · rw [hplace]
    have hfired := hs.fired_eq (by rw [hwaiting]; nofun) (by rw [hwaiting]; nofun)
    rw [hwaiting] at hfired
    exact hs.relocate (by rw [hwaiting]; nofun) nofun (.inl hfired)

private theorem delivers_calls [DecidableEq T] {t : T} (hs : Delivers p ope s) (h : Calls t s s') :
    Delivers p ope s' := by
  cases h with
  | apply call hcaller => exact (hs.apply call).setCaller t _
  | test hcaller => exact hs.setCaller t _
  | set hcaller =>
    have hset : Delivers p ope { s with data_ready := true } := ⟨hs.received, hs.batches, hs.runs, hs.fired⟩
    exact hset.setCaller t _
  | notify hcaller => exact hs.notify_one.setCaller t _

private theorem delivers_beginFire (hs : Delivers p ope s) (h : BeginFire s s') : Delivers p ope s' := by
  cases h with
  | mk result hplace hexit =>
    have hfired := hs.fired_eq (by rw [hplace]; nofun) (by rw [hplace]; nofun)
    have hreceived := hs.received
    rw [hplace] at hfired hreceived
    refine ⟨hreceived, fun ts h => h.elim (fun hts => hs.batches ts (.inl hts)) nofun, hs.runs, .inl ?_⟩
    rw [← hfired]
    exact List.append_nil _

private theorem delivers_endFire (hs : Delivers p ope s) (h : EndFire s s') : Delivers p ope s' := by
  cases h with
  | mk result hplace =>
    have hfired := hs.fired_eq (by rw [hplace]; nofun) (by rw [hplace]; nofun)
    rw [hplace] at hfired
    exact hs.relocate (by rw [hplace]; nofun) nofun (.inl hfired)

/-- Every step keeps what the operator delivers. -/
private theorem delivers_next [DecidableEq T] (hs : Delivers p ope s) (h : Next p s s') : Delivers p ope s' := by
  cases h with
  | work h => exact delivers_work hs h
  | beginFire h => exact delivers_beginFire hs h
  | endFire h => exact delivers_endFire hs h
  | wake hplace =>
    have hfired := hs.fired_eq (by rw [hplace]; nofun) (by rw [hplace]; nofun)
    rw [hplace] at hfired
    exact hs.relocate (by rw [hplace]; nofun) nofun (.inl hfired)
  | call t call hidle => exact hs.setCaller t _
  | calls t h => exact delivers_calls hs h

/-- In every state an operator reaches, whatever calls other threads make of it and however
their steps and those of its own thread interleave, what it has received is what it processed, what
it holds and what is in its buffer, in this order, and it fired what `process` made of it. -/
theorem delivers_of_reachable [DecidableEq T] (h : Reachable p ope s) : Delivers p ope s := by
  induction h with
  | refl => exact delivers_initial ope
  | tail _ h ih => exact delivers_next ih h

end Delivers

end Operator

end IS

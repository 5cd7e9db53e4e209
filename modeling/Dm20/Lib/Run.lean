import Mathlib.Data.List.Basic

namespace Run

variable {σ α ε : Type}

/-- The state after a sequence of steps, or the failure of the first step that fails. -/
def run (step : σ → α → Except ε σ) : σ → List α → Except ε σ
  | s, [] => .ok s
  | s, a :: as =>
    match step s a with
    | .ok s' => run step s' as
    | .error e => .error e

/-- A property of the states a run passes through, its first and last included.
A step may fail, which ends the run, but not with a failure in `bad`. -/
def Throughout (step : σ → α → Except ε σ) (bad : ε → Prop) (P : σ → Prop) : σ → List α → Prop
  | s, [] => P s
  | s, a :: as => P s ∧
    match step s a with
    | .ok s' => Throughout step bad P s' as
    | .error e => ¬ bad e

/-- A condition met by each step of a run, in the state the step starts from. -/
def Along (step : σ → α → Except ε σ) (C : σ → α → Prop) : σ → List α → Prop
  | _, [] => True
  | s, a :: as => C s a ∧
    match step s a with
    | .ok s' => Along step C s' as
    | .error _ => True

instance Throughout.instDecidable {step : σ → α → Except ε σ} {bad : ε → Prop} {P : σ → Prop}
    [DecidablePred bad] [DecidablePred P] : ∀ s as, Decidable (Throughout step bad P s as)
  | s, [] => inferInstanceAs (Decidable (P s))
  | s, a :: as =>
    match h : step s a with
    | .ok s' =>
      have : Decidable (Throughout step bad P s' as) := Throughout.instDecidable s' as
      decidable_of_iff (P s ∧ Throughout step bad P s' as) (by simp only [Throughout, h])
    | .error e => decidable_of_iff (P s ∧ ¬ bad e) (by simp only [Throughout, h])

instance Along.instDecidable {step : σ → α → Except ε σ} {C : σ → α → Prop}
    [∀ s a, Decidable (C s a)] : ∀ s as, Decidable (Along step C s as)
  | _, [] => .isTrue trivial
  | s, a :: as =>
    match h : step s a with
    | .ok s' =>
      have : Decidable (Along step C s' as) := Along.instDecidable s' as
      decidable_of_iff (C s a ∧ Along step C s' as) (by simp only [Along, h])
    | .error e => decidable_of_iff (C s a) (by simp only [Along, h, and_true])

/-- A condition along a run holds along the rest of it. -/
theorem Along.tail {step : σ → α → Except ε σ} {C : σ → α → Prop} {s s' : σ} {a : α} {as : List α}
    (h : Along step C s (a :: as)) (hstep : step s a = .ok s') : Along step C s' as := by
  have hrest := h.2
  rwa [hstep] at hrest

/-- A condition along the rest of a run and at its first step holds along the run. -/
theorem Along.cons {step : σ → α → Except ε σ} {C : σ → α → Prop} {s : σ} {a : α} {as : List α}
    (ha : C s a) (has : ∀ s', step s a = .ok s' → Along step C s' as) :
    Along step C s (a :: as) := by
  refine ⟨ha, ?_⟩
  cases hstep : step s a with
  | ok s' => exact has s' hstep
  | error e => trivial

theorem Along.of_forall {step : σ → α → Except ε σ} {C : σ → α → Prop} (h : ∀ s a, C s a) (s : σ)
    (as : List α) : Along step C s as := by
  induction as generalizing s with
  | nil => trivial
  | cons a as ih => exact Along.cons (h s a) fun s' _ => ih s'

/-- What holds throughout a run holds where it begins. -/
theorem Throughout.head {step : σ → α → Except ε σ} {bad : ε → Prop} {P : σ → Prop} {s : σ}
    {as : List α} (h : Throughout step bad P s as) : P s := by
  cases as with
  | nil => exact h
  | cons a as => exact h.1

/-- The invariant rule: where each step that meets the condition keeps the
invariant and does not fail badly, the invariant holds throughout the run. -/
theorem Throughout.of_along {step : σ → α → Except ε σ} {bad : ε → Prop} {P : σ → Prop}
    {C : σ → α → Prop} (hstep : ∀ s a s', P s → C s a → step s a = .ok s' → P s')
    (hbad : ∀ s a e, P s → C s a → step s a = .error e → ¬ bad e) {s : σ} {as : List α}
    (hs : P s) (hC : Along step C s as) : Throughout step bad P s as := by
  induction as generalizing s with
  | nil => exact hs
  | cons a as ih =>
    refine ⟨hs, ?_⟩
    cases h : step s a with
    | ok s' => exact ih (hstep s a s' hs hC.1 h) (hC.tail h)
    | error e => exact hbad s a e hs hC.1 h

/-- The converse rule: where a step from a good state that misses the condition
fails badly or leaves the invariant, a good run meets the condition at every step. -/
theorem Along.of_throughout {step : σ → α → Except ε σ} {bad : ε → Prop} {P : σ → Prop}
    {C : σ → α → Prop} (hok : ∀ s a s', P s → step s a = .ok s' → P s' → C s a)
    (herror : ∀ s a e, P s → step s a = .error e → ¬ bad e → C s a) {s : σ} {as : List α}
    (h : Throughout step bad P s as) : Along step C s as := by
  induction as generalizing s with
  | nil => trivial
  | cons a as ih =>
    obtain ⟨hs, hrest⟩ := h
    cases ha : step s a with
    | ok s' =>
      rw [ha] at hrest
      refine Along.cons (hok s a s' hs ha hrest.head) ?_
      intro t ht
      obtain rfl : s' = t := by simpa [ha] using ht
      exact ih hrest
    | error e =>
      rw [ha] at hrest
      refine Along.cons (herror s a e hs ha hrest) ?_
      intro t ht
      simp [ha] at ht

/-- The exact rule: where a step from a state with the invariant leads to a good state exactly
if it meets the condition, and keeps the invariant then, a run is good throughout exactly if
its steps meet the condition. -/
theorem throughout_iff_along {step : σ → α → Except ε σ} {bad : ε → Prop} {P K : σ → Prop} {C : σ → α → Prop}
    (hgood : ∀ s, K s → P s) (hstep : ∀ s a s', K s → step s a = .ok s' → (P s' ↔ C s a) ∧ (P s' → K s'))
    (herror : ∀ s a e, K s → step s a = .error e → C s a ∧ ¬ bad e) {s : σ} (hs : K s) (as : List α) :
    Throughout step bad P s as ↔ Along step C s as := by
  induction as generalizing s with
  | nil => exact iff_of_true (hgood s hs) trivial
  | cons a as ih =>
    rw [Throughout, Along, and_iff_right (hgood s hs)]
    cases ha : step s a with
    | ok s' =>
      obtain ⟨hiff, hkeep⟩ := hstep s a s' hs ha
      constructor
      · exact fun h => ⟨hiff.mp h.head, (ih (hkeep h.head)).mp h⟩
      · exact fun h => (ih (hkeep (hiff.mpr h.1))).mpr h.2
    | error e =>
      obtain ⟨hcondition, hbad⟩ := herror s a e hs ha
      exact iff_of_true hbad ⟨hcondition, trivial⟩

/-- A property that holds throughout a run implies each weaker one. -/
theorem Throughout.imp {step : σ → α → Except ε σ} {bad : ε → Prop} {P Q : σ → Prop}
    (hPQ : ∀ s, P s → Q s) {s : σ} {as : List α} (h : Throughout step bad P s as) :
    Throughout step bad Q s as := by
  induction as generalizing s with
  | nil => exact hPQ s h
  | cons a as ih =>
    obtain ⟨hs, hrest⟩ := h
    refine ⟨hPQ s hs, ?_⟩
    cases ha : step s a with
    | ok s' =>
      rw [ha] at hrest
      exact ih hrest
    | error e =>
      rw [ha] at hrest
      exact hrest

theorem Along.imp {step : σ → α → Except ε σ} {C D : σ → α → Prop} (hCD : ∀ s a, C s a → D s a) {s : σ}
    {as : List α} (h : Along step C s as) : Along step D s as := by
  induction as generalizing s with
  | nil => trivial
  | cons a as ih =>
    refine Along.cons (hCD s a h.1) ?_
    intro s' hs'
    exact ih (h.tail hs')

/-- Two conditions along a run may be taken together. -/
theorem Along.and {step : σ → α → Except ε σ} {C D : σ → α → Prop} {s : σ} {as : List α}
    (hC : Along step C s as) (hD : Along step D s as) :
    Along step (fun s a => C s a ∧ D s a) s as := by
  induction as generalizing s with
  | nil => trivial
  | cons a as ih =>
    refine Along.cons ⟨hC.1, hD.1⟩ ?_
    intro s' hs'
    exact ih (hC.tail hs') (hD.tail hs')

/-- Where a run throughout satisfies the property, so does the state it ends in. -/
theorem Throughout.final {step : σ → α → Except ε σ} {bad : ε → Prop} {P : σ → Prop} {s t : σ}
    {as : List α} (h : Throughout step bad P s as) (hrun : run step s as = .ok t) : P t := by
  induction as generalizing s with
  | nil =>
    obtain rfl : s = t := by simpa [run] using hrun
    exact h
  | cons a as ih =>
    obtain ⟨_, hrest⟩ := h
    cases ha : step s a with
    | ok s' =>
      rw [ha] at hrest
      exact ih hrest (by simpa [run, ha] using hrun)
    | error e => simp [run, ha] at hrun

/-- A run goes on from the state its first part ends in. -/
theorem run_append {step : σ → α → Except ε σ} {s s' : σ} {as : List α} (h : run step s as = .ok s') (bs : List α) :
    run step s (as ++ bs) = run step s' bs := by
  induction as generalizing s with
  | nil =>
    obtain rfl : s = s' := by simpa [run] using h
    rfl
  | cons a as ih =>
    cases ha : step s a with
    | ok t =>
      rw [List.cons_append, run, ha]
      exact ih (by simpa [run, ha] using h)
    | error e => simp [run, ha] at h

/-- A property kept by every step holds where a run ends. -/
theorem run_invariant {step : σ → α → Except ε σ} {P : σ → Prop}
    (hstep : ∀ s a s', P s → step s a = .ok s' → P s') {s t : σ} {as : List α} (hs : P s)
    (hrun : run step s as = .ok t) : P t := by
  induction as generalizing s with
  | nil =>
    obtain rfl : s = t := by simpa [run] using hrun
    exact hs
  | cons a as ih =>
    cases ha : step s a with
    | ok s' => exact ih (hstep s a s' hs ha) (by simpa [run, ha] using hrun)
    | error e => simp [run, ha] at hrun

end Run

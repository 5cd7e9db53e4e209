import Dm20.Lib.Except

namespace Stateful

variable {σ ε α β : Type} {e : ε} {x : StateT σ (Except ε) α} {f : α → StateT σ (Except ε) β} {P : α → Prop}
  {Q : β → Prop}

/-- How a computation with a state that may fail ends, whatever state it starts
from: here it ends, and its result has a property. -/
def Returns (x : StateT σ (Except ε) α) (P : α → Prop) : Prop :=
  ∀ s, ∃ a s', x s = .ok (a, s') ∧ P a

/-- From every state the computation fails with an error. -/
def Fails (e : ε) (x : StateT σ (Except ε) α) : Prop :=
  ∀ s, x s = .error e

/-- From every state the computation fails with an error or ends, and then its
result has a property. -/
def ReturnsOr (e : ε) (x : StateT σ (Except ε) α) (P : α → Prop) : Prop :=
  ∀ s, x s = .error e ∨ ∃ a s', x s = .ok (a, s') ∧ P a

theorem bind_of_ok {s s' : σ} {a : α} (h : x s = .ok (a, s')) : (x >>= f) s = f a s' := by
  simp only [bind, StateT.bind, h, Except.bind]

theorem bind_of_error {s : σ} (h : x s = .error e) : (x >>= f) s = .error e := by
  simp only [bind, StateT.bind, h, Except.bind]

theorem lift_ok_bind (a : α) (f : α → StateT σ (Except ε) β) :
    ((liftM (.ok a : Except ε α) : StateT σ (Except ε) α) >>= f) = f a := rfl

/-- A computation in two steps succeeds just if both do, the second one from where the first
left off. -/
theorem bind_eq_ok {s s' : σ} {b : β} (h : (x >>= f) s = .ok (b, s')) :
    ∃ a mid, x s = .ok (a, mid) ∧ f a mid = .ok (b, s') := by
  cases hx : x s with
  | error e =>
    rw [bind_of_error hx] at h
    cases h
  | ok r =>
    rw [bind_of_ok hx] at h
    exact ⟨r.1, r.2, rfl, h⟩

theorem pure_eq_ok {s s' : σ} {a b : α} (h : (Pure.pure a : StateT σ (Except ε) α) s = .ok (b, s')) : b = a ∧
    s' = s := by
  cases h
  exact ⟨rfl, rfl⟩

theorem lift_bind_eq_ok {y : Except ε α} {s s' : σ} {b : β}
    (h : ((liftM y : StateT σ (Except ε) α) >>= f) s = .ok (b, s')) : ∃ a, y = .ok a ∧ f a s = .ok (b, s') := by
  cases y with
  | error e => cases h
  | ok a => exact ⟨a, rfl, h⟩

theorem Returns.pure {a : α} (ha : P a) : Returns (Pure.pure a : StateT σ (Except ε) α) P :=
  fun s => ⟨a, s, rfl, ha⟩

theorem Returns.lift {y : Except ε α} {a : α} (hy : y = .ok a) :
    Returns (liftM y : StateT σ (Except ε) α) fun b => b = a := by
  subst hy
  exact fun s => ⟨a, s, rfl, rfl⟩

theorem Returns.modify {g : σ → σ} : Returns (modify g : StateT σ (Except ε) PUnit) fun _ => True :=
  fun s => ⟨⟨⟩, g s, rfl, trivial⟩

/-- What the first step returns may be used of the second. -/
theorem Returns.bind (hx : Returns x P) (hf : ∀ a, P a → Returns (f a) Q) : Returns (x >>= f) Q := by
  intro s
  obtain ⟨a, s', h, ha⟩ := hx s
  obtain ⟨b, s'', h', hb⟩ := hf a ha s'
  exact ⟨b, s'', (bind_of_ok h).trans h', hb⟩

/-- A step that always fails makes the whole fail. -/
theorem Returns.bind_fails (hx : Returns x P) (hf : ∀ a, P a → Fails e (f a)) : Fails e (x >>= f) := by
  intro s
  obtain ⟨a, s', h, ha⟩ := hx s
  exact (bind_of_ok h).trans (hf a ha s')

/-- What fails at first fails as a whole. -/
theorem Fails.bind (hx : Fails e x) : Fails e (x >>= f) :=
  fun s => bind_of_error (hx s)

theorem Returns.or (hx : Returns x P) : ReturnsOr e x P :=
  fun s => .inr (hx s)

theorem Fails.or (hx : Fails e x) : ReturnsOr e x P :=
  fun s => .inl (hx s)

/-- Two steps that each return or fail in one way do so in a row. -/
theorem ReturnsOr.bind (hx : ReturnsOr e x P) (hf : ∀ a, P a → ReturnsOr e (f a) Q) : ReturnsOr e (x >>= f) Q := by
  intro s
  obtain h | ⟨a, s', h, ha⟩ := hx s
  · exact .inl (bind_of_error h)
  · rw [bind_of_ok h]
    exact hf a ha s'

theorem ReturnsOr.bind_fails (hx : ReturnsOr e x P) (hf : ∀ a, P a → Fails e (f a)) : Fails e (x >>= f) := by
  intro s
  obtain h | ⟨a, s', h, ha⟩ := hx s
  · exact bind_of_error h
  · exact (bind_of_ok h).trans (hf a ha s')

end Stateful

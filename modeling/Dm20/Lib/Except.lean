import Mathlib.Data.List.Forall2

namespace Except

variable {ε α β : Type}

/-- A computation in two steps succeeds just if both do. -/
theorem bind_eq_ok_iff {x : Except ε α} {f : α → Except ε β} {b : β} :
    (x >>= f) = .ok b ↔ ∃ a, x = .ok a ∧ f a = .ok b := by
  cases x with
  | error e => simp [bind, Except.bind]
  | ok a => simp [bind, Except.bind]

/-- A computation in two steps fails by the first step, or by the second on what the first gave. -/
theorem bind_eq_error_iff {x : Except ε α} {f : α → Except ε β} {e : ε} :
    (x >>= f) = .error e ↔ x = .error e ∨ ∃ a, x = .ok a ∧ f a = .error e := by
  cases x with
  | error e' => simp [bind, Except.bind]
  | ok a => simp [bind, Except.bind]

theorem map_eq_ok_iff {x : Except ε α} {f : α → β} {b : β} :
    x.map f = .ok b ↔ ∃ a, x = .ok a ∧ f a = b := by
  cases x <;> simp [Except.map]

theorem map_eq_error_iff {x : Except ε α} {f : α → β} {e : ε} : x.map f = .error e ↔ x = .error e := by
  cases x <;> simp [Except.map]

@[simp] theorem isOk_ok (a : α) : (Except.ok a : Except ε α).isOk = true := rfl

@[simp] theorem isOk_pure (a : α) : (pure a : Except ε α).isOk = true := rfl

@[simp] theorem isOk_error (e : ε) : (Except.error e : Except ε α).isOk = false := rfl

@[simp] theorem isOk_map (f : α → β) (x : Except ε α) : (x.map f).isOk = x.isOk := by
  cases x <;> rfl

theorem isOk_iff {x : Except ε α} : x.isOk = true ↔ ∃ a, x = .ok a := by
  cases x <;> simp

/-- Success of two steps, without regard to what the second gives. -/
theorem isOk_bind_iff {x : Except ε α} {f : α → Except ε β} :
    (x >>= f).isOk = true ↔ ∃ a, x = .ok a ∧ (f a).isOk = true := by
  cases x <;> simp [bind, Except.bind]

@[simp] theorem toOption_map (f : α → β) (x : Except ε α) : (x.map f).toOption = x.toOption.map f := by
  cases x <;> rfl

/-- A list of computations succeeds where each does, with their results in order. -/
theorem mapM_eq_ok {f : α → Except ε β} {xs : List α} {ys : List β} (h : xs.mapM f = .ok ys) :
    List.Forall₂ (fun x y => f x = .ok y) xs ys := by
  induction xs generalizing ys with
  | nil =>
    obtain rfl : ys = [] := by simpa [pure, Except.pure, eq_comm] using h
    exact .nil
  | cons x xs ih =>
    rw [List.mapM_cons, bind_eq_ok_iff] at h
    obtain ⟨y, hy, h⟩ := h
    rw [bind_eq_ok_iff] at h
    obtain ⟨ys', hys, h⟩ := h
    obtain rfl : y :: ys' = ys := by simpa [pure, Except.pure] using h
    exact .cons hy (ih hys)

/-- A list of computations succeeds element by element. -/
theorem mapM_eq_ok_iff {f : α → Except ε β} {xs : List α} {ys : List β} :
    xs.mapM f = .ok ys ↔ List.Forall₂ (fun x y => f x = .ok y) xs ys := by
  refine ⟨mapM_eq_ok, fun h => ?_⟩
  induction h with
  | nil => rfl
  | cons hxy _ ih =>
    rw [List.mapM_cons, hxy, ih]
    rfl

/-- A list of computations whose results are related to the elements: each has such a result. -/
theorem exists_mapM_and_forall₂ {f : α → Except ε β} {R : α → β → Prop} {xs : List α} :
    (∃ ys, xs.mapM f = .ok ys ∧ List.Forall₂ R xs ys) ↔ ∀ x ∈ xs, ∃ y, f x = .ok y ∧ R x y := by
  constructor
  · rintro ⟨ys, hys, hR⟩
    have hforall := mapM_eq_ok hys
    clear hys
    induction hR with
    | nil => exact fun x hx => absurd hx List.not_mem_nil
    | cons hxy _ ih =>
      cases hforall with
      | cons hf hforall => exact List.forall_mem_cons.mpr ⟨⟨_, hf, hxy⟩, ih hforall⟩
  · intro h
    induction xs with
    | nil => exact ⟨[], rfl, .nil⟩
    | cons x xs ih =>
      obtain ⟨⟨y, hy, hxy⟩, hrest⟩ := List.forall_mem_cons.mp h
      obtain ⟨ys, hys, hR⟩ := ih hrest
      refine ⟨y :: ys, ?_, .cons hxy hR⟩
      rw [List.mapM_cons, hy, hys]
      rfl

/-- What each computation gives of its element, the whole list gives of the elements. -/
theorem map_eq_map_of_mapM_eq_ok {γ : Type} {f : α → Except ε β} {g : β → γ} {k : α → γ}
    (hf : ∀ x y, f x = .ok y → g y = k x) {xs : List α} {ys : List β} (h : xs.mapM f = .ok ys) :
    ys.map g = xs.map k := by
  have hforall := mapM_eq_ok h
  clear h
  induction hforall with
  | nil => rfl
  | cons hxy _ ih => rw [List.map_cons, List.map_cons, hf _ _ hxy, ih]

/-- Each result was made of one of the elements. -/
theorem exists_of_mem_mapM {f : α → Except ε β} {xs : List α} {ys : List β} (h : xs.mapM f = .ok ys) {y : β}
    (hy : y ∈ ys) : ∃ x ∈ xs, f x = .ok y := by
  have hforall := mapM_eq_ok h
  clear h
  induction hforall with
  | nil => cases hy
  | cons hxy _ ih =>
    obtain rfl | hy := List.mem_cons.mp hy
    · exact ⟨_, List.mem_cons_self, hxy⟩
    · obtain ⟨x, hx, hxy⟩ := ih hy
      exact ⟨x, List.mem_cons_of_mem _ hx, hxy⟩

/-- A list of computations succeeds where each of them does. -/
theorem exists_mapM_eq_ok {f : α → Except ε β} {xs : List α} (h : ∀ x ∈ xs, ∃ y, f x = .ok y) :
    ∃ ys, xs.mapM f = .ok ys := by
  induction xs with
  | nil => exact ⟨[], rfl⟩
  | cons x xs ih =>
    obtain ⟨y, hy⟩ := h x (by simp)
    obtain ⟨ys, hys⟩ := ih fun z hz => h z (by simp [hz])
    exact ⟨y :: ys, by simp [List.mapM_cons, hy, hys, bind, Except.bind, pure, Except.pure]⟩

/-- Computations that are known to succeed are a function of their arguments. -/
theorem mapM_eq_map {f : α → Except ε β} {g : α → β} {xs : List α} (h : ∀ x ∈ xs, f x = .ok (g x)) :
    xs.mapM f = .ok (xs.map g) := by
  induction xs with
  | nil => rfl
  | cons x xs ih =>
    rw [List.mapM_cons, h x (by simp), ih fun z hz => h z (by simp [hz])]
    rfl

/-- A list of computations fails with the failure of one of them. -/
theorem mapM_eq_error {f : α → Except ε β} {xs : List α} {e : ε} (h : xs.mapM f = .error e) :
    ∃ x ∈ xs, f x = .error e := by
  induction xs with
  | nil => simp [pure, Except.pure] at h
  | cons x xs ih =>
    rw [List.mapM_cons, bind_eq_error_iff] at h
    rcases h with h | ⟨y, hy, h⟩
    · exact ⟨x, by simp, h⟩
    · rw [bind_eq_error_iff] at h
      rcases h with h | ⟨ys, hys, h⟩
      · obtain ⟨z, hz, hfail⟩ := ih h
        exact ⟨z, by simp [hz], hfail⟩
      · simp [pure, Except.pure] at h

/-- The rule of a loop: a step that succeeds and keeps the invariant of its turn. -/
theorem foldlM_range_ok {f : β → Nat → Except ε β} {P : Nat → β → Prop} {n : Nat} {b : β} (hb : P 0 b)
    (hstep : ∀ k < n, ∀ c, P k c → ∃ c', f c k = .ok c' ∧ P (k + 1) c') :
    ∃ c, (List.range n).foldlM f b = .ok c ∧ P n c := by
  induction n with
  | zero => exact ⟨b, rfl, hb⟩
  | succ n ih =>
    obtain ⟨c, hc, hP⟩ := ih fun k hk => hstep k (Nat.lt_succ_of_lt hk)
    obtain ⟨c', hc', hP'⟩ := hstep n (Nat.lt_succ_self n) c hP
    refine ⟨c', ?_, hP'⟩
    rw [List.range_succ, List.foldlM_append, hc]
    simp [bind, Except.bind, pure, Except.pure, hc']

/-- The rule of a loop that has succeeded. -/
theorem foldlM_range_of_ok {f : β → Nat → Except ε β} {P : Nat → β → Prop} {n : Nat} {b c : β} (hb : P 0 b)
    (hstep : ∀ k < n, ∀ c c', P k c → f c k = .ok c' → P (k + 1) c')
    (h : (List.range n).foldlM f b = .ok c) : P n c := by
  induction n generalizing c with
  | zero =>
    obtain rfl := Except.ok.inj h
    exact hb
  | succ n ih =>
    rw [List.range_succ, List.foldlM_append, bind_eq_ok_iff] at h
    obtain ⟨d, hd, hlast⟩ := h
    have hlast' : f d n = .ok c := by simpa using hlast
    exact hstep n (Nat.lt_succ_self n) d c (ih (fun k hk => hstep k (Nat.lt_succ_of_lt hk)) hd) hlast'

/-- A list of computations succeeds just if each of them does. -/
theorem isOk_mapM_iff {f : α → Except ε β} {xs : List α} :
    (xs.mapM f).isOk = true ↔ ∀ x ∈ xs, (f x).isOk = true := by
  induction xs with
  | nil => simp [pure, Except.pure]
  | cons x xs ih =>
    rw [List.mapM_cons, List.forall_mem_cons, ← ih]
    cases f x with
    | error e => simp [bind, Except.bind]
    | ok y =>
      cases xs.mapM f with
      | error e => simp [bind, Except.bind]
      | ok ys => simp [bind, Except.bind, pure, Except.pure]

/-- A fold whose steps succeed or fail whatever the state is, as long as it keeps an
invariant: it succeeds where each step does, and keeps the invariant. -/
theorem isOk_foldlM_iff {f : β → α → Except ε β} {P : β → Prop} {Q : α → Prop} {xs : List α} {b : β} (hb : P b)
    (hstep : ∀ b, P b → ∀ x ∈ xs, ((f b x).isOk = true ↔ Q x) ∧ ∀ b', f b x = .ok b' → P b') :
    ((xs.foldlM f b).isOk = true ↔ ∀ x ∈ xs, Q x) ∧ ∀ b', xs.foldlM f b = .ok b' → P b' := by
  induction xs generalizing b with
  | nil =>
    rw [List.foldlM_nil]
    exact ⟨by simp [pure, Except.pure], fun b' h => Except.ok.inj h ▸ hb⟩
  | cons x xs ih =>
    obtain ⟨hok, hkeeps⟩ := hstep b hb x List.mem_cons_self
    rw [List.foldlM_cons, List.forall_mem_cons]
    cases hx : f b x with
    | error e =>
      have hnot : ¬ Q x := fun hq => by simp [hx] at hok; exact hok hq
      exact ⟨by simp [bind, Except.bind, hnot], fun b' h => nomatch h⟩
    | ok b' =>
      have hq : Q x := hok.mp (by simp [hx])
      have hrest := ih (hkeeps b' hx) fun b hb y hy => hstep b hb y (List.mem_cons_of_mem x hy)
      exact ⟨hrest.1.trans (and_iff_right hq).symm, hrest.2⟩

end Except

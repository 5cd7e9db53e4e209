import Dm20.Lib.Descent

/-! One token of look-ahead: what a derivation starts with, what may stand behind
it, and when the tokens behind settle each optional part the way the longest
reading does. -/

namespace Descent

variable {τ ε α β σ : Type}

/-- No token is left, or the next one is of the kind. -/
def Before (q : τ → Bool) (rest : List τ) : Prop :=
  ∀ t ∈ rest.head?, q t = true

/-- The next token is of the kind. -/
def Next (q : τ → Bool) (rest : List τ) : Prop :=
  ∃ t ∈ rest.head?, q t = true

/-- A token of a narrower kind is one of a wider kind. -/
theorem Next.mono {q q' : τ → Bool} (hq : ∀ t, q t = true → q' t = true) {rest : List τ}
    (h : Next q rest) : Next q' rest := by
  obtain ⟨t, hhead, ht⟩ := h
  exact ⟨t, hhead, hq t ht⟩

/-- No token, or one that is not of the kind, is next. -/
def Misses (F : List τ → Prop) (p : τ → Bool) : Prop :=
  ∀ rest, F rest → ∀ t ∈ rest.head?, p t = false

/-- A token of a kind that has to come may come. -/
theorem Next.before {q : τ → Bool} {rest : List τ} (h : Next q rest) : Before q rest := by
  obtain ⟨t, hhead, ht⟩ := h
  intro t' hhead'
  obtain rfl : t = t' := Option.some.inj (hhead.symm.trans hhead')
  exact ht

/-- What may come of a narrower kind may come of a wider one. -/
theorem Before.mono {q q' : τ → Bool} (hq : ∀ t, q t = true → q' t = true) {rest : List τ}
    (h : Before q rest) : Before q' rest :=
  fun t hhead => hq t (h t hhead)

/-- A repetition stops where only tokens of another kind may come. -/
theorem misses_before {q p : τ → Bool} (h : ∀ t, q t = true → p t = false) : Misses (Before q) p :=
  fun _ hrest t hhead => h t (hrest t hhead)

theorem misses_next {q p : τ → Bool} (h : ∀ t, q t = true → p t = false) : Misses (Next q) p :=
  fun _ hrest t hhead => h t (hrest.before t hhead)

theorem next_append {q : τ → Bool} {used : List τ} (h : ∃ t ∈ used.head?, q t = true) (rest : List τ) :
    Next q (used ++ rest) := by
  obtain ⟨t, hhead, ht⟩ := h
  exact ⟨t, by simp [List.head?_append, Option.mem_def.mp hhead], ht⟩

namespace Gram

/-- Before tokens that satisfy the first condition, the derived tokens together
with them satisfy the second. -/
def Opens (F M : List τ → Prop) (G : Gram τ α) : Prop :=
  ∀ used a rest, G used a rest → F rest → M (used ++ rest)

/-- What the first grammar derives the second derives too: before any tokens
where `P` holds, and otherwise before tokens that satisfy a condition. -/
def Lifts (P : Prop) (F : List τ → Prop) (G G' : Gram τ α) : Prop :=
  ∀ used a rest, P ∨ F rest → G used a rest → G' used a rest

section Opens

variable {F M N : List τ → Prop} {G H : Gram τ α}

/-- A rule that takes no token is followed by what follows the whole. -/
theorem opens_of_empty (hG : ∀ used a rest, G used a rest → used = []) (hF : ∀ rest, F rest → M rest) :
    Opens F M G := by
  intro used a rest h hrest
  rw [hG used a rest h]
  exact hF rest hrest

theorem opens_pure (a : α) (hF : ∀ rest, F rest → M rest) : Opens F M (pure a : Gram τ α) :=
  opens_of_empty (fun _ _ _ h => h.1) hF

theorem StartsWith.next {p q : τ → Bool} (hG : G.StartsWith p) (hq : ∀ t, p t = true → q t = true) :
    Opens F (Next q) G := by
  intro used a rest h _
  obtain ⟨t, hhead, ht⟩ := hG used a rest h
  exact next_append ⟨t, hhead, hq t ht⟩ rest

/-- In front of a rule stands what it starts with. -/
theorem StartsWith.before {p q : τ → Bool} (hG : G.StartsWith p) (hq : ∀ t, p t = true → q t = true) :
    Opens F (Before q) G :=
  fun used a rest h hrest => (hG.next hq used a rest h hrest).before

theorem opens_true : Opens F (fun _ => True) G :=
  fun _ _ _ _ _ => trivial

/-- In front of two rules in a row stands what stands in front of the first, seen from the
second. -/
theorem Opens.bind {K : α → Gram τ β} (hG : Opens M N G) (hK : ∀ a, Opens F M (K a)) :
    Opens F N (G >>= K) := by
  rintro used b rest ⟨u, a, v, rfl, hu, hv⟩ hrest
  rw [List.append_assoc]
  exact hG u a _ hu (hK a v b rest hv hrest)

theorem opens_stop_bind {l : Prop} {p : τ → Bool} {K : Unit → Gram τ α} (hK : Opens F M (K ())) :
    Opens F M (stop l p >>= K) :=
  Opens.bind (opens_of_empty (fun _ _ _ h => h.1) fun _ h => h) fun _ => hK

/-- In front of a choice stands what stands in front of either alternative. -/
theorem Opens.sup (hG : Opens F M G) (hH : Opens F M H) : Opens F M (G ⊔ H) := by
  rintro used a rest (h | h)
  · exact hG used a rest h
  · exact hH used a rest h

/-- In front of a repetition stands its token, or what follows it where it ends. -/
theorem opens_while {l : Prop} {p q : τ → Bool} {B : σ → τ → Gram τ σ} (s : σ)
    (hp : ∀ t, p t = true → q t = true) (hF : ∀ rest, F rest → Before q rest) :
    Opens F (Before q) (While l p B s) := by
  intro used r rest h hrest
  cases h with
  | done => exact hF rest hrest
  | step ht =>
    intro t' hhead
    obtain rfl := Option.some.inj hhead
    exact hp _ ht

end Opens

section Lifts

variable {P : Prop} {F M : List τ → Prop} {G G' H H' : Gram τ α}

/-- A rule without optional parts is the same in both readings. -/
theorem Lifts.refl (G : Gram τ α) : Lifts P F G G :=
  fun _ _ _ _ h => h

/-- A rule that is settled by fewer following tokens is settled by more. -/
theorem Lifts.mono (h : Lifts P M G G') (hF : ∀ rest, F rest → M rest) : Lifts P F G G' :=
  fun used a rest hrest => h used a rest (hrest.imp_right (hF rest))

/-- Two rules in a row are settled, the first one by what the second opens with. -/
theorem Lifts.bind {K K' : α → Gram τ β} (hG : Lifts P M G G') (hopens : ∀ a, Opens F M (K a))
    (hK : ∀ a, Lifts P F (K a) (K' a)) : Lifts P F (G >>= K) (G' >>= K') := by
  rintro used b rest hrest ⟨u, a, v, rfl, hu, hv⟩
  exact ⟨u, a, v, rfl, hG u a _ (hrest.imp_right (hopens a v b rest hv)) hu, hK a v b rest hrest hv⟩

/-- Behind a part that the tokens behind it do not matter for. -/
theorem Lifts.then {K K' : α → Gram τ β} (hG : Lifts P (fun _ => True) G G')
    (hK : ∀ a, Lifts P F (K a) (K' a)) : Lifts P F (G >>= K) (G' >>= K') :=
  hG.bind (fun _ => opens_true) hK

/-- A choice is settled where both alternatives are. -/
theorem Lifts.sup (hG : Lifts P F G G') (hH : Lifts P F H H') : Lifts P F (G ⊔ H) (G' ⊔ H') := by
  rintro used a rest hrest (h | h)
  · exact Or.inl (hG used a rest hrest h)
  · exact Or.inr (hH used a rest hrest h)

theorem Lifts.starting (p : τ → Bool) (hG : Lifts P F G G') : Lifts P F (starting p G) (starting p G') :=
  fun used a rest hrest h => ⟨hG used a rest hrest h.1, h.2⟩

/-- A guard that implies the other one lets through what the other does. -/
theorem lifts_guard {Q Q' : Prop} (h : Q → Q') : Lifts P F (guard Q : Gram τ Unit) (guard Q') := by
  rintro used a rest _ ⟨rfl, hQ⟩
  exact ⟨rfl, h hQ⟩

variable {l l' : Prop} {p : τ → Bool}

/-- The end of an optional part is settled where its token cannot follow. -/
theorem lifts_stop (hP : P → l' → l) (hF : Misses F p) : Lifts P F (stop l p) (stop l' p) := by
  rintro used a rest hrest ⟨rfl, hstop⟩
  refine ⟨rfl, fun hl' => ?_⟩
  rcases hrest with hp | hrest
  · exact hstop (hP hp hl')
  · exact hF rest hrest

/-- The part behind a skipped one starts with a token of another kind. -/
theorem lifts_stop_bind {K K' : Unit → Gram τ α} (hP : P → l' → l) (hF : Misses M p)
    (hopens : Opens F M (K ())) (hK : Lifts P F (K ()) (K' ())) :
    Lifts P F (stop l p >>= K) (stop l' p >>= K') :=
  (lifts_stop hP hF).bind (fun _ => hopens) fun _ => hK

/-- A repetition is settled where its token cannot follow, and each round by the next one. -/
theorem lifts_while {B B' : σ → τ → Gram τ σ} (s : σ) (hP : P → l' → l) (hF : Misses F p)
    (hopens : ∀ s, Opens F M (While l p B s)) (hB : ∀ s t, Lifts P M (B s t) (B' s t)) :
    Lifts P F (While l p B s) (While l' p B' s) := by
  intro used r rest hrest h
  induction h with
  | done hstop =>
    refine .done fun hl' => ?_
    rcases hrest with hp | hrest
    · exact hstop (hP hp hl')
    · exact hF _ hrest
  | @step s s' r t used more rest ht hbody hmore ih =>
    exact .step ht (hB s t used s' _ (hrest.imp_right (hopens s' more r rest hmore)) hbody) (ih hrest)

/-- Two recursive rules, where the parts of the first are already lifted. -/
theorem lifts_lfp (f f' : Gram τ α →o Gram τ α)
    (h : ∀ r ≤ OrderHom.lfp f, Lifts P F r (OrderHom.lfp f') → Lifts P F (f r) (f' (OrderHom.lfp f'))) :
    Lifts P F (OrderHom.lfp f) (OrderHom.lfp f') := by
  let both : Gram τ α := fun used a rest =>
    OrderHom.lfp f used a rest ∧ (P ∨ F rest → OrderHom.lfp f' used a rest)
  have hboth : both ≤ OrderHom.lfp f := fun _ _ _ hr => hr.1
  have hlift : Lifts P F both (OrderHom.lfp f') := fun _ _ _ hrest hr => hr.2 hrest
  have hstep : f both ≤ both := by
    intro used a rest hr
    refine ⟨?_, fun hrest => ?_⟩
    · exact (OrderHom.map_lfp f).le used a rest (f.monotone hboth used a rest hr)
    · exact (OrderHom.map_lfp f').le used a rest (h both hboth hlift used a rest hrest hr)
  intro used a rest hrest hr
  exact ((OrderHom.lfp_le f hstep) used a rest hr).2 hrest

end Lifts

end Gram

end Descent

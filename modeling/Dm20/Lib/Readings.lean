import Dm20.Lib.LookAhead

/-! Several readings of one grammar that each leave some of its derivations out. Where the grammar
splits its tokens in one way only, what each of the readings derives is put together of the same
parts in all of them. -/

namespace Descent

variable {τ ε α β σ ι : Type}

namespace Gram

/-- The tokens settle which of them a derivation takes and what it makes of them. -/
def Unambiguous (G : Gram τ α) : Prop :=
  ∀ ⦃u u' rest rest' : List τ⦄ ⦃a a' : α⦄, u ++ rest = u' ++ rest' → G u a rest → G u' a' rest' →
    u = u' ∧ a = a' ∧ rest = rest'

/-- The readings `G` leave derivations of an unambiguous grammar out, and what all of them
derive, the reading `H` derives. -/
structure Meets (U : Gram τ α) (G : ι → Gram τ α) (H : Gram τ α) : Prop where
  unambiguous : U.Unambiguous
  le : ∀ i, G i ≤ U
  common : ∀ used a rest, (∀ i, G i used a rest) → H used a rest

end Gram

/-- What a parser computes is settled by its tokens. -/
theorem Implements.unambiguous {out : ε} {p : Nat → Parser τ ε α} {G : Gram τ α}
    (h : ∀ n, Implements out n (p n) G) : G.Unambiguous := by
  intro u u' rest rest' a a' htokens hu hu'
  have hp := (h (u.length + u'.length + 1)).complete hu (by omega)
  have hp' := (h (u.length + u'.length + 1)).complete hu' (by omega)
  rw [htokens, hp'] at hp
  obtain ⟨rfl, rfl⟩ : a' = a ∧ rest' = rest := by simpa using hp
  exact ⟨List.append_cancel_right htokens, rfl, rfl⟩

namespace Gram

variable [Nonempty ι]

/-- A rule that is the same in all readings meets itself, where it derives one way only. -/
theorem Unambiguous.meets {G : Gram τ α} (h : G.Unambiguous) : Meets G (fun _ : ι => G) G where
  unambiguous := h
  le _ := le_rfl
  common _ _ _ hall := hall (Classical.arbitrary ι)

/-- A rule without tokens that gives one result is unambiguous. -/
theorem unambiguous_of_empty {G : Gram τ α} {b : α} (h : ∀ used a rest, G used a rest → used = [] ∧ a = b) :
    G.Unambiguous := by
  intro u u' rest rest' a a' htokens hu hu'
  obtain ⟨rfl, rfl⟩ := h u a rest hu
  obtain ⟨rfl, rfl⟩ := h u' a' rest' hu'
  exact ⟨rfl, rfl, htokens⟩

/-- One token, with what is made of it. -/
theorem unambiguous_of_single {G : Gram τ α} (f : τ → Except ε α)
    (h : ∀ used a rest, G used a rest → ∃ t, used = [t] ∧ f t = .ok a) : G.Unambiguous := by
  intro u u' rest rest' a a' htokens hu hu'
  obtain ⟨t, rfl, ha⟩ := h u a rest hu
  obtain ⟨t', rfl, ha'⟩ := h u' a' rest' hu'
  obtain ⟨rfl, rfl⟩ := List.cons.inj htokens
  rw [ha] at ha'
  exact ⟨rfl, Except.ok.inj ha', rfl⟩

theorem meets_pure (a : α) : Meets (pure a : Gram τ α) (fun _ : ι => pure a) (pure a) :=
  (unambiguous_of_empty (b := a) fun _ _ _ h => h).meets

theorem meets_bot : Meets (⊥ : Gram τ α) (fun _ : ι => ⊥) ⊥ where
  unambiguous := by
    rintro u u' rest rest' a a' - hu -
    exact hu.elim
  le _ := le_rfl
  common _ _ _ hall := hall (Classical.arbitrary ι)

theorem meets_token (p : τ → Bool) : Meets (Gram.token p) (fun _ : ι => Gram.token p) (Gram.token p) :=
  (unambiguous_of_single (ε := Unit) (fun _ => .ok ()) fun _ _ _ ⟨t, hused, _⟩ => ⟨t, hused, rfl⟩).meets

/-- A computation on values is the same in every reading. -/
theorem meets_lift (x : Except ε α) : Meets (Gram.lift x : Gram τ α) (fun _ : ι => Gram.lift x) (Gram.lift x) := by
  cases x with
  | error e =>
    refine Unambiguous.meets ?_
    rintro u u' rest rest' a a' - ⟨-, ha⟩ -
    cases ha
  | ok b =>
    refine (unambiguous_of_empty (b := b) ?_).meets
    rintro used a rest ⟨rfl, ha⟩
    exact ⟨rfl, (Except.ok.inj ha).symm⟩

theorem meets_stop (l : Prop) (p : τ → Bool) :
    Meets (Gram.stop l p) (fun _ : ι => Gram.stop l p) (Gram.stop l p) :=
  (unambiguous_of_empty (b := ()) fun _ _ _ h => ⟨h.1, rfl⟩).meets

/-- A guard that each reading passes is one that the common reading passes. -/
theorem meets_guard {P Q : Prop} {R : ι → Prop} (hle : ∀ i, R i → P) (hcommon : (∀ i, R i) → Q) :
    Meets (Gram.guard P : Gram τ Unit) (fun i => Gram.guard (R i)) (Gram.guard Q) where
  unambiguous := unambiguous_of_empty (b := ()) fun _ _ _ h => ⟨h.1, rfl⟩
  le i _ _ _ h := ⟨h.1, hle i h.2⟩
  common _ _ _ hall := ⟨(hall (Classical.arbitrary ι)).1, hcommon fun i => (hall i).2⟩

/-- Readings of two rules in a row meet: the first rule takes the same tokens in each of them,
so the second one starts at the same place. -/
theorem Meets.bind {U : Gram τ α} {G : ι → Gram τ α} {H : Gram τ α} {V : α → Gram τ β} {K : ι → α → Gram τ β}
    {L : α → Gram τ β} (hG : Meets U G H) (hK : ∀ a, Meets (V a) (fun i => K i a) (L a)) :
    Meets (U >>= V) (fun i => G i >>= K i) (H >>= L) where
  unambiguous := by
    rintro u u' rest rest' b b' htokens ⟨x, a, y, rfl, hx, hy⟩ ⟨x', a', y', rfl, hx', hy'⟩
    rw [List.append_assoc, List.append_assoc] at htokens
    obtain ⟨rfl, rfl, hrest⟩ := hG.unambiguous htokens hx hx'
    obtain ⟨rfl, rfl, rfl⟩ := (hK a).unambiguous hrest hy hy'
    exact ⟨rfl, rfl, rfl⟩
  le i := bind_mono (hG.le i) fun a => (hK a).le i
  common := by
    intro used b rest hall
    obtain ⟨u, a, v, rfl, hu, -⟩ := hall (Classical.arbitrary ι)
    -- all readings cut the tokens behind the first part at the same place
    have hparts : ∀ i, G i u a (v ++ rest) ∧ K i a v b rest := by
      intro i
      obtain ⟨u', a', v', heq, hu', hv'⟩ := hall i
      have htokens : u ++ (v ++ rest) = u' ++ (v' ++ rest) := by
        rw [← List.append_assoc, heq, List.append_assoc]
      obtain ⟨rfl, rfl, hrest⟩ := hG.unambiguous htokens (hG.le _ _ _ _ hu) (hG.le i _ _ _ hu')
      obtain rfl := List.append_cancel_right hrest
      exact ⟨hu', hv'⟩
    exact ⟨u, a, v, rfl, hG.common u a _ fun i => (hparts i).1, (hK a).common v b rest fun i => (hparts i).2⟩

omit [Nonempty ι] in
/-- Two parts, of which the next token tells the one to take. -/
theorem Meets.alternative {l : Prop} (hl : l) {p : τ → Bool} {U V : Gram τ α} {G K : ι → Gram τ α} {H L : Gram τ α}
    (hstart : U.StartsWith p) (hG : Meets U G H) (hK : Meets V K L) :
    Meets (U ⊔ (Gram.stop l p >>= fun _ => V)) (fun i => G i ⊔ (Gram.stop l p >>= fun _ => K i))
      (H ⊔ (Gram.stop l p >>= fun _ => L)) where
  unambiguous := by
    have hstopped := (Meets.bind (meets_stop (ι := Unit) l p) fun _ => hK.unambiguous.meets).unambiguous
    have hapart : ∀ {u u' rest rest' a a'}, u ++ rest = u' ++ rest' → U u a rest →
        (Gram.stop l p >>= fun _ => V) u' a' rest' → False := by
      rintro u u' rest rest' a a' htokens hu ⟨x, b, y, rfl, ⟨rfl, hstop⟩, -⟩
      obtain ⟨t, hhead, ht⟩ := hstart u a rest hu
      have hnot := hstop hl t (by
        rw [List.nil_append] at htokens
        rw [← htokens, List.head?_append, Option.mem_def.mp hhead]
        rfl)
      rw [ht] at hnot
      cases hnot
    rintro u u' rest rest' a a' htokens (hu | hu) (hu' | hu')
    · exact hG.unambiguous htokens hu hu'
    · exact (hapart htokens hu hu').elim
    · exact (hapart htokens.symm hu' hu).elim
    · exact hstopped htokens hu hu'
  le i := sup_le_sup (hG.le i) (bind_mono le_rfl fun _ => hK.le i)
  common := by
    intro used a rest hall
    by_cases htaken : ∀ i, G i used a rest
    · exact Or.inl (hG.common used a rest htaken)
    · obtain ⟨i, hi⟩ := not_forall.mp htaken
      obtain ⟨x, b, y, rfl, ⟨rfl, hstop⟩, -⟩ := (hall i).resolve_left hi
      refine Or.inr ⟨[], (), y, rfl, ⟨rfl, hstop⟩, hK.common y a rest fun j => ?_⟩
      rcases hall j with hj | ⟨x', b', y', heq, ⟨rfl, -⟩, hj⟩
      · obtain ⟨t, hhead, ht⟩ := hstart _ _ _ (hG.le j _ _ _ hj)
        have hnot := hstop hl t (by
          rw [List.nil_append] at hhead
          rw [List.head?_append, Option.mem_def.mp hhead]
          rfl)
        rw [ht] at hnot
        cases hnot
      · rwa [show y = y' from heq]

/-- Readings of a rule that starts with a token of a kind meet as those of the rule do. -/
theorem Meets.starting {U : Gram τ α} {G : ι → Gram τ α} {H : Gram τ α} (p : τ → Bool) (hG : Meets U G H) :
    Meets (Gram.starting p U) (fun i => Gram.starting p (G i)) (Gram.starting p H) where
  unambiguous _ _ _ _ _ _ htokens hu hu' := hG.unambiguous htokens hu.1 hu'.1
  le i _ _ _ h := ⟨hG.le i _ _ _ h.1, h.2⟩
  common _ _ _ hall := ⟨hG.common _ _ _ fun i => (hall i).1, (hall (Classical.arbitrary ι)).2⟩

/-- A repetition that has taken a token has taken its body behind it. -/
theorem While.of_cons {l : Prop} {p : τ → Bool} {B : σ → τ → Gram τ σ} {s r : σ} {t : τ} {tokens rest : List τ}
    (h : While l p B s (t :: tokens) r rest) :
    ∃ used s' more, tokens = used ++ more ∧ p t = true ∧ B s t used s' (more ++ rest) ∧ While l p B s' more r rest := by
  cases h with
  | step ht hbody hmore => exact ⟨_, _, _, rfl, ht, hbody, hmore⟩

/-- Readings of a repetition meet, by induction on its rounds in the longest reading. -/
theorem Meets.loop {l : Prop} (hl : l) {p : τ → Bool} {U : σ → τ → Gram τ σ} {B : ι → σ → τ → Gram τ σ}
    {H : σ → τ → Gram τ σ} (hB : ∀ s t, Meets (U s t) (fun i => B i s t) (H s t)) (s : σ) :
    Meets (While l p U s) (fun i => While l p (B i) s) (While l p H s) where
  unambiguous := by
    intro u u' rest rest' r r' htokens hu hu'
    induction hu generalizing u' rest' r' with
    | done hstop =>
      cases hu' with
      | done => exact ⟨rfl, rfl, htokens⟩
      | step ht =>
        have hnot := hstop hl _ (by rw [List.nil_append] at htokens; rw [htokens]; rfl)
        rw [ht] at hnot
        cases hnot
    | @step s s' r t used more rest ht hbody hmore ih =>
      cases hu' with
      | done hstop =>
        have hnot := hstop hl t (by rw [List.nil_append] at htokens; rw [← htokens]; rfl)
        rw [ht] at hnot
        cases hnot
      | @step _ s'' _ t' used' more' _ ht' hbody' hmore' =>
        rw [List.cons_append, List.cons_append, List.append_assoc, List.append_assoc] at htokens
        obtain ⟨rfl, htail⟩ := List.cons.inj htokens
        obtain ⟨rfl, rfl, hrest⟩ := (hB s t).unambiguous htail hbody hbody'
        obtain ⟨rfl, rfl, rfl⟩ := ih hrest hmore'
        exact ⟨rfl, rfl, rfl⟩
  le i := While.mono (fun s t => (hB s t).le i) s
  common := by
    intro used r rest hall
    have hle := While.mono (fun s t => (hB s t).le (Classical.arbitrary ι)) s _ _ _ (hall (Classical.arbitrary ι))
    induction hle with
    | done hstop => exact .done hstop
    | @step s s' r t used more rest ht hbody hmore ih =>
      have hparts : ∀ i, B i s t used s' (more ++ rest) ∧ While l p (B i) s' more r rest := by
        intro i
        obtain ⟨used', s'', more', heq, -, hbody', hmore'⟩ := (hall i).of_cons
        have htokens : used ++ (more ++ rest) = used' ++ (more' ++ rest) := by
          rw [← List.append_assoc, heq, List.append_assoc]
        obtain ⟨rfl, rfl, hrest⟩ := (hB s t).unambiguous htokens hbody ((hB s t).le i _ _ _ hbody')
        obtain rfl := List.append_cancel_right hrest
        exact ⟨hbody', hmore'⟩
      exact .step ht ((hB s t).common _ _ _ fun i => (hparts i).1) (ih fun i => (hparts i).2)

/-- Readings of a recursive rule whose parts are readings of the whole. -/
theorem Meets.lfp {f : Gram τ α →o Gram τ α} {r : ι → Gram τ α →o Gram τ α} {k : Gram τ α →o Gram τ α}
    (hf : (OrderHom.lfp f).Unambiguous)
    (h : ∀ G, Meets (OrderHom.lfp f) G (OrderHom.lfp k) →
      Meets (f (OrderHom.lfp f)) (fun i => r i (G i)) (k (OrderHom.lfp k)))
    (hle : ∀ i, r i (OrderHom.lfp f) ≤ f (OrderHom.lfp f)) :
    Meets (OrderHom.lfp f) (fun i => OrderHom.lfp (r i)) (OrderHom.lfp k) := by
  classical
  have hbelow : ∀ i, OrderHom.lfp (r i) ≤ OrderHom.lfp f := fun i =>
    OrderHom.lfp_le (r i) ((hle i).trans (OrderHom.map_lfp f).le)
  refine ⟨hf, hbelow, fun used a rest hall => ?_⟩
  -- induction on the derivation in one of the readings
  let one := Classical.arbitrary ι
  let shared : Gram τ α := fun used a rest =>
    OrderHom.lfp (r one) used a rest ∧ ((∀ i, OrderHom.lfp (r i) used a rest) → OrderHom.lfp k used a rest)
  have hshared : shared ≤ OrderHom.lfp (r one) := fun _ _ _ hx => hx.1
  let parts : ι → Gram τ α := Function.update (fun i => OrderHom.lfp (r i)) one shared
  have hone : parts one = shared := Function.update_self ..
  have hother : ∀ i, i ≠ one → parts i = OrderHom.lfp (r i) := fun i hi => Function.update_of_ne hi ..
  have hparts : ∀ i, parts i ≤ OrderHom.lfp (r i) := by
    intro i
    by_cases hi : i = one
    · rw [hi, hone]
      exact hshared
    · rw [hother i hi]
  have hmeets : Meets (OrderHom.lfp f) parts (OrderHom.lfp k) := by
    refine ⟨hf, fun i => (hparts i).trans (hbelow i), fun used a rest hx => ?_⟩
    have hx' := hx one
    rw [hone] at hx'
    exact hx'.2 fun i => hparts i used a rest (hx i)
  have hstep : r one shared ≤ shared := by
    intro used a rest hx
    refine ⟨(OrderHom.map_lfp (r one)).le used a rest ((r one).monotone hshared used a rest hx), fun hall => ?_⟩
    refine (OrderHom.map_lfp k).le used a rest ((h parts hmeets).common used a rest fun i => ?_)
    by_cases hi : i = one
    · rw [hi, hone]
      exact hx
    · rw [hother i hi]
      exact (OrderHom.map_lfp (r i)).ge used a rest (hall i)
  exact ((OrderHom.lfp_le (r one) hstep) used a rest (hall one)).2 hall

end Gram

end Descent

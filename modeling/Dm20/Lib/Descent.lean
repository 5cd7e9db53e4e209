import Mathlib.Order.FixedPoints
import Mathlib.Order.CompletePartialOrder
import Mathlib.Order.ConditionallyCompleteLattice.Basic

/-- Recursive descent over a list of tokens, and grammars that say which tokens
a parser takes, what it makes of them and before which rest it stops. -/
def Descent.Parser (τ ε α : Type) : Type :=
  List τ → Except ε (α × List τ)

namespace Descent

variable {τ ε α β σ : Type}

namespace Parser

instance : Monad (Parser τ ε) where
  pure a := fun ts => .ok (a, ts)
  bind p f := fun ts =>
    match p ts with
    | .error e => .error e
    | .ok (a, rest) => f a rest

def fail (e : ε) : Parser τ ε α :=
  fun _ => .error e

/-- A computation that looks at no token. -/
def lift (x : Except ε α) : Parser τ ε α :=
  fun ts => x.map fun a => (a, ts)

/-- Takes one token and makes something of it. -/
def lexeme (f : τ → Except ε α) (empty : ε) : Parser τ ε α
  | [] => .error empty
  | t :: ts => (f t).map fun a => (a, ts)

/-- Takes the next token if it is the one looked for. -/
def accept (p : τ → Bool) : Parser τ ε Bool
  | [] => .ok (false, [])
  | t :: ts => if p t then .ok (true, ts) else .ok (false, t :: ts)

/-- Looks at the next token and leaves it. -/
def peek (p : τ → Bool) : Parser τ ε Bool
  | [] => .ok (false, [])
  | t :: ts => .ok (p t, t :: ts)

/-- Takes the next token, which has to be the one looked for. -/
def expect (p : τ → Bool) (e : ε) : Parser τ ε Unit
  | [] => .error e
  | t :: ts => if p t then .ok ((), ts) else .error e

/-- Puts a token back in front. -/
def pushToken (t : τ) : Parser τ ε Unit :=
  fun ts => .ok ((), t :: ts)

/-- Fails where no token is left. -/
def nonempty (e : ε) (p : Parser τ ε α) : Parser τ ε α
  | [] => .error e
  | t :: ts => p (t :: ts)

/-- Repeats a body as long as the token before it is the one looked for; each
unit of the bound allows one test. -/
def whileToken (out : ε) (p : τ → Bool) (body : σ → τ → Parser τ ε σ) : Nat → σ → Parser τ ε σ
  | 0, _ => fail out
  | n + 1, s => fun ts =>
    match ts with
    | [] => .ok (s, [])
    | t :: ts =>
      if p t then (body s t >>= whileToken out p body n) ts else .ok (s, t :: ts)

theorem bind_apply (p : Parser τ ε α) (f : α → Parser τ ε β) (ts : List τ) :
    (p >>= f) ts =
      match p ts with
      | .error e => .error e
      | .ok (a, rest) => f a rest := rfl

theorem bind_of_ok {p : Parser τ ε α} {f : α → Parser τ ε β} {ts rest : List τ} {a : α}
    (h : p ts = .ok (a, rest)) : (p >>= f) ts = f a rest := by
  rw [bind_apply, h]

theorem bind_eq_ok {p : Parser τ ε α} {f : α → Parser τ ε β} {ts rest : List τ} {b : β}
    (h : (p >>= f) ts = .ok (b, rest)) : ∃ a mid, p ts = .ok (a, mid) ∧ f a mid = .ok (b, rest) := by
  rw [bind_apply] at h
  cases hp : p ts with
  | error e => simp [hp] at h
  | ok r => exact ⟨r.1, r.2, rfl, by simpa [hp] using h⟩

/-- A sequence fails where its first part does, or its second part at what the first one left. -/
theorem bind_eq_error {p : Parser τ ε α} {f : α → Parser τ ε β} {ts : List τ} {e : ε}
    (h : (p >>= f) ts = .error e) :
    p ts = .error e ∨ ∃ a mid, p ts = .ok (a, mid) ∧ f a mid = .error e := by
  rw [bind_apply] at h
  cases hp : p ts with
  | error e' =>
    left
    simpa [hp] using h
  | ok r =>
    right
    exact ⟨r.1, r.2, rfl, by simpa [hp] using h⟩

end Parser

/-- A grammar: the tokens it takes, the value it gives them, the tokens behind. -/
def Gram (τ α : Type) : Type :=
  List τ → α → List τ → Prop

namespace Gram

instance : CompleteLattice (Gram τ α) :=
  inferInstanceAs (CompleteLattice (List τ → α → List τ → Prop))

instance : Monad (Gram τ) where
  pure a := fun used b _ => used = [] ∧ b = a
  bind G H := fun used b rest =>
    ∃ u a v, used = u ++ v ∧ G u a (v ++ rest) ∧ H a v b rest

/-- A token of a kind, with what is made of it. -/
def lexeme (f : τ → Except ε α) : Gram τ α :=
  fun used a _ => ∃ t, used = [t] ∧ f t = .ok a

/-- A token of a kind. -/
def token (p : τ → Bool) : Gram τ Unit :=
  fun used _ _ => ∃ t, used = [t] ∧ p t = true

/-- No token, where a computation succeeds. -/
def lift (x : Except ε α) : Gram τ α :=
  fun used a _ => used = [] ∧ x = .ok a

/-- No token, under a condition. -/
def guard (P : Prop) : Gram τ Unit :=
  fun used _ _ => used = [] ∧ P

/-- No token; in the longest reading the next one is not of the kind. -/
def stop (longest : Prop) (p : τ → Bool) : Gram τ Unit :=
  fun used _ rest => used = [] ∧ (longest → ∀ t ∈ rest.head?, p t = false)

/-- What a grammar derives from tokens that start with one of a kind. -/
def starting (p : τ → Bool) (G : Gram τ α) : Gram τ α :=
  fun used a rest => G used a rest ∧ ∃ t ∈ used.head?, p t = true

/-- A body repeated behind each token of a kind, until a token is not of the kind. -/
inductive While (longest : Prop) (p : τ → Bool) (B : σ → τ → Gram τ σ) : σ → Gram τ σ where
  | done {s : σ} {rest : List τ} (hstop : longest → ∀ t ∈ rest.head?, p t = false) :
      While longest p B s [] s rest
  | step {s s' r : σ} {t : τ} {used more rest : List τ} (ht : p t = true)
      (hbody : B s t used s' (more ++ rest)) (hmore : While longest p B s' more r rest) :
      While longest p B s (t :: (used ++ more)) r rest

/-- A guard that holds may be left out. -/
theorem guard_bind {P : Prop} (hP : P) (K : Unit → Gram τ α) : guard P >>= K = K () := by
  funext used a rest
  refine propext ⟨?_, fun h => ⟨[], (), used, rfl, ⟨rfl, hP⟩, h⟩⟩
  rintro ⟨u, ⟨⟩, v, rfl, ⟨rfl, -⟩, h⟩
  exact h

/-- More derivations of the parts make more derivations of the whole. -/
theorem bind_mono {G G' : Gram τ α} {H H' : α → Gram τ β} (hG : G ≤ G') (hH : ∀ a, H a ≤ H' a) :
    G >>= H ≤ G' >>= H' := by
  rintro used b rest ⟨u, a, v, rfl, hu, hv⟩
  exact ⟨u, a, v, rfl, hG _ _ _ hu, hH a _ _ _ hv⟩

theorem While.mono {longest : Prop} {p : τ → Bool} {B B' : σ → τ → Gram τ σ}
    (hB : ∀ s t, B s t ≤ B' s t) (s : σ) : While longest p B s ≤ While longest p B' s := by
  intro used r rest h
  induction h with
  | done hstop => exact .done hstop
  | step ht hbody _ ih => exact .step ht (hB _ _ _ _ _ hbody) ih

/-- Every derivation takes a token. -/
def Consumes (G : Gram τ α) : Prop :=
  ∀ used a rest, G used a rest → used ≠ []

/-- Every derivation takes a token of the kind first. -/
def StartsWith (p : τ → Bool) (G : Gram τ α) : Prop :=
  ∀ used a rest, G used a rest → ∃ t ∈ used.head?, p t = true

/-- A rule takes a token if its first part does. -/
theorem Consumes.bind {G : Gram τ α} {H : α → Gram τ β} (hG : G.Consumes) : (G >>= H).Consumes := by
  rintro used b rest ⟨u, a, v, rfl, hu, -⟩
  have := hG u a _ hu
  simp [this]

/-- A rule takes a token if its second part does. -/
theorem Consumes.bind_right {G : Gram τ α} {H : α → Gram τ β} (hH : ∀ a, (H a).Consumes) :
    (G >>= H).Consumes := by
  rintro used b rest ⟨u, a, v, rfl, -, hv⟩
  have := hH a v b rest hv
  simp [this]

theorem Consumes.sup {G H : Gram τ α} (hG : G.Consumes) (hH : H.Consumes) : (G ⊔ H).Consumes := by
  rintro used a rest (h | h)
  · exact hG used a rest h
  · exact hH used a rest h

/-- A rule that starts with a token of a kind takes one. -/
theorem StartsWith.consumes {p : τ → Bool} {G : Gram τ α} (hG : G.StartsWith p) : G.Consumes := by
  rintro used a rest h rfl
  obtain ⟨t, hhead, -⟩ := hG [] a rest h
  simp at hhead

/-- A rule starts as its first part does. -/
theorem StartsWith.bind {p : τ → Bool} {G : Gram τ α} {H : α → Gram τ β} (hG : G.StartsWith p) :
    (G >>= H).StartsWith p := by
  rintro used b rest ⟨u, a, v, rfl, hu, -⟩
  obtain ⟨t, hhead, ht⟩ := hG u a _ hu
  exact ⟨t, by simp [List.head?_append, Option.mem_def.mp hhead], ht⟩

theorem startsWith_token (p : τ → Bool) : (Gram.token p).StartsWith p := by
  rintro used a rest ⟨t, rfl, ht⟩
  exact ⟨t, by simp, ht⟩

theorem startsWith_starting (p : τ → Bool) (G : Gram τ α) : (starting p G).StartsWith p :=
  fun _ _ _ h => h.2

/-- A rule that starts with a token of a kind is not changed by looking for one first. -/
theorem StartsWith.starting_eq {p : τ → Bool} {G : Gram τ α} (hG : G.StartsWith p) :
    starting p G = G := by
  funext used a rest
  exact propext ⟨fun h => h.1, fun h => ⟨h, hG used a rest h⟩⟩

theorem consumes_token (p : τ → Bool) : (Gram.token p).Consumes :=
  (startsWith_token p).consumes

/-- Every value derived has a property. -/
def Ensures (P : α → Prop) (G : Gram τ α) : Prop :=
  ∀ used a rest, G used a rest → P a

/-- A property of all results implies each weaker one. -/
theorem Ensures.mono {P Q : α → Prop} {G : Gram τ α} (hG : G.Ensures P) (hPQ : ∀ a, P a → Q a) : G.Ensures Q :=
  fun used a rest h => hPQ a (hG used a rest h)

theorem Ensures.pure {P : α → Prop} {a : α} (ha : P a) : (Pure.pure a : Gram τ α).Ensures P := by
  rintro used b rest ⟨rfl, rfl⟩
  exact ha

theorem Ensures.bot {P : α → Prop} : (⊥ : Gram τ α).Ensures P :=
  fun _ _ _ h => h.elim

/-- What the first part ensures may be used of what is given to the second. -/
theorem Ensures.bind {P : α → Prop} {Q : β → Prop} {G : Gram τ α} {H : α → Gram τ β} (hG : G.Ensures P)
    (hH : ∀ a, P a → (H a).Ensures Q) : (G >>= H).Ensures Q := by
  rintro used b rest ⟨u, a, v, rfl, hu, hv⟩
  exact hH a (hG u a _ hu) v b rest hv

theorem Ensures.bind_right {Q : β → Prop} {G : Gram τ α} {H : α → Gram τ β} (hH : ∀ a, (H a).Ensures Q) :
    (G >>= H).Ensures Q := by
  rintro used b rest ⟨u, a, v, rfl, -, hv⟩
  exact hH a v b rest hv

/-- Both of two alternatives ensure what their choice does. -/
theorem Ensures.sup {P : α → Prop} {G H : Gram τ α} (hG : G.Ensures P) (hH : H.Ensures P) : (G ⊔ H).Ensures P := by
  rintro used a rest (h | h)
  · exact hG used a rest h
  · exact hH used a rest h

theorem Ensures.lift {x : Except ε α} : (Gram.lift x : Gram τ α).Ensures fun a => x = .ok a :=
  fun _ _ _ h => h.2

theorem Ensures.starting {P : α → Prop} {p : τ → Bool} {G : Gram τ α} (hG : G.Ensures P) :
    (starting p G).Ensures P :=
  fun used a rest h => hG used a rest h.1

/-- A loop keeps what each of its rounds keeps. -/
theorem Ensures.loop {P : σ → Prop} {longest : Prop} {p : τ → Bool} {B : σ → τ → Gram τ σ}
    (hB : ∀ s t, P s → (B s t).Ensures P) {s : σ} (hs : P s) : (While longest p B s).Ensures P := by
  intro used r rest h
  induction h with
  | done hstop => exact hs
  | step ht hbody _ ih => exact ih (hB _ _ hs _ _ _ hbody)

/-- What the rule of a least solution keeps, its values have. -/
theorem Ensures.lfp {P : α → Prop} {F : Gram τ α →o Gram τ α} (hF : ∀ G, G.Ensures P → (F G).Ensures P) :
    (OrderHom.lfp F).Ensures P := by
  have hle : OrderHom.lfp F ≤ fun _ a _ => P a := OrderHom.lfp_le F (hF _ fun _ _ _ h => h)
  exact fun used a rest h => hle used a rest h

/-- Every value derived from tokens with one property has another. -/
def EnsuresFrom (q : τ → Prop) (P : α → Prop) (G : Gram τ α) : Prop :=
  ∀ used a rest, G used a rest → (∀ t ∈ used, q t) → P a

/-- What holds of all results holds of those from tokens of a kind. -/
theorem Ensures.from {q : τ → Prop} {P : α → Prop} {G : Gram τ α} (hG : G.Ensures P) : G.EnsuresFrom q P :=
  fun used a rest h _ => hG used a rest h

theorem EnsuresFrom.mono {q : τ → Prop} {P Q : α → Prop} {G : Gram τ α} (hG : G.EnsuresFrom q P)
    (hPQ : ∀ a, P a → Q a) : G.EnsuresFrom q Q :=
  fun used a rest h hused => hPQ a (hG used a rest h hused)

theorem EnsuresFrom.pure {q : τ → Prop} {P : α → Prop} {a : α} (ha : P a) : (Pure.pure a : Gram τ α).EnsuresFrom q P :=
  (Ensures.pure ha).from

theorem EnsuresFrom.bot {q : τ → Prop} {P : α → Prop} : (⊥ : Gram τ α).EnsuresFrom q P :=
  Ensures.bot.from

/-- The tokens of both parts are among those of the whole, so the kind is handed down. -/
theorem EnsuresFrom.bind {q : τ → Prop} {P : α → Prop} {Q : β → Prop} {G : Gram τ α} {H : α → Gram τ β}
    (hG : G.EnsuresFrom q P) (hH : ∀ a, P a → (H a).EnsuresFrom q Q) : (G >>= H).EnsuresFrom q Q := by
  rintro used b rest ⟨u, a, v, rfl, hu, hv⟩ hused
  have ha := hG u a _ hu fun t ht => hused t (List.mem_append_left v ht)
  exact hH a ha v b rest hv fun t ht => hused t (List.mem_append_right u ht)

theorem EnsuresFrom.bind_right {q : τ → Prop} {Q : β → Prop} {G : Gram τ α} {H : α → Gram τ β}
    (hH : ∀ a, (H a).EnsuresFrom q Q) : (G >>= H).EnsuresFrom q Q := by
  rintro used b rest ⟨u, a, v, rfl, -, hv⟩ hused
  exact hH a v b rest hv fun t ht => hused t (List.mem_append_right u ht)

theorem EnsuresFrom.sup {q : τ → Prop} {P : α → Prop} {G H : Gram τ α} (hG : G.EnsuresFrom q P)
    (hH : H.EnsuresFrom q P) : (G ⊔ H).EnsuresFrom q P := by
  rintro used a rest (h | h) hused
  · exact hG used a rest h hused
  · exact hH used a rest h hused

/-- A loop over tokens of a kind keeps what each of its rounds keeps. -/
theorem EnsuresFrom.loop {q : τ → Prop} {P : σ → Prop} {longest : Prop} {p : τ → Bool} {B : σ → τ → Gram τ σ}
    (hB : ∀ s t, P s → (B s t).EnsuresFrom q P) {s : σ} (hs : P s) : (While longest p B s).EnsuresFrom q P := by
  intro used r rest h hused
  induction h with
  | done hstop => exact hs
  | step ht hbody _ ih =>
    refine ih (hB _ _ hs _ _ _ hbody fun t ht => hused t ?_) fun t ht => hused t ?_
    · simp [ht]
    · simp [ht]

/-- A recursive rule ensures what one unfolding keeps, by induction on the derivation. -/
theorem EnsuresFrom.lfp {q : τ → Prop} {P : α → Prop} {F : Gram τ α →o Gram τ α}
    (hF : ∀ G, G.EnsuresFrom q P → (F G).EnsuresFrom q P) : (OrderHom.lfp F).EnsuresFrom q P := by
  have hle : OrderHom.lfp F ≤ fun used a _ => (∀ t ∈ used, q t) → P a := OrderHom.lfp_le F (hF _ fun _ _ _ h => h)
  exact fun used a rest h => hle used a rest h

end Gram

/-- The parser computes the grammar: what it returns is derived, what is derived
from fewer tokens than the bound it returns, and on fewer tokens than the bound
it does not run out of fuel. -/
structure Implements (out : ε) (n : Nat) (p : Parser τ ε α) (G : Gram τ α) : Prop where
  sound : ∀ {ts a rest}, p ts = .ok (a, rest) → ∃ used, ts = used ++ rest ∧ G used a rest
  complete : ∀ {used a rest}, G used a rest → used.length < n → p (used ++ rest) = .ok (a, rest)
  total : ∀ {ts}, ts.length < n → p ts ≠ .error out

namespace Implements

variable {out : ε} {n m : Nat}

/-- A parser that implements a rule up to a length does so up to each smaller one. -/
theorem mono {p : Parser τ ε α} {G : Gram τ α} (hp : Implements out n p G) (hle : m ≤ n) :
    Implements out m p G where
  sound := hp.sound
  complete h hlt := hp.complete h (by omega)
  total hlt := hp.total (by omega)

/-- To return a value is to take no token. -/
theorem pure (a : α) : Implements out n (pure a : Parser τ ε α) (Pure.pure a) where
  sound := by
    intro ts a' rest h
    cases h
    exact ⟨[], rfl, rfl, rfl⟩
  complete := by
    rintro used a' rest ⟨rfl, rfl⟩ _
    rfl
  total := by
    intro ts _ h
    cases h

theorem fail {e : ε} (he : e ≠ out) : Implements out n (Parser.fail e : Parser τ ε α) ⊥ where
  sound h := by cases h
  complete h := h.elim
  total := by
    intro ts _ h
    cases h
    exact he rfl

/-- Without fuel nothing has to be parsed. -/
theorem outOfFuel {G : Gram τ α} : Implements out 0 (Parser.fail out : Parser τ ε α) G where
  sound h := by cases h
  complete _ hlt := absurd hlt (Nat.not_lt_zero _)
  total hlt := absurd hlt (Nat.not_lt_zero _)

/-- A computation on values that does not run out of fuel implements its own lifting. -/
theorem lift {x : Except ε α} (hx : x ≠ .error out) :
    Implements out n (Parser.lift x : Parser τ ε α) (Gram.lift x) where
  sound := by
    intro ts a rest h
    cases x with
    | error e => cases h
    | ok b =>
      cases h
      exact ⟨[], rfl, rfl, rfl⟩
  complete := by
    rintro used a rest ⟨rfl, rfl⟩ _
    rfl
  total := by
    intro ts _ h
    cases x with
    | error e =>
      cases h
      exact hx rfl
    | ok b => cases h

theorem lift_of_iff {x : Except ε α} {G : Gram τ α} (hx : x ≠ .error out)
    (hG : ∀ used a rest, G used a rest ↔ used = [] ∧ x = .ok a) :
    Implements out n (Parser.lift x : Parser τ ε α) G := by
  have heq : G = Gram.lift x := by
    funext used a rest
    exact propext (hG used a rest)
  rw [heq]
  exact lift hx

/-- A single token is parsed just if it passes its check. -/
theorem lexeme {f : τ → Except ε α} {empty : ε} (hempty : empty ≠ out) (hf : ∀ t, f t ≠ .error out) :
    Implements out n (Parser.lexeme f empty) (Gram.lexeme f) where
  sound := by
    intro ts a rest h
    cases ts with
    | nil => cases h
    | cons t ts =>
      simp only [Parser.lexeme] at h
      cases hft : f t with
      | error e => simp [hft, Except.map] at h
      | ok b =>
        obtain ⟨rfl, rfl⟩ : b = a ∧ ts = rest := by simpa [hft, Except.map] using h
        exact ⟨[t], rfl, t, rfl, hft⟩
  complete := by
    rintro used a rest ⟨t, rfl, hft⟩ _
    simp [Parser.lexeme, hft, Except.map]
  total := by
    intro ts _ h
    cases ts with
    | nil =>
      cases h
      exact hempty rfl
    | cons t ts =>
      simp only [Parser.lexeme] at h
      cases hft : f t with
      | error e =>
        refine hf t ?_
        simpa [hft, Except.map] using h
      | ok b => simp [hft, Except.map] at h

theorem lexeme_of_iff {f : τ → Except ε α} {empty : ε} {G : Gram τ α} (hempty : empty ≠ out)
    (hf : ∀ t, f t ≠ .error out)
    (hG : ∀ used a rest, G used a rest ↔ ∃ t, used = [t] ∧ f t = .ok a) :
    Implements out n (Parser.lexeme f empty) G := by
  have heq : G = Gram.lexeme f := by
    funext used a rest
    exact propext (hG used a rest)
  rw [heq]
  exact lexeme hempty hf

/-- An expected token is parsed just if it is the next one. -/
theorem expect {p : τ → Bool} {e : ε} (he : e ≠ out) :
    Implements out n (Parser.expect p e) (Gram.token p) where
  sound := by
    intro ts a rest h
    cases ts with
    | nil => cases h
    | cons t ts =>
      by_cases ht : p t = true
      · obtain rfl : ts = rest := by simpa [Parser.expect, ht] using h
        exact ⟨[t], rfl, t, rfl, ht⟩
      · simp [Parser.expect, ht] at h
  complete := by
    rintro used a rest ⟨t, rfl, ht⟩ _
    simp [Parser.expect, ht]
  total := by
    intro ts _ h
    cases ts with
    | nil =>
      cases h
      exact he rfl
    | cons t ts =>
      by_cases ht : p t = true
      · simp [Parser.expect, ht] at h
      · refine he ?_
        simpa [Parser.expect, ht] using h

/-- A rule that takes a token does not apply to the end of the tokens, so it may be asked for
first. -/
theorem nonempty {e : ε} {p : Parser τ ε α} {G : Gram τ α} (he : e ≠ out) (hG : G.Consumes)
    (hp : Implements out n p G) : Implements out n (Parser.nonempty e p) G where
  sound := by
    intro ts a rest h
    cases ts with
    | nil => cases h
    | cons t ts => exact hp.sound h
  complete := by
    intro used a rest h hlt
    cases used with
    | nil => exact absurd rfl (hG [] a rest h)
    | cons t used => exact hp.complete h hlt
  total := by
    intro ts hlt h
    cases ts with
    | nil =>
      cases h
      exact he rfl
    | cons t ts => exact hp.total hlt h

/-- Behind a part that takes `k` tokens the bound may be less by as many. -/
theorem bind_of_le {p : Parser τ ε α} {f : α → Parser τ ε β} {G : Gram τ α} {H : α → Gram τ β} {k : Nat}
    (hG : ∀ used a rest, G used a rest → k ≤ used.length) (hp : Implements out n p G)
    (hf : ∀ a, Implements out (n - k) (f a) (H a)) : Implements out n (p >>= f) (G >>= H) where
  sound := by
    intro ts b rest h
    obtain ⟨a, mid, hpa, hfa⟩ := Parser.bind_eq_ok h
    obtain ⟨u, rfl, hGu⟩ := hp.sound hpa
    obtain ⟨v, rfl, hHv⟩ := (hf a).sound hfa
    exact ⟨u ++ v, by simp, u, a, v, rfl, hGu, hHv⟩
  complete := by
    rintro used b rest ⟨u, a, v, rfl, hGu, hHv⟩ hlt
    have hk := hG u a _ hGu
    rw [List.length_append] at hlt
    rw [List.append_assoc, Parser.bind_of_ok (hp.complete hGu (by omega))]
    exact (hf a).complete hHv (by omega)
  total := by
    intro ts hlt h
    rcases Parser.bind_eq_error h with hpe | ⟨a, mid, hpa, hfe⟩
    · exact hp.total hlt hpe
    · obtain ⟨u, rfl, hGu⟩ := hp.sound hpa
      have hk := hG u a _ hGu
      rw [List.length_append] at hlt
      exact (hf a).total (by omega) hfe

/-- Parsers in a row implement rules in a row. -/
theorem bind {p : Parser τ ε α} {f : α → Parser τ ε β} {G : Gram τ α} {H : α → Gram τ β}
    (hp : Implements out n p G) (hf : ∀ a, Implements out n (f a) (H a)) :
    Implements out n (p >>= f) (G >>= H) :=
  bind_of_le (k := 0) (fun _ _ _ _ => Nat.zero_le _) hp hf

/-- Behind a rule that takes a token, one unit of fuel less is enough. -/
theorem bind_consumes {p : Parser τ ε α} {f : α → Parser τ ε β} {G : Gram τ α} {H : α → Gram τ β}
    (hG : G.Consumes) (hp : Implements out n p G) (hf : ∀ a, Implements out (n - 1) (f a) (H a)) :
    Implements out n (p >>= f) (G >>= H) :=
  bind_of_le (k := 1) (fun used a rest h => List.length_pos_iff.mpr (hG used a rest h)) hp hf

/-- A computation on values may be bound before a parser, as the rule is bound behind it. -/
theorem bind_lift {x : Except ε α} {f : α → Parser τ ε β} {H : α → Gram τ β} (hx : x ≠ .error out)
    (hf : ∀ a, x = .ok a → Implements out n (f a) (H a)) :
    Implements out n (Parser.lift x >>= f) (Gram.lift x >>= H) := by
  cases x with
  | error e =>
    constructor
    · intro ts b rest h
      cases h
    · rintro used b rest ⟨u, a, v, -, ⟨-, ha⟩, -⟩ _
      cases ha
    · intro ts _ h
      cases h
      exact hx rfl
  | ok a =>
    have hparser : (Parser.lift (.ok a) >>= f : Parser τ ε β) = f a := rfl
    have hgram : (Gram.lift (.ok a : Except ε α) >>= H : Gram τ β) = H a := by
      funext used b rest
      refine propext ⟨?_, fun h => ⟨[], a, used, rfl, ⟨rfl, rfl⟩, h⟩⟩
      rintro ⟨u, a', v, rfl, ⟨rfl, ha⟩, h⟩
      cases ha
      exact h
    rw [hparser, hgram]
    exact hf a rfl

/-- A branch on the next token, which the first branch has taken. -/
theorem accept {p : τ → Bool} {A B : Parser τ ε α} {G H : Gram τ α} {longest : Prop} (hlongest : longest)
    (hA : Implements out (n - 1) A G) (hB : Implements out n B H) :
    Implements out n (Parser.accept p >>= fun b => if b then A else B)
      ((Gram.token p >>= fun _ => G) ⊔ (Gram.stop longest p >>= fun _ => H)) where
  sound := by
    intro ts a rest h
    cases ts with
    | nil =>
      obtain ⟨used, hused, hH⟩ := hB.sound (show B [] = _ by simpa [Parser.bind_apply, Parser.accept] using h)
      refine ⟨used, hused, Or.inr ⟨[], (), used, rfl, ⟨rfl, ?_⟩, hH⟩⟩
      simp [← hused]
    | cons t ts =>
      by_cases ht : p t = true
      · obtain ⟨used, rfl, hG⟩ := hA.sound (show A ts = _ by simpa [Parser.bind_apply, Parser.accept, ht] using h)
        exact ⟨t :: used, rfl, Or.inl ⟨[t], (), used, rfl, ⟨t, rfl, ht⟩, hG⟩⟩
      · obtain ⟨used, hused, hH⟩ :=
          hB.sound (show B (t :: ts) = _ by simpa [Parser.bind_apply, Parser.accept, ht] using h)
        refine ⟨used, hused, Or.inr ⟨[], (), used, rfl, ⟨rfl, ?_⟩, hH⟩⟩
        simp [← hused, ht]
  complete := by
    rintro used a rest (⟨u, b, v, rfl, ⟨t, rfl, ht⟩, hG⟩ | ⟨u, b, v, rfl, ⟨rfl, hstop⟩, hH⟩) hlt
    · have := hA.complete hG (by simp at hlt; omega)
      simpa [Parser.bind_apply, Parser.accept, ht] using this
    · have := hB.complete hH hlt
      rw [List.nil_append] at *
      cases hts : v ++ rest with
      | nil => simpa [Parser.bind_apply, Parser.accept, hts] using this
      | cons t ts =>
        have ht : p t = false := hstop hlongest t (by simp [hts])
        simpa [Parser.bind_apply, Parser.accept, hts, ht] using this
  total := by
    intro ts hlt h
    cases ts with
    | nil => exact hB.total hlt (by simpa [Parser.bind_apply, Parser.accept] using h)
    | cons t ts =>
      by_cases ht : p t = true
      · exact hA.total (by simp at hlt; omega)
          (show A ts = _ by simpa [Parser.bind_apply, Parser.accept, ht] using h)
      · exact hB.total hlt (by simpa [Parser.bind_apply, Parser.accept, ht] using h)

/-- A branch on the next token, which the first branch takes itself. -/
theorem peek_starting {p : τ → Bool} {A B : Parser τ ε α} {G H : Gram τ α} {longest : Prop}
    (hlongest : longest) (hG : G.Consumes) (hA : Implements out n A G) (hB : Implements out n B H) :
    Implements out n (Parser.peek p >>= fun b => if b then A else B)
      (Gram.starting p G ⊔ (Gram.stop longest p >>= fun _ => H)) where
  sound := by
    intro ts a rest h
    cases ts with
    | nil =>
      obtain ⟨used, hused, hH⟩ := hB.sound (show B [] = _ by simpa [Parser.bind_apply, Parser.peek] using h)
      refine ⟨used, hused, Or.inr ⟨[], (), used, rfl, ⟨rfl, ?_⟩, hH⟩⟩
      simp [← hused]
    | cons t ts =>
      by_cases ht : p t = true
      · obtain ⟨used, hused, hGu⟩ :=
          hA.sound (show A (t :: ts) = _ by simpa [Parser.bind_apply, Parser.peek, ht] using h)
        refine ⟨used, hused, Or.inl ⟨hGu, ?_⟩⟩
        cases used with
        | nil => exact absurd rfl (hG [] a rest hGu)
        | cons t' used =>
          obtain ⟨rfl, -⟩ := List.cons.inj hused
          exact ⟨t, rfl, ht⟩
      · obtain ⟨used, hused, hH⟩ :=
          hB.sound (show B (t :: ts) = _ by simpa [Parser.bind_apply, Parser.peek, ht] using h)
        refine ⟨used, hused, Or.inr ⟨[], (), used, rfl, ⟨rfl, ?_⟩, hH⟩⟩
        simp [← hused, ht]
  complete := by
    rintro used a rest (⟨hGu, t, hhead, ht⟩ | ⟨u, b, v, rfl, ⟨rfl, hstop⟩, hH⟩) hlt
    · have := hA.complete hGu hlt
      cases used with
      | nil => simp at hhead
      | cons t' used =>
        obtain rfl : t' = t := by simpa using hhead
        simpa [Parser.bind_apply, Parser.peek, ht] using this
    · have := hB.complete hH hlt
      rw [List.nil_append] at *
      cases hts : v ++ rest with
      | nil => simpa [Parser.bind_apply, Parser.peek, hts] using this
      | cons t ts =>
        have ht : p t = false := hstop hlongest t (by simp [hts])
        simpa [Parser.bind_apply, Parser.peek, hts, ht] using this
  total := by
    intro ts hlt h
    cases ts with
    | nil => exact hB.total hlt (by simpa [Parser.bind_apply, Parser.peek] using h)
    | cons t ts =>
      by_cases ht : p t = true
      · exact hA.total hlt (by simpa [Parser.bind_apply, Parser.peek, ht] using h)
      · exact hB.total hlt (by simpa [Parser.bind_apply, Parser.peek, ht] using h)

/-- A look at the next token tells the alternatives apart, in the longest reading. -/
theorem peek {p : τ → Bool} {A B : Parser τ ε α} {G H : Gram τ α} {longest : Prop} (hlongest : longest)
    (hstart : G.StartsWith p) (hA : Implements out n A G) (hB : Implements out n B H) :
    Implements out n (Parser.peek p >>= fun b => if b then A else B)
      (G ⊔ (Gram.stop longest p >>= fun _ => H)) := by
  have h := peek_starting hlongest hstart.consumes hA hB (p := p)
  rwa [hstart.starting_eq] at h

/-- A token that must not follow. -/
theorem refuse {p : τ → Bool} {e : ε} {longest : Prop} (hlongest : longest) (he : e ≠ out) :
    Implements out n (Parser.accept p >>= fun b => if b then Parser.fail e else Pure.pure ())
      (Gram.stop longest p) := by
  have heq : Gram.stop longest p =
      (Gram.token p >>= fun _ => ⊥) ⊔ (Gram.stop longest p >>= fun _ => Pure.pure ()) := by
    funext used a rest
    refine propext ⟨fun h => Or.inr ⟨[], (), [], by simp [h.1], ⟨rfl, h.2⟩, rfl, rfl⟩, ?_⟩
    rintro (⟨u, b, v, -, -, h⟩ | ⟨u, b, v, rfl, ⟨rfl, hstop⟩, rfl, -⟩)
    · exact h.elim
    · exact ⟨rfl, hstop⟩
  rw [heq]
  exact accept hlongest (fail he) (pure ())

/-- A loop that goes on while a token shows is the longest reading of a repetition. -/
theorem whileToken {p : τ → Bool} {body : σ → τ → Parser τ ε σ} {B : σ → τ → Gram τ σ} {longest : Prop}
    (hlongest : longest) (hbody : ∀ s t, Implements out (n - 1) (body s t) (B s t)) (s : σ) :
    Implements out n (Parser.whileToken out p body n s) (Gram.While longest p B s) := by
  induction n generalizing s with
  | zero =>
    constructor
    · intro ts a rest h
      cases h
    · intro used a rest _ hlt
      omega
    · intro ts hlt
      omega
  | succ n ih =>
    have hrest : ∀ s, Implements out n (Parser.whileToken out p body n s) (Gram.While longest p B s) :=
      ih fun s t => (hbody s t).mono (by omega)
    have hstep : ∀ t, Implements out n (body s t >>= Parser.whileToken out p body n)
        (B s t >>= Gram.While longest p B) := fun t => bind (hbody s t) hrest
    constructor
    · intro ts r rest h
      cases ts with
      | nil =>
        cases h
        exact ⟨[], rfl, .done (by simp)⟩
      | cons t ts =>
        by_cases ht : p t = true
        · obtain ⟨used, rfl, u, s', more, rfl, hB, hW⟩ :=
            (hstep t).sound (show (body s t >>= Parser.whileToken out p body n) ts = _ by
              simpa [Parser.whileToken, ht] using h)
          exact ⟨_, rfl, .step ht hB hW⟩
        · obtain ⟨rfl, rfl⟩ : s = r ∧ t :: ts = rest := by simpa [Parser.whileToken, ht] using h
          exact ⟨[], rfl, .done (by simp [ht])⟩
    · intro used r rest h hlt
      cases h with
      | done hstop =>
        cases rest with
        | nil => rfl
        | cons t ts => simp [Parser.whileToken, hstop hlongest t (by simp)]
      | step ht hB hW =>
        rename_i s' t used more
        have hmore : (B s t >>= Gram.While longest p B) (used ++ more) r rest := ⟨used, s', more, rfl, hB, hW⟩
        have := (hstep t).complete hmore (by simp at hlt ⊢; omega)
        simpa [Parser.whileToken, ht] using this
    · intro ts hlt h
      cases ts with
      | nil => cases h
      | cons t ts =>
        by_cases ht : p t = true
        · exact (hstep t).total (by simp at hlt; omega)
            (show (body s t >>= Parser.whileToken out p body n) ts = _ by
              simpa [Parser.whileToken, ht] using h)
        · simp [Parser.whileToken, ht] at h

/-- A choice that is known before any token is one of the rule. -/
theorem ite {c : Prop} [Decidable c] {A B : Parser τ ε α} {G H : Gram τ α}
    (hA : c → Implements out n A G) (hB : ¬ c → Implements out n B H) :
    Implements out n (if c then A else B) (if c then G else H) := by
  split
  · exact hA ‹c›
  · exact hB ‹¬ c›

end Implements

end Descent

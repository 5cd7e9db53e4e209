import Mathlib.Data.List.Basic
import Mathlib.Logic.Function.Basic

/-! Texts that tell where they end, and keys put together of several texts. -/

namespace Texts

variable {α β : Type}

/-- What follows a text is nothing, or begins with one of the ends. -/
def Follows (ends : α → Prop) (rest : List α) : Prop :=
  ∀ c ∈ rest.head?, ends c

/-- A text of this form, with one of the ends behind it, tells what it stands
for and what follows it. -/
def Delimited (ends : α → Prop) (text : β → List α) : Prop :=
  ∀ a b rest rest', Follows ends rest → Follows ends rest' → text a ++ rest = text b ++ rest' → a = b ∧ rest = rest'

/-- Texts that show where they end are those of one element only. -/
theorem Delimited.injective {ends : α → Prop} {text : β → List α} (h : Delimited ends text) :
    Function.Injective text := by
  intro a b hab
  have hnil : Follows ends [] := fun c hc => by cases hc
  exact (h a b [] [] hnil hnil (by rw [hab])).1

/-- A text that shows its end before any of some marks shows it before fewer. -/
theorem Delimited.mono {ends ends' : α → Prop} {text : β → List α} (h : Delimited ends text)
    (hsub : ∀ c, ends' c → ends c) : Delimited ends' text :=
  fun a b rest rest' hrest hrest' =>
    h a b rest rest' (fun c hc => hsub c (hrest c hc)) (fun c hc => hsub c (hrest' c hc))

/-- Texts without any of the ends, if they differ. -/
theorem of_not_mem {ends : α → Prop} {text : β → List α} (hinj : Function.Injective text)
    (hplain : ∀ a, ∀ c ∈ text a, ¬ ends c) : Delimited ends text := by
  have hlonger : ∀ a (mid rest rest' : List α), Follows ends rest → (∀ c ∈ mid, c ∈ text a) →
      rest = mid ++ rest' → mid = [] := by
    intro a mid rest rest' hrest hmid heq
    cases mid with
    | nil => rfl
    | cons c mid =>
      subst heq
      exact absurd (hrest c rfl) (hplain a c (hmid c (List.mem_cons_self ..)))
  intro a b rest rest' hrest hrest' heq
  rcases List.append_eq_append_iff.mp heq with ⟨mid, hb, hmid⟩ | ⟨mid, ha, hmid⟩
  · obtain rfl := hlonger b mid rest rest' hrest (fun c hc => by simp [hb, hc]) hmid
    rw [List.append_nil] at hb
    exact ⟨hinj hb.symm, hmid⟩
  · obtain rfl := hlonger a mid rest' rest hrest' (fun c hc => by simp [ha, hc]) hmid
    rw [List.append_nil] at ha
    exact ⟨hinj ha, hmid.symm⟩

section Brackets

variable {left sep right : α} {text : β → List α}

theorem intercalate_cons (a : List α) (l : List (List α)) :
    List.intercalate [sep] (a :: l) = a ++ l.flatMap (sep :: ·) := by
  induction l generalizing a with
  | nil => simp
  | cons b l ih => rw [List.intercalate_cons_cons, ih, List.flatMap_cons]; simp

/-- Behind each element of a list stands a separator or the closing bracket. -/
theorem follows_separated (zs : List β) (rest : List α) :
    Follows (fun c => c = sep ∨ c = right) ((zs.map text).flatMap (sep :: ·) ++ right :: rest) := by
  intro c hc
  cases zs with
  | nil => exact .inr (Option.some.inj hc).symm
  | cons z zs => exact .inl (Option.some.inj hc).symm

/-- The texts behind the first one, each with a separator before it. -/
theorem eq_of_separated (hsep : sep ≠ right) (h : Delimited (fun c => c = sep ∨ c = right) text)
    {xs ys : List β} {rest rest' : List α}
    (heq : (xs.map text).flatMap (sep :: ·) ++ right :: rest = (ys.map text).flatMap (sep :: ·) ++ right :: rest') :
    xs = ys ∧ rest = rest' := by
  induction xs generalizing ys with
  | nil =>
    cases ys with
    | nil => exact ⟨rfl, (List.cons.inj heq).2⟩
    | cons y ys => exact absurd (List.cons.inj heq).1.symm hsep
  | cons x xs ih =>
    cases ys with
    | nil => exact absurd (List.cons.inj heq).1 hsep
    | cons y ys =>
      simp only [List.map_cons, List.flatMap_cons, List.cons_append, List.cons.injEq, true_and,
        List.append_assoc] at heq
      obtain ⟨rfl, htail⟩ := h x y _ _ (follows_separated xs rest) (follows_separated ys rest') heq
      obtain ⟨rfl, hrest⟩ := ih htail
      exact ⟨rfl, hrest⟩

/-- Lists between brackets tell where they end, whatever follows, if their
elements do with the separator or the closing bracket behind them. -/
theorem Delimited.bracketed (hsep : sep ≠ right) (h : Delimited (fun c => c = sep ∨ c = right) text)
    (hhead : ∀ a, ∃ c ∈ (text a).head?, c ≠ right) :
    Delimited (fun _ => True) fun xs : List β => [left] ++ List.intercalate [sep] (xs.map text) ++ [right] := by
  have hcons : ∀ (x : β) (s s' : List α), text x ++ s ≠ right :: s' := by
    intro x s s' heq
    obtain ⟨c, hc, hne⟩ := hhead x
    obtain ⟨tail, htail⟩ := List.head?_eq_some_iff.mp hc
    rw [htail] at heq
    exact hne (List.cons.inj heq).1
  intro xs ys rest rest' _ _ heq
  simp only [List.append_assoc, List.cons_append, List.nil_append, List.cons.injEq, true_and] at heq
  cases xs with
  | nil =>
    cases ys with
    | nil => exact ⟨rfl, (List.cons.inj heq).2⟩
    | cons y ys =>
      rw [List.map_cons, intercalate_cons, List.append_assoc] at heq
      exact absurd heq.symm (hcons y _ _)
  | cons x xs =>
    cases ys with
    | nil =>
      rw [List.map_cons, intercalate_cons, List.append_assoc] at heq
      exact absurd heq (hcons x _ _)
    | cons y ys =>
      rw [List.map_cons, List.map_cons, intercalate_cons, intercalate_cons, List.append_assoc, List.append_assoc] at heq
      obtain ⟨rfl, htail⟩ := h x y _ _ (follows_separated xs rest) (follows_separated ys rest') heq
      obtain ⟨rfl, hrest⟩ := eq_of_separated hsep h htail
      exact ⟨rfl, hrest⟩

end Brackets

section Keys

variable [DecidableEq α] {ι : Type} {sep : α}

/-- Texts with as many separators end at the same one. -/
theorem eq_of_count_eq {a b rest rest' : List α} (hcount : a.count sep = b.count sep)
    (heq : a ++ sep :: rest = b ++ sep :: rest') : a = b ∧ rest = rest' := by
  induction a generalizing b with
  | nil =>
    cases b with
    | nil => exact ⟨rfl, (List.cons.inj heq).2⟩
    | cons d b =>
      obtain ⟨rfl, -⟩ := List.cons.inj heq
      simp at hcount
  | cons c a ih =>
    cases b with
    | nil =>
      obtain ⟨rfl, -⟩ := List.cons.inj heq
      simp at hcount
    | cons d b =>
      obtain ⟨rfl, htail⟩ := List.cons.inj heq
      rw [List.count_cons, List.count_cons, Nat.add_right_cancel_iff] at hcount
      obtain ⟨rfl, hrest⟩ := ih hcount htail
      exact ⟨rfl, hrest⟩

/-- Joined texts with as many separators in each are equal only element by element. -/
theorem eq_of_key_eq {l : List ι} {f g : ι → List α} (hcount : ∀ i ∈ l, (f i).count sep = (g i).count sep)
    (heq : l.flatMap (fun i => f i ++ [sep]) = l.flatMap (fun i => g i ++ [sep])) : ∀ i ∈ l, f i = g i := by
  induction l with
  | nil => exact fun i hi => nomatch hi
  | cons j l ih =>
    simp only [List.flatMap_cons, List.append_assoc, List.singleton_append] at heq
    obtain ⟨hhead, htail⟩ := eq_of_count_eq (hcount j (List.mem_cons_self ..)) heq
    intro i hi
    rcases List.mem_cons.mp hi with rfl | hi
    · exact hhead
    · exact ih (fun i hi => hcount i (List.mem_cons_of_mem _ hi)) htail i hi

/-- The separators of a key, if those of one entry's texts are all that the texts have. -/
theorem count_key [DecidableEq ι] {l : List ι} {f : ι → List α} {j : ι}
    (hplain : ∀ i ∈ l, i ≠ j → sep ∉ f i) :
    (l.flatMap fun i => f i ++ [sep]).count sep = l.length + l.count j * (f j).count sep := by
  induction l with
  | nil => simp
  | cons i l ih =>
    have ih := ih fun i hi => hplain i (List.mem_cons_of_mem _ hi)
    have hsep : [sep].count sep = 1 := List.count_singleton_self
    rw [List.flatMap_cons, List.count_append, List.count_append, ih, List.length_cons, hsep]
    by_cases hij : i = j
    · subst hij
      rw [List.count_cons_self, Nat.add_mul, Nat.one_mul]
      omega
    · rw [List.count_eq_zero.mpr (hplain i (List.mem_cons_self ..) hij), List.count_cons_of_ne hij]
      omega

/-- Keys tell their texts apart, if at most one entry's texts have separators. -/
theorem eq_of_key_eq_of_one [DecidableEq ι] {l : List ι} {f g : ι → List α}
    (hone : ∀ i ∈ l, ∀ j ∈ l, (sep ∈ f i ∨ sep ∈ g i) → (sep ∈ f j ∨ sep ∈ g j) → i = j)
    (heq : l.flatMap (fun i => f i ++ [sep]) = l.flatMap (fun i => g i ++ [sep])) : ∀ i ∈ l, f i = g i := by
  refine eq_of_key_eq (fun i hi => ?_) heq
  by_cases hsep : sep ∈ f i ∨ sep ∈ g i
  · have hothers : ∀ k ∈ l, k ≠ i → ¬ (sep ∈ f k ∨ sep ∈ g k) := fun k hk hne hin => hne (hone k hk i hi hin hsep)
    have hf := count_key fun k hk hne hin => hothers k hk hne (.inl hin)
    have hg := count_key fun k hk hne hin => hothers k hk hne (.inr hin)
    rw [heq] at hf
    have hpos : 0 < l.count i := List.count_pos_iff.mpr hi
    exact Nat.eq_of_mul_eq_mul_left hpos (Nat.add_left_cancel (hf.symm.trans hg))
  · obtain ⟨hf, hg⟩ := not_or.mp hsep
    rw [List.count_eq_zero.mpr hf, List.count_eq_zero.mpr hg]

end Keys

end Texts

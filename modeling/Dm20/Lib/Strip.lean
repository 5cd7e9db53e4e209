import Mathlib.Data.List.DropRight

namespace Strip

variable {α : Type} {p q : α → Bool}

/-- A text without the symbols of a kind at its front and at its end. -/
def strip (p : α → Bool) (s : List α) : List α :=
  (s.dropWhile p).rdropWhile p

/-- What is taken away at both ends. -/
theorem strip_spec (p : α → Bool) (s : List α) :
    ∃ a b, s = a ++ strip p s ++ b ∧ (∀ c ∈ a, p c = true) ∧ ∀ c ∈ b, p c = true := by
  refine ⟨s.takeWhile p, (s.dropWhile p).rtakeWhile p, ?_, fun c hc => List.mem_takeWhile_imp hc,
    fun c hc => List.mem_rtakeWhile_imp hc⟩
  have hend : (s.dropWhile p).rdropWhile p ++ (s.dropWhile p).rtakeWhile p = s.dropWhile p :=
    List.rdropWhile_append_rtakeWhile ..
  rw [strip, List.append_assoc, hend, List.takeWhile_append_dropWhile]

/-- Stripping adds nothing. -/
theorem mem_of_mem_strip {s : List α} {c : α} (h : c ∈ strip p s) : c ∈ s := by
  obtain ⟨a, b, hs, -, -⟩ := strip_spec p s
  rw [hs]
  exact List.mem_append_left _ (List.mem_append_right _ h)

/-- What is to be stripped at the front is stripped. -/
theorem dropWhile_append_of_all {a : List α} (h : ∀ c ∈ a, p c = true) (s : List α) :
    (a ++ s).dropWhile p = s.dropWhile p := by
  induction a with
  | nil => rfl
  | cons c a ih =>
    rw [List.cons_append, List.dropWhile_cons_of_pos (h c List.mem_cons_self)]
    exact ih fun d hd => h d (List.mem_cons_of_mem _ hd)

theorem rdropWhile_append_of_all {b : List α} (h : ∀ c ∈ b, p c = true) (s : List α) :
    (s ++ b).rdropWhile p = s.rdropWhile p := by
  rw [List.rdropWhile, List.reverse_append, dropWhile_append_of_all fun c hc => h c (List.mem_reverse.mp hc)]
  rfl

/-- Symbols of the kind at the ends make no difference. -/
theorem strip_append {a b : List α} (ha : ∀ c ∈ a, p c = true) (hb : ∀ c ∈ b, p c = true) (s : List α) :
    strip p (a ++ s ++ b) = strip p s := by
  rw [List.append_assoc, strip, dropWhile_append_of_all ha]
  by_cases hs : ∀ c ∈ s, p c = true
  · have hnil : s.dropWhile p = [] := List.dropWhile_eq_nil_iff.mpr hs
    rw [dropWhile_append_of_all hs, List.dropWhile_eq_nil_iff.mpr hb, strip, hnil]
  · have hsome : s.dropWhile p ≠ [] := fun hnil => hs (List.dropWhile_eq_nil_iff.mp hnil)
    rw [List.dropWhile_append, if_neg (by simpa using hsome), rdropWhile_append_of_all hb]
    rfl

/-- What was stripped is not changed by stripping. -/
theorem strip_strip (p : α → Bool) (s : List α) : strip p (strip p s) = strip p s := by
  obtain ⟨a, b, hs, ha, hb⟩ := strip_spec p s
  have hstrip := strip_append ha hb (strip p s)
  rwa [← hs, eq_comm] at hstrip

/-- Some symbols can be left out of the text beforehand just where what is left at the end
has none of them. -/
theorem strip_filter_eq_iff (s : List α) :
    strip p (s.filter q) = strip p s ↔ ∀ c ∈ strip p s, q c = true := by
  constructor
  · intro heq c hc
    exact (List.mem_filter.mp (mem_of_mem_strip (heq ▸ hc))).2
  · intro hrest
    obtain ⟨a, b, hs, ha, hb⟩ := strip_spec p s
    have hfilter : s.filter q = a.filter q ++ strip p s ++ b.filter q := by
      conv_lhs => rw [hs]
      rw [List.filter_append, List.filter_append, List.filter_eq_self.mpr hrest]
    rw [hfilter, strip_append (fun c hc => ha c (List.mem_of_mem_filter hc))
      fun c hc => hb c (List.mem_of_mem_filter hc), strip_strip]

/-- A text that begins and ends with symbols that are none of a kind. -/
structure Bounded (p : α → Bool) (s : List α) : Prop where
  first : ∃ c t, s = c :: t ∧ p c = false
  last : ∃ t c, s = t ++ [c] ∧ p c = false

theorem bounded_of_forall {s : List α} (hne : s ≠ []) (h : ∀ c ∈ s, p c = false) : Bounded p s := by
  refine ⟨?_, ?_⟩
  · obtain ⟨c, t, rfl⟩ := List.exists_cons_of_ne_nil hne
    exact ⟨c, t, rfl, h c List.mem_cons_self⟩
  · obtain ⟨t, c, rfl⟩ := List.eq_nil_or_concat' s |>.resolve_left hne
    exact ⟨t, c, rfl, h c (List.mem_append_right t (List.mem_singleton_self c))⟩

/-- A text between two that begin and end with what stays is bounded. -/
theorem Bounded.append {a b : List α} (ha : Bounded p a) (hb : Bounded p b) (m : List α) : Bounded p (a ++ m ++ b) where
  first := by
    obtain ⟨c, t, rfl, hc⟩ := ha.first
    exact ⟨c, t ++ m ++ b, by simp, hc⟩
  last := by
    obtain ⟨t, c, rfl, hc⟩ := hb.last
    exact ⟨a ++ m ++ t, c, by simp, hc⟩

/-- Bounded texts that are joined are bounded. -/
theorem Bounded.intercalate {parts : List (List α)} (hne : parts ≠ []) (h : ∀ s ∈ parts, Bounded p s) (sep : List α) :
    Bounded p (sep.intercalate parts) := by
  induction parts with
  | nil => exact absurd rfl hne
  | cons s parts ih =>
    obtain ⟨hs, hparts⟩ := List.forall_mem_cons.mp h
    cases parts with
    | nil =>
      rw [List.intercalate_singleton]
      exact hs
    | cons next parts =>
      rw [List.intercalate_cons_cons]
      exact hs.append (ih (List.cons_ne_nil _ _) hparts) sep

/-- Nothing is taken away at bounds of another kind. -/
theorem Bounded.strip_eq {s : List α} (h : Bounded p s) : strip p s = s := by
  obtain ⟨⟨c, t, hfirst, hc⟩, t', c', hlast, hc'⟩ := h
  have hfront : s.dropWhile p = s := by
    rw [hfirst, List.dropWhile_cons_of_neg (by rw [hc]; exact Bool.false_ne_true)]
  rw [strip, hfront, hlast, List.rdropWhile_concat_neg _ _ _ (by rw [hc']; exact Bool.false_ne_true)]

end Strip

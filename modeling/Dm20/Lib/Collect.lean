import Mathlib.Data.List.Basic
import Mathlib.Data.List.Forall2

namespace Collect

variable {α β : Type}

/-- A loop that collects a value for each item and ends at the first item that
is refused, with the values collected so far. The flag says that no item was
refused. An item without a result ends the loop without one. -/
def collect (f : α → Option (Option β)) : List α → Option (Bool × List β)
  | [] => some (true, [])
  | x :: xs =>
    match f x with
    | none => none
    | some none => some (false, [])
    | some (some b) => (collect f xs).map fun r => (r.1, b :: r.2)

/-- A collection begins with a refusal, where it ends, or with an element, where it goes on. -/
theorem collect_cons_eq_some {f : α → Option (Option β)} {x : α} {xs : List α} {ok : Bool} {bs : List β}
    (h : collect f (x :: xs) = some (ok, bs)) :
    (f x = some none ∧ ok = false ∧ bs = []) ∨
      ∃ b rest, f x = some (some b) ∧ bs = b :: rest ∧ collect f xs = some (ok, rest) := by
  unfold collect at h
  split at h
  · cases h
  · next hx =>
    cases h
    exact .inl ⟨hx, rfl, rfl⟩
  · next b hx =>
    rw [Option.map_eq_some_iff] at h
    obtain ⟨⟨ok', rest⟩, hrest, heq⟩ := h
    cases heq
    exact .inr ⟨b, rest, hx, rfl, hrest⟩

/-- No item was refused where there are as many values as items. -/
theorem length_eq_iff {f : α → Option (Option β)} {xs : List α} {ok : Bool} {bs : List β}
    (h : collect f xs = some (ok, bs)) : bs.length = xs.length ↔ ok = true := by
  induction xs generalizing bs with
  | nil =>
    cases h
    exact ⟨fun _ => rfl, fun _ => rfl⟩
  | cons x xs ih =>
    rcases collect_cons_eq_some h with ⟨-, rfl, rfl⟩ | ⟨b, rest, -, rfl, hrest⟩
    · simp
    · simpa using ih hrest

/-- A loop that no item ended has the value of each item. -/
theorem mem_of_collect {f : α → Option (Option β)} {xs : List α} {bs : List β}
    (h : collect f xs = some (true, bs)) {x : α} (hx : x ∈ xs) : ∃ b, f x = some (some b) := by
  induction xs generalizing bs with
  | nil => cases hx
  | cons y xs ih =>
    rcases collect_cons_eq_some h with ⟨-, hok, -⟩ | ⟨b, rest, hy, -, hrest⟩
    · cases hok
    · rcases List.mem_cons.mp hx with rfl | hx
      · exact ⟨b, hy⟩
      · exact ih hrest hx

/-- Two loops whose values correspond item by item collect values that correspond. -/
theorem collect_map {γ : Type} {f : α → Option (Option β)} {g : α → Option (Option γ)} {r : β → γ}
    {xs : List α} (hfg : ∀ x ∈ xs, ∀ b, f x = some (some b) → g x = some (some (r b))) {bs : List β}
    (h : collect f xs = some (true, bs)) : collect g xs = some (true, bs.map r) := by
  induction xs generalizing bs with
  | nil =>
    cases h
    rfl
  | cons x xs ih =>
    rcases collect_cons_eq_some h with ⟨-, hok, -⟩ | ⟨b, rest, hx, rfl, hrest⟩
    · cases hok
    · have hrest' := ih (fun y hy => hfg y (List.mem_cons_of_mem x hy)) hrest
      simp only [collect, hfg x List.mem_cons_self b hx, hrest', Option.map_some, List.map_cons]

/-- A loop that ended without a result met an item without one, all before it
having values. -/
theorem collect_eq_none {f : α → Option (Option β)} {xs : List α} (h : collect f xs = none) :
    ∃ x, xs.find? (fun x => (f x).join.isNone) = some x ∧ f x = none := by
  induction xs with
  | nil => cases h
  | cons x xs ih =>
    rw [List.find?_cons]
    cases hx : f x with
    | none => exact ⟨x, rfl, hx⟩
    | some r =>
      cases r with
      | none => simp only [collect, hx, reduceCtorEq] at h
      | some b =>
        simp only [collect, hx, Option.map_eq_none_iff] at h
        exact ih h

/-- A loop ends at the first item that is refused, where those before it have values. -/
theorem collect_of_refused {f : α → Option (Option β)} {xs : List α} {x : α}
    (h : xs.find? (fun x => (f x).join.isNone) = some x) (hx : f x = some none) :
    ∃ bs, collect f xs = some (false, bs) := by
  induction xs with
  | nil => cases h
  | cons y xs ih =>
    rw [List.find?_cons] at h
    cases hy : f y with
    | none =>
      rw [hy] at h
      cases h
      rw [hy] at hx
      cases hx
    | some r =>
      cases r with
      | none => exact ⟨[], by simp only [collect, hy]⟩
      | some b =>
        rw [hy] at h
        obtain ⟨bs, hbs⟩ := ih h
        exact ⟨b :: bs, by simp only [collect, hy, hbs, Option.map_some]⟩

/-- A loop over the images of items collects values that stand in a relation to the items
exactly where each item has such a value. -/
theorem exists_collect_map_iff {γ : Type} {f : α → Option (Option β)} {g : γ → α} {R : γ → β → Prop} {xs : List γ} :
    (∃ bs, collect f (xs.map g) = some (true, bs) ∧ List.Forall₂ R xs bs) ↔
      ∀ x ∈ xs, ∃ b, f (g x) = some (some b) ∧ R x b := by
  induction xs with
  | nil => exact iff_of_true ⟨[], rfl, .nil⟩ nofun
  | cons x xs ih =>
    rw [List.forall_mem_cons, ← ih, List.map_cons]
    constructor
    · rintro ⟨bs, hcollect, hbs⟩
      rcases collect_cons_eq_some hcollect with ⟨-, hok, -⟩ | ⟨b, rest, hx, rfl, hrest⟩
      · cases hok
      · cases hbs with
        | cons hb hrestR => exact ⟨⟨b, hx, hb⟩, rest, hrest, hrestR⟩
    · rintro ⟨⟨b, hx, hb⟩, rest, hrest, hrestR⟩
      refine ⟨b :: rest, ?_, .cons hb hrestR⟩
      simp only [collect, hx, hrest, Option.map_some]

end Collect

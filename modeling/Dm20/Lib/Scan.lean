import Mathlib.Data.List.Infix
import Mathlib.Data.List.Nodup
import Mathlib.Data.List.Perm.Subperm
import Mathlib.Data.List.TakeWhile
import Mathlib.Data.List.Pairwise

namespace Scan

/-- What a scanning loop does with the element it looks at. -/
inductive Verdict where
  | take
  | skip
  | stop
deriving DecidableEq, Repr

/-- A loop that collects elements until it meets a `stop` or has collected the
given number of elements. The number is tested after an element is collected. -/
def scan {α : Type} (verdict : α → Verdict) : Option Nat → List α → List α
  | _, [] => []
  | limit, x :: xs =>
    match verdict x, limit with
    | .stop, _ => []
    | .skip, _ => scan verdict limit xs
    | .take, none => x :: scan verdict none xs
    | .take, some n => if n ≤ 1 then [x] else x :: scan verdict (some (n - 1)) xs

/-- The elements a scan without a limit collects. -/
def selected {α : Type} (verdict : α → Verdict) (xs : List α) : List α :=
  (xs.takeWhile fun x => verdict x != .stop).filter fun x => verdict x == .take

@[simp] theorem selected_nil {α : Type} (verdict : α → Verdict) : selected verdict [] = [] := rfl

theorem selected_cons {α : Type} (verdict : α → Verdict) (x : α) (xs : List α) :
    selected verdict (x :: xs) =
      match verdict x with
      | .stop => []
      | .skip => selected verdict xs
      | .take => x :: selected verdict xs := by
  cases h : verdict x <;> simp [selected, h]

/-- Without a limit the scan collects every selected element. -/
theorem scan_none {α : Type} (verdict : α → Verdict) (xs : List α) :
    scan verdict none xs = selected verdict xs := by
  induction xs with
  | nil => rfl
  | cons x xs ih =>
    rw [selected_cons]
    cases h : verdict x <;> simp [scan, h, ih]

/-- With a positive limit the scan collects the first selected elements. -/
theorem scan_some {α : Type} (verdict : α → Verdict) (xs : List α) {n : Nat} (hn : 0 < n) :
    scan verdict (some n) xs = (selected verdict xs).take n := by
  induction xs generalizing n with
  | nil => simp [scan]
  | cons x xs ih =>
    rw [selected_cons]
    cases h : verdict x with
    | stop => simp [scan, h]
    | skip => simp [scan, h, ih hn]
    | take =>
      obtain ⟨m, rfl⟩ : ∃ m, n = m + 1 := ⟨n - 1, by omega⟩
      by_cases hm : m = 0
      · simp [scan, h, hm]
      · have hle : ¬ m + 1 ≤ 1 := by omega
        simp [scan, h, hm, ih (Nat.pos_of_ne_zero hm)]

/-- The elements within a limit. -/
def within {α : Type} : Option Nat → List α → List α
  | none, xs => xs
  | some n, xs => xs.take n

/-- A scan with a limit takes the first of what it takes without one. -/
theorem scan_eq_within {α : Type} (verdict : α → Verdict) {limit : Option Nat} (xs : List α)
    (hlimit : limit ≠ some 0) : scan verdict limit xs = within limit (selected verdict xs) := by
  cases limit with
  | none => exact scan_none verdict xs
  | some n => exact scan_some verdict xs (Nat.pos_of_ne_zero (by simpa using hlimit))

/-- The first elements of a list are within a limit of their number, whatever follows. -/
theorem mem_within_append {α : Type} {limit : Option Nat} {xs ys : List α} {n : Nat} {x : α}
    (hlimit : ∀ m, limit = some m → n ≤ m) (hx : x ∈ xs.take n) : x ∈ within limit (xs ++ ys) := by
  have hmem : x ∈ (xs ++ ys).take n := by
    rw [List.take_append]
    exact List.mem_append_left _ hx
  cases limit with
  | none => exact List.mem_of_mem_take hmem
  | some m => exact (List.take_subset_take_left _ (hlimit m rfl)) hmem

/-- A scan that looks at one component of its elements is the scan of that component. -/
theorem scan_map {α β : Type} (f : α → β) (verdict : β → Verdict) (limit : Option Nat)
    (xs : List α) :
    (scan (verdict ∘ f) limit xs).map f = scan verdict limit (xs.map f) := by
  induction xs generalizing limit with
  | nil => simp [scan]
  | cons x xs ih =>
    cases h : verdict (f x) with
    | stop => simp [scan, h]
    | skip => simp [scan, h, ih]
    | take =>
      cases limit with
      | none => simp [scan, h, ih]
      | some n =>
        by_cases hn : n ≤ 1
        · simp [scan, h, hn]
        · simp [scan, h, hn, ih]

/-- A scan keeps the order. -/
theorem scan_sublist {α : Type} (verdict : α → Verdict) (limit : Option Nat) (xs : List α) :
    (scan verdict limit xs).Sublist xs := by
  induction xs generalizing limit with
  | nil => simp [scan]
  | cons x xs ih =>
    cases h : verdict x with
    | stop => simp [scan, h]
    | skip => simpa [scan, h] using (ih limit).cons x
    | take =>
      cases limit with
      | none => simpa [scan, h] using ih none
      | some n =>
        by_cases hn : n ≤ 1
        · simp [scan, h, hn]
        · simpa [scan, h, hn] using ih (some (n - 1))

/-- A scan takes only what its verdict says to take. -/
theorem verdict_of_mem_scan {α : Type} {verdict : α → Verdict} {limit : Option Nat} {xs : List α}
    {x : α} (hx : x ∈ scan verdict limit xs) : verdict x = .take := by
  induction xs generalizing limit with
  | nil => simp [scan] at hx
  | cons y ys ih =>
    cases h : verdict y with
    | stop => simp [scan, h] at hx
    | skip => exact ih (by simpa [scan, h] using hx)
    | take =>
      cases limit with
      | none =>
        rcases (by simpa [scan, h] using hx : x = y ∨ x ∈ scan verdict none ys) with rfl | hx
        · exact h
        · exact ih hx
      | some n =>
        by_cases hn : n ≤ 1
        · obtain rfl : x = y := by simpa [scan, h, hn] using hx
          exact h
        · rcases (by simpa [scan, h, hn] using hx : x = y ∨ x ∈ scan verdict (some (n - 1)) ys) with
            rfl | hx
          · exact h
          · exact ih hx

theorem scan_eq_nil {α : Type} {verdict : α → Verdict} {limit : Option Nat} {xs : List α}
    (h : ∀ x ∈ xs, verdict x ≠ .take) : scan verdict limit xs = [] := by
  rw [List.eq_nil_iff_forall_not_mem]
  intro x hx
  exact h x ((scan_sublist verdict limit xs).mem hx) (verdict_of_mem_scan hx)

/-- What is to be taken at the front is taken, and the scan goes on behind it. -/
theorem selected_append_of_take {α : Type} {verdict : α → Verdict} {xs : List α}
    (h : ∀ x ∈ xs, verdict x = .take) (ys : List α) :
    selected verdict (xs ++ ys) = xs ++ selected verdict ys := by
  induction xs with
  | nil => rfl
  | cons x xs ih =>
    rw [List.cons_append, selected_cons, h x (by simp)]
    simp only [List.cons_append, ih fun y hy => h y (by simp [hy])]

/-- The positions, in a list that a queue holds from `d` on, of the elements that a
scan from the back of the queue collects. -/
def positions {α : Type} (verdict : α → Verdict) (limit : Option Nat) (d : Nat) (xs : List α) :
    List Nat :=
  (scan (verdict ∘ Prod.fst) limit (xs.zipIdx.drop d).reverse).map Prod.snd

private theorem mem_scan_zipIdx {α : Type} {verdict : α → Verdict} {limit : Option Nat} {d : Nat}
    {xs : List α} {c : α × Nat}
    (hc : c ∈ scan (verdict ∘ Prod.fst) limit (xs.zipIdx.drop d).reverse) :
    xs[c.2]? = some c.1 ∧ verdict c.1 = .take := by
  have hmem := (scan_sublist _ limit _).mem hc
  rw [List.mem_reverse] at hmem
  have htake : (verdict ∘ Prod.fst) c = .take := verdict_of_mem_scan hc
  exact ⟨List.mem_zipIdx_iff_getElem?.mp (List.mem_of_mem_drop hmem), htake⟩

/-- The collected elements are those at the positions. -/
theorem scan_map_some {α : Type} (verdict : α → Verdict) (limit : Option Nat) (d : Nat)
    (xs : List α) :
    (scan verdict limit (xs.drop d).reverse).map some =
      (positions verdict limit d xs).map (xs[·]?) := by
  have hfst : (xs.drop d).reverse = ((xs.zipIdx.drop d).reverse).map Prod.fst := by
    rw [List.map_reverse, List.map_drop, List.zipIdx_map_fst]
  rw [hfst, ← scan_map, positions, List.map_map, List.map_map]
  apply List.map_congr_left
  intro c hc
  exact (mem_scan_zipIdx hc).1.symm

/-- Elements found at positions of a list are found there in a longer list, too. -/
theorem map_getElem?_extend {α : Type} {xs ys : List α} (h : xs <+: ys) {ps : List Nat}
    {found : List α} (hmap : found.map some = ps.map (xs[·]?)) :
    found.map some = ps.map (ys[·]?) := by
  rw [hmap]
  apply List.map_congr_left
  intro p hp
  have hmem : xs[p]? ∈ found.map some := by
    rw [hmap]
    exact List.mem_map_of_mem hp
  obtain ⟨x, _, hx⟩ := List.mem_map.mp hmem
  obtain ⟨hlt, _⟩ := List.getElem?_eq_some_iff.mp hx.symm
  obtain ⟨rest, rfl⟩ := h
  rw [List.getElem?_append_left hlt]

/-- A scan takes each place once. -/
theorem nodup_positions {α : Type} (verdict : α → Verdict) (limit : Option Nat) (d : Nat)
    (xs : List α) : (positions verdict limit d xs).Nodup := by
  have hsub : (positions verdict limit d xs).Sublist ((xs.zipIdx.drop d).reverse.map Prod.snd) :=
    (scan_sublist _ limit _).map Prod.snd
  refine hsub.nodup ?_
  rw [List.map_reverse, List.nodup_reverse, List.map_drop, List.zipIdx_map_snd]
  exact List.Pairwise.drop List.nodup_range'

/-- A scan takes places of the list, where the verdict says so. -/
theorem mem_positions {α : Type} {verdict : α → Verdict} {limit : Option Nat} {d : Nat}
    {xs : List α} {p : Nat} (hp : p ∈ positions verdict limit d xs) :
    ∃ x, xs[p]? = some x ∧ verdict x = .take := by
  obtain ⟨c, hc, rfl⟩ := List.mem_map.mp hp
  exact ⟨c.1, mem_scan_zipIdx hc⟩

/-- One element more is counted if its verdict says so and none before it ended the scan. -/
theorem positions_concat {α : Type} (verdict : α → Verdict) (xs : List α) (x : α) :
    positions verdict none 0 (xs ++ [x]) =
      match verdict x with
      | .stop => []
      | .skip => positions verdict none 0 xs
      | .take => xs.length :: positions verdict none 0 xs := by
  unfold positions
  rw [List.zipIdx_append, List.drop_zero, List.drop_zero, List.reverse_append, List.zipIdx_singleton,
    List.reverse_singleton, List.singleton_append, scan_none, selected_cons, scan_none, Nat.zero_add]
  cases hverdict : verdict x <;> simp [hverdict]

/-- Without a limit the scan collects what it takes and no later element stops. -/
theorem mem_positions_none_iff {α : Type} {verdict : α → Verdict} {xs : List α} {p : Nat} :
    p ∈ positions verdict none 0 xs ↔
      ∃ x, xs[p]? = some x ∧ verdict x = .take ∧ ∀ p' y, p < p' → xs[p']? = some y → verdict y ≠ .stop := by
  induction xs using List.reverseRecOn with
  | nil => simp [positions, scan]
  | append_singleton xs x ih =>
    have hlast : (xs ++ [x])[xs.length]? = some x := by simp
    have hold : ∀ p' y, p' < xs.length → ((xs ++ [x])[p']? = some y ↔ xs[p']? = some y) := by
      intro p' y hp'
      rw [List.getElem?_append_left hp']
    have hnew : ∀ p' y, (xs ++ [x])[p']? = some y → p' < xs.length ∨ (p' = xs.length ∧ y = x) := by
      intro p' y hp'
      have hlt := (List.getElem?_eq_some_iff.mp hp').1
      rw [List.length_append, List.length_singleton] at hlt
      rcases Nat.lt_or_ge p' xs.length with h | h
      · exact Or.inl h
      · obtain rfl : p' = xs.length := by omega
        rw [hlast] at hp'
        exact Or.inr ⟨rfl, (Option.some.inj hp').symm⟩
    have hbefore : verdict x ≠ .stop → p < xs.length →
        ((∃ y, (xs ++ [x])[p]? = some y ∧ verdict y = .take ∧
            ∀ p' z, p < p' → (xs ++ [x])[p']? = some z → verdict z ≠ .stop) ↔
          p ∈ positions verdict none 0 xs) := by
      intro hstop hp
      rw [ih]
      refine exists_congr fun y => ?_
      rw [hold p y hp]
      refine and_congr_right fun _ => and_congr_right fun _ => ⟨fun hall p' z hlt hz => ?_, fun hall p' z hlt hz => ?_⟩
      · exact hall p' z hlt ((hold p' z (List.getElem?_eq_some_iff.mp hz).1).mpr hz)
      · rcases hnew p' z hz with hp' | ⟨-, rfl⟩
        · exact hall p' z hlt ((hold p' z hp').mp hz)
        · exact hstop
    have hin : ∀ {q}, q ∈ positions verdict none 0 xs → q < xs.length := by
      intro q hq
      obtain ⟨y, hy, -⟩ := mem_positions hq
      exact (List.getElem?_eq_some_iff.mp hy).1
    rw [positions_concat]
    rcases Nat.lt_trichotomy p xs.length with hp | rfl | hp
    · cases hverdict : verdict x with
      | stop =>
        simp only [List.not_mem_nil, false_iff]
        rintro ⟨y, -, -, hall⟩
        exact hall xs.length x hp hlast hverdict
      | skip => exact (hbefore (by simp [hverdict]) hp).symm
      | take =>
        rw [hbefore (by simp [hverdict]) hp, List.mem_cons]
        exact or_iff_right (by omega)
    · have hpast : ∀ p' y, xs.length < p' → (xs ++ [x])[p']? ≠ some y := by
        intro p' y hlt hy
        rcases hnew p' y hy with h | ⟨h, -⟩ <;> omega
      have hiff : (∃ y, (xs ++ [x])[xs.length]? = some y ∧ verdict y = .take ∧
          ∀ p' z, xs.length < p' → (xs ++ [x])[p']? = some z → verdict z ≠ .stop) ↔ verdict x = .take := by
        rw [hlast]
        constructor
        · rintro ⟨y, hy, htake, -⟩
          rw [Option.some.inj hy]
          exact htake
        · exact fun htake => ⟨x, rfl, htake, fun p' z hlt hz => absurd hz (hpast p' z hlt)⟩
      rw [hiff]
      cases hverdict : verdict x with
      | stop => simp
      | skip => exact iff_of_false (fun hmem => Nat.lt_irrefl _ (hin hmem)) (by simp)
      | take => simp
    · have hnone : (xs ++ [x])[p]? = none := by
        rw [List.getElem?_eq_none_iff, List.length_append, List.length_singleton]
        omega
      refine iff_of_false (fun hmem => ?_) fun ⟨y, hy, _⟩ => by simp [hnone] at hy
      cases hverdict : verdict x with
      | stop => simp [hverdict] at hmem
      | skip =>
        rw [hverdict] at hmem
        have := hin hmem
        omega
      | take =>
        rw [hverdict] at hmem
        rcases List.mem_cons.mp hmem with rfl | hmem
        · omega
        · have := hin hmem
          omega

/-- Where the elements at the back are all taken, the scan reaches as many of them as
the limit allows. -/
theorem mem_positions_of_newest {α : Type} {verdict : α → Verdict} {limit : Option Nat} {d n : Nat}
    {old new : List α} (hd : d ≤ old.length) (hnew : ∀ x ∈ new, verdict x = .take)
    (hlimit : ∀ m, limit = some m → n ≤ m ∧ 0 < m) {p : Nat} (hle : old.length ≤ p)
    (hlt : p < old.length + new.length) (hnewest : old.length + new.length ≤ p + n) :
    p ∈ positions verdict limit d (old ++ new) := by
  have hcells : ((old ++ new).zipIdx.drop d).reverse =
      (new.zipIdx old.length).reverse ++ (old.zipIdx.drop d).reverse := by
    rw [List.zipIdx_append, List.drop_append_of_le_length (by simpa using hd), List.reverse_append,
      Nat.zero_add]
  have htake : ∀ c ∈ (new.zipIdx old.length).reverse, (verdict ∘ Prod.fst) c = .take := by
    intro c hc
    exact hnew c.1 (List.fst_mem_of_mem_zipIdx (List.mem_reverse.mp hc))
  have hlimit' : limit ≠ some 0 := fun h => by simpa using (hlimit 0 h).2
  rw [positions, hcells, scan_eq_within _ _ hlimit', selected_append_of_take htake]
  obtain ⟨x, hx⟩ : ∃ x, (new.zipIdx old.length).reverse[old.length + new.length - 1 - p]? = some (x, p) := by
    refine ⟨new[p - old.length], ?_⟩
    rw [List.getElem?_reverse (by simp only [List.length_zipIdx]; omega), List.length_zipIdx,
      List.getElem?_zipIdx]
    have hidx : new.length - 1 - (old.length + new.length - 1 - p) = p - old.length := by omega
    rw [hidx, List.getElem?_eq_getElem (by omega)]
    simp only [Option.map_some, Option.some.injEq, Prod.mk.injEq, true_and]
    omega
  refine List.mem_map.mpr ⟨(x, p), ?_, rfl⟩
  refine mem_within_append (fun m hm => (hlimit m hm).1) ?_
  rw [List.mem_take_iff_getElem]
  obtain ⟨hi, hget⟩ := List.getElem?_eq_some_iff.mp hx
  exact ⟨old.length + new.length - 1 - p, by omega, hget⟩

/-- The selected elements are the first run of taken ones among those not skipped. -/
theorem selected_eq_takeWhile {α : Type} (verdict : α → Verdict) (xs : List α) :
    selected verdict xs =
      (xs.filter fun x => verdict x != .skip).takeWhile fun x => verdict x == .take := by
  induction xs with
  | nil => rfl
  | cons x xs ih =>
    rw [selected_cons]
    cases h : verdict x <;> simp [h, ih]

/-- A scan that takes or stops agrees with the filter exactly when no element
it would take stands behind one that stops it. -/
theorem takeWhile_eq_filter_iff {α : Type} (p : α → Bool) (xs : List α) :
    xs.takeWhile p = xs.filter p ↔ xs.Pairwise fun x y => p y = true → p x = true := by
  induction xs with
  | nil => simp
  | cons x xs ih =>
    by_cases hx : p x = true
    · simp [hx, ih]
    · simp only [List.takeWhile_cons, List.filter_cons, hx, Bool.false_eq_true, if_false,
        List.pairwise_cons]
      rw [eq_comm, List.filter_eq_nil_iff]
      constructor
      · intro hnone
        refine ⟨fun y hy hpy => absurd hpy (hnone y hy), ?_⟩
        exact List.Pairwise.imp_of_mem
          (fun {a b} _ hb _ hpb => absurd hpb (hnone b hb))
          (List.pairwise_of_forall (l := xs) (R := fun _ _ => True) (fun _ _ => trivial))
      · intro ⟨hnone, _⟩ y hy hpy
        exact hnone y hy hpy

/-- A scan is past its last element: it has met a `stop`, or collected as many as the limit says. -/
def Over {α : Type} (verdict : α → Verdict) (limit : Option Nat) (xs : List α) : Prop :=
  (∃ x ∈ xs, verdict x = .stop) ∨ ∃ n, limit = some n ∧ max n 1 ≤ xs.countP (verdict · == .take)

theorem not_over_nil {α : Type} (verdict : α → Verdict) (limit : Option Nat) : ¬ Over verdict limit [] := by
  rintro (⟨x, hx, -⟩ | ⟨n, -, hn⟩)
  · cases hx
  · rw [List.countP_nil] at hn
    omega

/-- An element is collected where the scan takes it and is not over before it. -/
theorem mem_scan_iff {α : Type} {verdict : α → Verdict} {limit : Option Nat} {xs : List α} {x : α} :
    x ∈ scan verdict limit xs ↔
      ∃ before after, xs = before ++ x :: after ∧ verdict x = .take ∧ ¬ Over verdict limit before := by
  induction xs generalizing limit with
  | nil => simp [scan]
  | cons y ys ih =>
    have hsplit : (∃ before after, y :: ys = before ++ x :: after ∧ verdict x = .take ∧ ¬ Over verdict limit before) ↔
        (y = x ∧ verdict x = .take) ∨
          ∃ before after, ys = before ++ x :: after ∧ verdict x = .take ∧ ¬ Over verdict limit (y :: before) := by
      constructor
      · rintro ⟨before, after, heq, htake, hover⟩
        cases before with
        | nil => exact .inl ⟨(List.cons.inj heq).1, htake⟩
        | cons b before =>
          obtain ⟨rfl, hrest⟩ := List.cons.inj heq
          exact .inr ⟨before, after, hrest, htake, hover⟩
      · rintro (⟨rfl, htake⟩ | ⟨before, after, rfl, htake, hover⟩)
        · exact ⟨[], ys, rfl, htake, not_over_nil verdict limit⟩
        · exact ⟨y :: before, after, rfl, htake, hover⟩
    rw [hsplit]
    cases hy : verdict y with
    | stop =>
      rw [show scan verdict limit (y :: ys) = [] by simp [scan, hy]]
      refine iff_of_false List.not_mem_nil ?_
      rintro (⟨rfl, htake⟩ | ⟨before, after, -, -, hbefore⟩)
      · rw [hy] at htake
        cases htake
      · exact hbefore (.inl ⟨y, List.mem_cons_self, hy⟩)
    | skip =>
      have hrest : ∀ before, Over verdict limit (y :: before) ↔ Over verdict limit before := by
        intro before
        simp [Over, hy]
      rw [show scan verdict limit (y :: ys) = scan verdict limit ys by simp [scan, hy], ih]
      simp only [hrest]
      refine (or_iff_right ?_).symm
      rintro ⟨rfl, htake⟩
      rw [hy] at htake
      cases htake
    | take =>
      have hfirst : y = x ∧ verdict x = .take ↔ x = y := by
        constructor
        · exact fun h => h.1.symm
        · rintro rfl
          exact ⟨rfl, hy⟩
      rw [hfirst]
      cases limit with
      | none =>
        have hrest : ∀ before, Over verdict none (y :: before) ↔ Over verdict none before := by
          intro before
          simp [Over, hy]
        rw [show scan verdict none (y :: ys) = y :: scan verdict none ys by simp [scan, hy], List.mem_cons, ih]
        simp only [hrest]
      | some n =>
        have hcount : ∀ before, (y :: before).countP (verdict · == .take) = before.countP (verdict · == .take) + 1 :=
          fun before => List.countP_cons_of_pos (by simp [hy])
        by_cases hn : n ≤ 1
        · rw [show scan verdict (some n) (y :: ys) = [y] by simp [scan, hy, hn], List.mem_singleton]
          refine (or_iff_left ?_).symm
          rintro ⟨before, after, -, -, hbefore⟩
          refine hbefore (.inr ⟨n, rfl, ?_⟩)
          rw [hcount]
          omega
        · have hrest : ∀ before, Over verdict (some n) (y :: before) ↔ Over verdict (some (n - 1)) before := by
            intro before
            refine or_congr (by simp [hy]) ⟨?_, ?_⟩
            · rintro ⟨m, hm, hle⟩
              obtain rfl := Option.some.inj hm
              rw [hcount] at hle
              exact ⟨_, rfl, by omega⟩
            · rintro ⟨m, hm, hle⟩
              obtain rfl := Option.some.inj hm
              refine ⟨_, rfl, ?_⟩
              rw [hcount]
              omega
          rw [show scan verdict (some n) (y :: ys) = y :: scan verdict (some (n - 1)) ys by simp [scan, hy, hn],
            List.mem_cons, ih]
          simp only [hrest]

/-- Where the first elements are all taken, a scan with their number for its limit collects them. -/
theorem scan_some_of_take {α : Type} {verdict : α → Verdict} {n : Nat} {xs : List α} (hn : 0 < n)
    (h : ∀ x ∈ xs.take n, verdict x = .take) : scan verdict (some n) xs = xs.take n := by
  rw [scan_some verdict xs hn]
  conv_lhs => rw [← List.take_append_drop n xs, selected_append_of_take h]
  rcases Nat.le_total n xs.length with hle | hle
  · rw [List.take_append_of_le_length (by rw [List.length_take]; omega), List.take_take, Nat.min_self]
  · rw [List.drop_eq_nil_of_le hle, selected_nil, List.append_nil, List.take_take, Nat.min_self]

/-- The first element of a part of a list is the first one of the list that is in the part. -/
theorem head?_of_sublist {α : Type} {s l : List α} (h : s.Sublist l) (hnodup : l.Nodup) {p : α → Bool}
    (hmem : ∀ a ∈ l, a ∈ s ↔ p a = true) : s.head? = l.find? p := by
  induction h with
  | slnil => rfl
  | @cons s l a hsub ih =>
    obtain ⟨hnot, hrest⟩ := List.nodup_cons.mp hnodup
    have hfalse : ¬ p a = true := fun hp => hnot (hsub.subset ((hmem a List.mem_cons_self).mpr hp))
    rw [List.find?_cons_of_neg hfalse]
    exact ih hrest fun b hb => hmem b (List.mem_cons_of_mem _ hb)
  | @cons_cons s l a hsub ih =>
    rw [List.find?_cons_of_pos ((hmem a List.mem_cons_self).mp List.mem_cons_self)]
    rfl

/-- The first element that a scan from the back collects is the last one of those whose
positions are collected. -/
theorem head?_scan_reverse {α : Type} {verdict : α → Verdict} {xs : List α} {p : α × Nat → Bool}
    (h : ∀ c ∈ xs.zipIdx, c.2 ∈ positions verdict none 0 xs ↔ p c = true) :
    (scan verdict none xs.reverse).head? = (xs.zipIdx.reverse.find? p).map Prod.fst := by
  have hfst : xs.reverse = xs.zipIdx.reverse.map Prod.fst := by rw [List.map_reverse, List.zipIdx_map_fst]
  have hnodup : xs.zipIdx.reverse.Nodup := by
    rw [List.nodup_reverse]
    exact List.Nodup.of_map Prod.snd (by rw [List.zipIdx_map_snd]; exact List.nodup_range')
  rw [hfst, ← scan_map, List.head?_map]
  refine congrArg _ (head?_of_sublist (scan_sublist _ _ _) hnodup fun c hc => ?_)
  rw [List.mem_reverse] at hc
  rw [← h c hc, positions, List.drop_zero, List.mem_map]
  constructor
  · exact fun hmem => ⟨c, hmem, rfl⟩
  · rintro ⟨d, hd, hplace⟩
    have hd' : d ∈ xs.zipIdx := List.mem_reverse.mp ((scan_sublist _ _ _).subset hd)
    have hvalue := (List.mem_zipIdx_iff_getElem?.mp hc).symm.trans (hplace ▸ List.mem_zipIdx_iff_getElem?.mp hd')
    obtain rfl : c = d := Prod.ext (Option.some.inj hvalue) hplace.symm
    exact hd

/-- Where a function maps two lists to the same one, an element that only the one has is mapped like
one that only the other has, which is without repetitions. -/
theorem exists_of_map_eq {α β : Type} {f : α → β} {xs ys : List α} (h : xs.map f = ys.map f) (hxs : xs.Nodup) {y : α}
    (hy : y ∈ ys) (hnot : y ∉ xs) : ∃ x ∈ xs, x ∉ ys ∧ f x = f y := by
  classical
  by_contra hnone
  push Not at hnone
  have hsub : xs.filter (fun x => f x = f y) ⊆ ys.filter fun x => f x = f y := by
    intro x hx
    obtain ⟨hmem, heq⟩ := List.mem_filter.mp hx
    exact List.mem_filter.mpr ⟨by_contra fun hout => hnone x hmem hout (of_decide_eq_true heq), heq⟩
  have hlength : (ys.filter fun x => f x = f y).length = (xs.filter fun x => f x = f y).length := by
    have hcount := congrArg (List.countP fun b => decide (b = f y)) h
    rw [List.countP_map, List.countP_map, List.countP_eq_length_filter, List.countP_eq_length_filter] at hcount
    exact hcount.symm
  have hperm := (List.Nodup.subperm (hxs.filter _) hsub).perm_of_length_le hlength.le
  have hmem := hperm.mem_iff.mpr (List.mem_filter.mpr ⟨hy, decide_eq_true rfl⟩)
  exact hnot (List.mem_filter.mp hmem).1

end Scan

import Mathlib.Data.List.Nodup
import Mathlib.Data.List.Perm.Subperm
import Dm20.Protobuf.DynamicEncoder

namespace IS.ProtobufParser

/-- A name that the library takes for a field or a message: letters, digits and
underscores, with no digit in front. -/
structure IsIdentifier (name : Str) : Prop where
  chars : ∀ c ∈ name, isNameChar c = true
  head : ∃ c rest, name = c :: rest ∧ ¬ ('0' ≤ c ∧ c ≤ '9')

private theorem isIdentifier_iff {name : Str} : IsIdentifier name ↔
    (∀ c ∈ name, isNameChar c = true) ∧ (name.head?.any fun c => decide ¬ ('0' ≤ c ∧ c ≤ '9')) = true := by
  constructor
  · rintro ⟨hchars, c, rest, rfl, hhead⟩
    exact ⟨hchars, decide_eq_true hhead⟩
  · rintro ⟨hchars, hhead⟩
    cases name with
    | nil => cases hhead
    | cons c rest => exact ⟨hchars, c, rest, rfl, of_decide_eq_true hhead⟩

instance : DecidablePred IsIdentifier := fun name =>
  have := List.decidableBAll (fun c => isNameChar c = true) name
  decidable_of_iff _ isIdentifier_iff.symm

private theorem isNameChar_of_isDigit {c : Char} (h : c.isDigit = true) : isNameChar c = true := by
  have hdigit : ('0' ≤ c && c ≤ '9') = true := h
  simp [isNameChar, hdigit]

/-- Characters of a name may be put behind an identifier. -/
theorem IsIdentifier.append {name rest : Str} (h : IsIdentifier name) (hrest : ∀ c ∈ rest, isNameChar c = true) :
    IsIdentifier (name ++ rest) where
  chars c hc := (List.mem_append.mp hc).elim (h.chars c) (hrest c)
  head := by
    obtain ⟨c, tail, rfl, hc⟩ := h.head
    exact ⟨c, tail ++ rest, rfl, hc⟩

private theorem isIdentifier_col {s : Str} (h : ∀ c ∈ s, isNameChar c = true) : IsIdentifier ("col_".toList ++ s) :=
  IsIdentifier.append (by decide) h

/-- Whatever the name of a column is, what is made of it is an identifier. -/
theorem sanitizeProtoFieldName_isIdentifier (name : Str) (index : Nat) :
    IsIdentifier (sanitizeProtoFieldName name index) := by
  have hmap : ∀ c ∈ name.map fun c => if isNameChar c then c else '_', isNameChar c = true := by
    intro c hc
    obtain ⟨d, -, rfl⟩ := List.mem_map.mp hc
    split
    · assumption
    · rfl
  simp only [sanitizeProtoFieldName]
  by_cases hnil : (name.map fun c => if isNameChar c then c else '_') = []
  · rw [if_pos hnil]
    have hcol : IsIdentifier ("col_".toList ++ to_string_nat (index + 1)) :=
      isIdentifier_col fun c hc => isNameChar_of_isDigit (isDigit_of_mem_to_string_nat hc)
    exact hcol
  · rw [if_neg hnil]
    split
    · next c rest hcons =>
      split
      · exact isIdentifier_col hmap
      · next hhead => exact ⟨hmap, c, rest, hcons, hhead⟩
    · next h => exact absurd h hnil

/-- A name that can be that of a field stays as it is. -/
theorem sanitizeProtoFieldName_of_isIdentifier {name : Str} (h : IsIdentifier name) (index : Nat) :
    sanitizeProtoFieldName name index = name := by
  have hmap : (name.map fun c => if isNameChar c then c else '_') = name :=
    (List.map_congr_left fun c hc => if_pos (h.chars c hc)).trans (List.map_id' name)
  obtain ⟨c, rest, rfl, hc⟩ := h.head
  simp only [sanitizeProtoFieldName, hmap]
  rw [if_neg (List.cons_ne_nil _ _)]
  exact if_neg hc

/-- The name that is tried in a turn of the loop. -/
def candidate (base : Str) : Nat → Str
  | 0 => base
  | count + 1 => base ++ "_".toList ++ to_string_nat (count + 1)

/-- A name with different numbers behind it makes different candidates. -/
private theorem candidate_injective (base : Str) : Function.Injective (candidate base) := by
  have hlonger (count : Nat) : base ≠ candidate base (count + 1) := by
    intro h
    have hlength := congrArg List.length h
    simp only [candidate, List.length_append, show "_".toList.length = 1 from rfl] at hlength
    omega
  intro i j h
  cases i with
  | zero =>
    cases j with
    | zero => rfl
    | succ j => exact absurd h (hlonger j)
  | succ i =>
    cases j with
    | zero => exact absurd h.symm (hlonger i)
    | succ j => exact to_string_nat_injective (List.append_cancel_left h)

/-- A number put behind an identifier leaves it one, so each name that is tried is an
identifier. -/
theorem candidate_isIdentifier {base : Str} (h : IsIdentifier base) (count : Nat) :
    IsIdentifier (candidate base count) := by
  cases count with
  | zero => exact h
  | succ count =>
    refine (h.append (List.all_eq_true.mp (by decide))).append fun c hc => ?_
    exact isNameChar_of_isDigit (isDigit_of_mem_to_string_nat hc)

/-- The search finds a candidate that is unused, and the first one where that is unused. -/
private theorem firstUnused_spec {base : Str} {used : List Str} {bound count : Nat}
    (h : ∃ k, count ≤ k ∧ k < count + bound ∧ candidate base k ∉ used) :
    ∃ k, firstUnused base used bound (count + 1) (candidate base count) = candidate base k ∧ candidate base k ∉ used ∧
      (candidate base count ∉ used → k = count) := by
  induction bound generalizing count with
  | zero =>
    obtain ⟨k, hle, hlt, -⟩ := h
    omega
  | succ bound ih =>
    rw [firstUnused]
    by_cases hused : candidate base count ∈ used
    · rw [if_pos hused]
      obtain ⟨k, hle, hlt, hk⟩ := h
      have hlater : count + 1 ≤ k := by
        obtain rfl | hlt' := Nat.eq_or_lt_of_le hle
        · exact absurd hused hk
        · exact hlt'
      obtain ⟨k', hfirst, hnot, -⟩ := ih ⟨k, hlater, by omega, hk⟩
      exact ⟨k', hfirst, hnot, fun h => absurd hused h⟩
    · rw [if_neg hused]
      exact ⟨count, rfl, hused, fun _ => rfl⟩

/-- Among one name more than are used there is one that is not. -/
theorem exists_candidate_not_mem (base : Str) (used : List Str) :
    ∃ k < used.length + 1, candidate base k ∉ used := by
  by_contra h
  push Not at h
  have hnodup : ((List.range (used.length + 1)).map (candidate base)).Nodup :=
    List.nodup_range.map (candidate_injective base)
  have hsubset : (List.range (used.length + 1)).map (candidate base) ⊆ used := by
    intro name hname
    obtain ⟨k, hk, rfl⟩ := List.mem_map.mp hname
    exact h k (List.mem_range.mp hk)
  have hlength := (List.subperm_of_subset hnodup hsubset).length_le
  rw [List.length_map, List.length_range] at hlength
  omega

/-- A unique name is that of the column, if it is not used, or one with a number. -/
theorem makeUniqueProtoFieldName_spec {original : Str} (h : IsIdentifier original) (index : Nat) (used : List Str) :
    ∃ k, makeUniqueProtoFieldName original index used = candidate original k ∧ candidate original k ∉ used ∧
      (original ∉ used → k = 0) := by
  simp only [makeUniqueProtoFieldName, sanitizeProtoFieldName_of_isIdentifier h]
  obtain ⟨k, hk, hnot⟩ := exists_candidate_not_mem original used
  exact firstUnused_spec ⟨k, Nat.zero_le k, by omega, hnot⟩

/-- An identifier has no dot in it, so nothing is cut off its front. -/
theorem afterDot_of_isIdentifier {name : Str} (h : IsIdentifier name) : afterDot name = name := by
  have hdot : '.' ∉ name := fun hmem => absurd (h.chars '.' hmem) (by decide)
  have hcut : Text.cut ".".toList name = none := by
    rw [Text.cut_eq_none_iff, ← Text.occurs_iff]
    exact fun hoccurs => hdot (Text.occurs_singleton.mp hoccurs)
  rw [afterDot, hcut]

/-- The names of the fields are identifiers, different from each other and from those
that are used. -/
theorem schemaColumns_names (attrs : List Attribute) (i : Nat) (used : List Str) :
    ((schemaColumns attrs i used).map Prod.fst).Nodup ∧
      ∀ name ∈ (schemaColumns attrs i used).map Prod.fst, IsIdentifier name ∧ name ∉ used := by
  induction attrs generalizing i used with
  | nil => exact ⟨List.nodup_nil, nofun⟩
  | cons attr attrs ih =>
    obtain ⟨k, hk, hnot, -⟩ := makeUniqueProtoFieldName_spec (sanitizeProtoFieldName_isIdentifier attr.name i) i used
    have hidentifier := candidate_isIdentifier (sanitizeProtoFieldName_isIdentifier attr.name i) k
    simp only [schemaColumns, hk, afterDot_of_isIdentifier hidentifier, List.map_cons, List.nodup_cons,
      List.forall_mem_cons]
    obtain ⟨hnodup, hrest⟩ := ih (i + 1) (candidate (sanitizeProtoFieldName attr.name i) k :: used)
    refine ⟨⟨fun hmem => (hrest _ hmem).2 List.mem_cons_self, hnodup⟩, ⟨hidentifier, hnot⟩, fun name hname => ?_⟩
    exact ⟨(hrest name hname).1, fun hused => (hrest name hname).2 (List.mem_cons_of_mem _ hused)⟩

/-- A name that does not end in a digit is a candidate only of itself, without a number. -/
private theorem candidate_eq_iff {base name : Str} (hlast : ∀ c, name.getLast? = some c → c.isDigit = false) (k : Nat) :
    candidate base k = name ↔ k = 0 ∧ base = name := by
  cases k with
  | zero => exact (and_iff_right rfl).symm
  | succ count =>
    refine iff_of_false (fun h => ?_) fun h => absurd h.1 (Nat.succ_ne_zero count)
    have hdigits := to_string_nat_ne_nil (count + 1)
    have hgetLast : name.getLast? = some ((to_string_nat (count + 1)).getLast hdigits) := by
      rw [← h, candidate, List.getLast?_append_of_ne_nil _ hdigits, List.getLast?_eq_some_getLast hdigits]
    have hdigit := isDigit_of_mem_to_string_nat (List.getLast_mem hdigits)
    rw [hlast _ hgetLast] at hdigit
    exact Bool.false_ne_true hdigit

/-- A name with no digit at its end is that of a field exactly where it is used or that
of a column. -/
theorem mem_schemaColumns_iff {name : Str} (hlast : ∀ c, name.getLast? = some c → c.isDigit = false)
    (attrs : List Attribute) (i : Nat) (used : List Str) :
    name ∈ used ∨ name ∈ (schemaColumns attrs i used).map Prod.fst ↔
      name ∈ used ∨ ∃ entry ∈ attrs.zipIdx i, sanitizeProtoFieldName entry.1.name entry.2 = name := by
  induction attrs generalizing i used with
  | nil => simp [schemaColumns]
  | cons attr attrs ih =>
    obtain ⟨k, hk, hnot, hzero⟩ :=
      makeUniqueProtoFieldName_spec (sanitizeProtoFieldName_isIdentifier attr.name i) i used
    have hidentifier := candidate_isIdentifier (sanitizeProtoFieldName_isIdentifier attr.name i) k
    have hrest := ih (i + 1) (candidate (sanitizeProtoFieldName attr.name i) k :: used)
    have hfirst : name ∈ used ∨ candidate (sanitizeProtoFieldName attr.name i) k = name ↔
        name ∈ used ∨ sanitizeProtoFieldName attr.name i = name := by
      rw [candidate_eq_iff hlast]
      by_cases hused : name ∈ used
      · exact iff_of_true (Or.inl hused) (Or.inl hused)
      · rw [or_iff_right hused, or_iff_right hused]
        exact and_iff_right_of_imp fun h => hzero (h ▸ hused)
    rw [List.mem_cons, eq_comm (b := candidate _ k), or_comm (b := name ∈ used), hfirst] at hrest
    simp only [schemaColumns, hk, afterDot_of_isIdentifier hidentifier, List.map_cons, List.zipIdx_cons,
      List.mem_cons, or_and_right, exists_or, exists_eq_left]
    rw [eq_comm (b := candidate _ k), ← or_assoc, hfirst, hrest, or_assoc]

end IS.ProtobufParser

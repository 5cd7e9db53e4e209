import Dm20.Lib.EquiJoin
import Dm20.Lib.KeyText
import Dm20.Operator.JoinCalls
import Dm20.Query.IntegerComparison
import Dm20.TupleLib.Kind

open Collect

namespace IS

open StringUtil

section Values

/-- Two values whose texts are the same just where the values are equal for a comparison, and
have no character of the one between the texts of a key. -/
def KeyValues : Any → Any → Prop
  | .scalar .string s, .scalar .string t => '_' ∉ s ∧ '_' ∉ t
  | .scalar .bool _, .scalar .bool _ => True
  | .scalar a x, .scalar b y =>
    a.isInteger = true ∧ b.isInteger = true ∧ Comparator.EQ.Faithful a (a.toInt x) b (b.toInt y)
  | _, _ => False

/-- The text of an integer is that of its value. -/
theorem text_integer {ty : ScalarType} (hty : ty.isInteger = true) (x : ty.denote) :
    ty.text x = to_string_int (ty.toInt x) := by
  cases ty, hty using ScalarType.integer_cases with
  | int => rfl
  | long => rfl
  | uint => exact to_string_nat_eq_int _
  | ulonglong => exact to_string_nat_eq_int _
  | uint64 => exact to_string_nat_eq_int _

private theorem underscore_not_mem_to_string_int (n : Int) : '_' ∉ to_string_int n := by
  have hdigits : ∀ m : Nat, '_' ∉ to_string_nat m := fun m hmem => by
    cases isDigit_of_mem_to_string_nat hmem
  rw [to_string_int]
  split
  · rw [List.mem_cons, not_or]
    exact ⟨by decide, hdigits _⟩
  · exact hdigits _

/-- The equality of two numbers of different types is faithful in both orders or in neither. -/
theorem Comparator.faithful_eq_comm {a b : ScalarType} {x y : Int} :
    Comparator.EQ.Faithful a x b y ↔ Comparator.EQ.Faithful b y a x := by
  have hone : ∀ {a b : ScalarType} {x y : Int}, Comparator.EQ.Faithful a x b y → Comparator.EQ.Faithful b y a x := by
    intro a b x y h
    have hrank : a.BecomesUnsigned b → ¬ b.BecomesUnsigned a := fun h h' => by
      have hlt := h.2.2
      have hlt' := h'.2.2
      omega
    simp only [Faithful, reduceCtorEq, false_and, if_false] at h ⊢
    by_cases hboth : a = .uint64 ∧ b = .uint64
    · rw [if_pos hboth] at h
      rw [if_pos hboth.symm]
      exact fun heq => h heq.symm
    · rw [if_neg hboth] at h
      rw [if_neg fun h' => hboth h'.symm]
      by_cases hleft : x < 0 ∧ a.BecomesUnsigned b
      · rw [if_pos hleft] at h
        rw [if_neg fun h' => hrank hleft.2 h'.2, if_pos hleft]
        exact h
      · rw [if_neg hleft] at h
        by_cases hright : y < 0 ∧ b.BecomesUnsigned a
        · rw [if_pos hright] at h ⊢
          exact h
        · rw [if_neg hright, if_neg hleft]
          trivial
  exact ⟨hone, hone⟩

private theorem matchAny_integers {a b : ScalarType} (ha : a.isInteger = true) (hb : b.isInteger = true) {x : a.denote}
    {y : b.denote} (h : Comparator.EQ.Faithful a (a.toInt x) b (b.toInt y)) :
    (Comparator.EQ.matchAny (.scalar a x) (.scalar b y)).toOption.getD false = true ↔ a.toInt x = b.toInt y :=
  (Comparator.matchScalar_iff_faithful .EQ ha hb x y).mpr h

/-- What the texts of two values of keys are to their comparison, in either order. -/
theorem KeyValues.text_eq_iff {v w : Any} (h : KeyValues v w) : '_' ∉ getAnyString v ∧ '_' ∉ getAnyString w ∧
    (getAnyString v = getAnyString w ↔ (Comparator.EQ.matchAny v w).toOption.getD false = true) ∧
    (getAnyString v = getAnyString w ↔ (Comparator.EQ.matchAny w v).toOption.getD false = true) := by
  unfold KeyValues at h
  split at h
  · next s t =>
    have hcompare : ∀ s t : Str, (Comparator.EQ.matchAny (.scalar .string s) (.scalar .string t)).toOption.getD false =
        (s == t) := fun s t => rfl
    rw [hcompare, hcompare, beq_iff_eq, beq_iff_eq]
    exact ⟨h.1, h.2, Iff.rfl, eq_comm⟩
  · next x y =>
    cases x <;> cases y <;> decide
  · next a x b y _ _ =>
    obtain ⟨ha, hb, hfaithful⟩ := h
    have htext : getAnyString (.scalar a x) = getAnyString (.scalar b y) ↔ a.toInt x = b.toInt y := by
      have hleft : getAnyString (.scalar a x) = a.text x := rfl
      have hright : getAnyString (.scalar b y) = b.text y := rfl
      rw [hleft, hright, text_integer ha, text_integer hb]
      exact to_string_int_injective.eq_iff
    refine ⟨?_, ?_, ?_, ?_⟩
    · change '_' ∉ a.text x
      rw [text_integer ha]
      exact underscore_not_mem_to_string_int _
    · change '_' ∉ b.text y
      rw [text_integer hb]
      exact underscore_not_mem_to_string_int _
    · rw [htext, matchAny_integers ha hb hfaithful]
    · rw [htext, matchAny_integers hb ha (Comparator.faithful_eq_comm.mp hfaithful), eq_comm]
  · exact h.elim

end Values

namespace JoinOperator

section Tuples

/-- The column of a tuple at an index that it has. -/
def HasIdx (t : Tuple) (idx : Int) : Prop :=
  0 ≤ idx ∧ idx.toNat < t.size

def valueAt (t : Tuple) (idx : Int) : Any :=
  (t.getValueByIdx idx.toNat).getD .void

theorem readByIdx_eq {t : Tuple} {idx : Int} (h : HasIdx t idx) (val : Any) : t.readByIdx idx val = valueAt t idx := by
  obtain ⟨hidx, hsize⟩ := h
  have hlt : idx.toNat < t.columns.length := hsize
  have hvalue : t.getValueByIdx idx.toNat = some t.columns[idx.toNat].value := by
    rw [Tuple.getValueByIdx, List.getElem?_eq_getElem hlt]
    rfl
  rw [Tuple.readByIdx, if_pos hidx, valueAt, hvalue]
  rfl

/-- The tuple of a pair: the columns of both, none of them null. -/
def joined (pair : Tuple × Tuple) : Tuple :=
  { columns := (pair.1.columns ++ pair.2.columns).map fun c => { c with isNull := false } }

end Tuples

end JoinOperator

end IS

import Dm20.TupleLib.Value

namespace IS.StringUtil

def toLower (target : Str) : Str :=
  target.map Char.toLower

/-- Whether two type names stand for one type, within a bound on the number of
vectors and arrays in each other; `none` is an exception, or a comparison that
does not end. -/
def checkDataTypeMatchesWithin : Nat → Str → Str → Option Bool
  | 0, _, _ => none
  | n + 1, type1, type2 =>
    match typeMap.lookup (toLower type1), typeMap.lookup (toLower type2) with
    | some dataType1, some dataType2 => some (decide (dataType1 = dataType2))
    | _, _ =>
      if contain type1 "vector".toList && contain type2 "vector".toList then do
        let inner1 ← (getStringInBracket type1).head?
        let inner2 ← (getStringInBracket type2).head?
        checkDataTypeMatchesWithin n inner1 inner2
      else if type1.head? = some '_' ∧ type2.head? = some '_' then checkDataTypeMatchesWithin n type1.tail type2.tail
      else some false

def checkDataTypeMatches (type1 type2 : Str) : Option Bool :=
  checkDataTypeMatchesWithin (type1.length + type2.length + 1) type1 type2

/-- Texts that are their own texts in brackets are compared without end. -/
theorem checkDataTypeMatchesWithin_self {type1 type2 : Str}
    (hmap : ∀ d1 d2, typeMap.lookup (toLower type1) = some d1 → typeMap.lookup (toLower type2) ≠ some d2)
    (hvector : (contain type1 "vector".toList && contain type2 "vector".toList) = true)
    (h1 : (getStringInBracket type1).head? = some type1) (h2 : (getStringInBracket type2).head? = some type2) (n : Nat) :
    checkDataTypeMatchesWithin n type1 type2 = none := by
  induction n with
  | zero => rfl
  | succ n ih =>
    rw [checkDataTypeMatchesWithin]
    split
    · next d1 d2 hd1 hd2 => exact absurd hd2 (hmap d1 d2 hd1)
    · rw [if_pos hvector, h1, h2]
      exact ih

/-- The bound is large enough: a larger one gives no other answer. -/
theorem checkDataTypeMatchesWithin_eq {n : Nat} {type1 type2 : Str} (hn : type1.length + type2.length < n) :
    checkDataTypeMatchesWithin n type1 type2 = checkDataTypeMatches type1 type2 := by
  have hall : ∀ n m, ∀ type1 type2 : Str, type1.length + type2.length < n → type1.length + type2.length < m →
      checkDataTypeMatchesWithin n type1 type2 = checkDataTypeMatchesWithin m type1 type2 := by
    intro n
    induction n with
    | zero => exact fun m type1 type2 hn _ => absurd hn (Nat.not_lt_zero _)
    | succ n ih =>
      intro m type1 type2 hn hm
      obtain ⟨m, rfl⟩ : ∃ k, m = k + 1 := ⟨m - 1, by omega⟩
      rw [checkDataTypeMatchesWithin, checkDataTypeMatchesWithin]
      split
      · rfl
      · next hmap =>
        by_cases hvector : (contain type1 "vector".toList && contain type2 "vector".toList) = true
        · rw [if_pos hvector, if_pos hvector]
          cases h1 : (getStringInBracket type1).head? with
          | none => rfl
          | some inner1 =>
            cases h2 : (getStringInBracket type2).head? with
            | none => rfl
            | some inner2 =>
              have hlength1 := length_getStringInBracket (List.mem_of_head? h1)
              have hlength2 := length_getStringInBracket (List.mem_of_head? h2)
              by_cases hself : inner1 = type1 ∧ inner2 = type2
              · obtain ⟨rfl, rfl⟩ := hself
                have hnone := checkDataTypeMatchesWithin_self (fun d1 d2 hd1 hd2 => hmap d1 d2 hd1 hd2) hvector h1 h2
                exact (hnone n).trans (hnone m).symm
              · have hshorter : inner1.length + inner2.length < type1.length + type2.length := by
                  obtain hlt1 | rfl := hlength1
                  · obtain hlt2 | rfl := hlength2
                    · omega
                    · omega
                  · obtain hlt2 | rfl := hlength2
                    · omega
                    · exact absurd ⟨rfl, rfl⟩ hself
                exact ih m inner1 inner2 (by omega) (by omega)
        · rw [if_neg hvector, if_neg hvector]
          split
          · next hhead =>
            obtain ⟨rest1, rfl⟩ : ∃ rest1, type1 = '_' :: rest1 := List.head?_eq_some_iff.mp hhead.1
            obtain ⟨rest2, rfl⟩ : ∃ rest2, type2 = '_' :: rest2 := List.head?_eq_some_iff.mp hhead.2
            simp only [List.length_cons] at hn hm
            exact ih m rest1 rest2 (by omega) (by omega)
          · rfl
  exact hall n _ type1 type2 hn (Nat.lt_succ_self _)

example : checkDataTypeMatches "vector(int4)".toList "vector(INTEGER)".toList = some true := by decide +kernel

end IS.StringUtil

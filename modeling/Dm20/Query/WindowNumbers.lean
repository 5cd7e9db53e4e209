import Dm20.Lib.Strip
import Dm20.Query.WindowTokens

namespace IS

open Tokenizer (isDelimiter isWhitespace isArithmeticSymbol)

/-- The digits in front of a number, as far as they go. -/
def leading (number : Str) : Nat :=
  digitsValue (number.takeWhile Char.isDigit)

/-- A word has no blanks in it. -/
theorem IsWord.isSpace {number : Str} (h : IsWord number) {c : Char} (hc : c ∈ number) : isSpace c = false := by
  have hdelimiter := h c hc
  simp only [isDelimiter, isWhitespace, Bool.or_eq_false_iff] at hdelimiter
  exact hdelimiter.1.1.1.1.1

/-- A word has no signs in it: the tokenizer cuts there. -/
theorem IsWord.ne_sign {number : Str} (h : IsWord number) {c : Char} (hc : c ∈ number) : c ≠ '-' ∧ c ≠ '+' := by
  have hdelimiter := h c hc
  simp only [isDelimiter, Bool.or_eq_false_iff] at hdelimiter
  have harithmetic : isArithmeticSymbol c = false := hdelimiter.1.2
  constructor
  · rintro rfl
    cases harithmetic
  · rintro rfl
    cases harithmetic

private theorem readSign_of_ne_sign {c : Char} (h : c ≠ '-' ∧ c ≠ '+') (s : Str) :
    readSign (c :: s) = (false, c :: s) := by
  unfold readSign
  split
  · next heq => exact absurd (List.cons.inj heq).1 h.1
  · next heq => exact absurd (List.cons.inj heq).1 h.2
  · rfl

private theorem isDigit_of_isSpace {c : Char} (h : isSpace c = true) : c.isDigit = false := by
  rw [Bool.eq_false_iff]
  intro hdigit
  rw [isSpace_of_isDigit hdigit] at h
  cases h

/-- Digits behind which a blank or nothing stands. -/
theorem takeWhile_isDigit_append (s : Str) {b : Str} (hb : b.head?.all isSpace = true) :
    (s ++ b).takeWhile Char.isDigit = s.takeWhile Char.isDigit := by
  have hnone : b.takeWhile Char.isDigit = [] := by
    rw [takeWhile_isDigit_eq_nil_iff]
    cases b with
    | nil => rfl
    | cons c b => exact isDigit_of_isSpace hb
  rw [List.takeWhile_append]
  split
  · next hall => rw [hnone, List.append_nil, (List.takeWhile_prefix _).eq_of_length hall]
  · rfl

/-- The integer at the front of a word, whatever stands behind a blank. -/
theorem IsWord.strtol {number : Str} (h : IsWord number) (hne : number ≠ []) {b : Str}
    (hb : b.head?.all IS.isSpace = true) :
    strtol (number ++ b) = if number.takeWhile Char.isDigit = [] then none else some (leading number : Int) := by
  have hdrop : (number ++ b).dropWhile IS.isSpace = number ++ b := by
    cases number with
    | nil => exact absurd rfl hne
    | cons c number => exact List.dropWhile_cons_of_neg (by simp [h.isSpace (List.mem_cons_self ..)])
  have hsign : readSign (number ++ b) = (false, number ++ b) := by
    cases number with
    | nil => exact absurd rfl hne
    | cons c number => exact readSign_of_ne_sign (h.ne_sign (List.mem_cons_self ..)) _
  rw [IS.strtol, hdrop, hsign]
  dsimp only
  rw [takeWhile_isDigit_append number hb]
  cases hdigits : number.takeWhile Char.isDigit with
  | nil => rfl
  | cons d ds => simp [leading, hdigits]

/-- What is read as an `int` is the number at the front of the text. -/
theorem strtol_of_stoi {s : Str} {n : Int32} (h : stoi s = .ok n) : strtol s = some n.toInt := by
  unfold stoi at h
  split at h
  · cases h
  next k hk =>
  split at h
  · next hrange =>
    obtain rfl := Except.ok.inj h
    rw [hk, Int32.toInt_ofInt_of_le hrange.1 hrange.2]
  · cases h

/-- What is read as a `long` is the number at the front of the text. -/
theorem strtol_of_stol {s : Str} {n : Int64} (h : stol s = .ok n) : strtol s = some n.toInt := by
  unfold stol at h
  split at h
  · cases h
  next k hk =>
  split at h
  · next hrange =>
    obtain rfl := Except.ok.inj h
    rw [hk, Int64.toInt_ofInt_of_le hrange.1 hrange.2]
  · cases h

/-- An integer that is read from a word is the number of the digits in front of it. -/
theorem IsWord.eq_leading {number : Str} (h : IsWord number) (hne : number ≠ []) {n : Int}
    (hn : IS.strtol number = some n) : n = leading number := by
  have hstrtol := h.strtol hne (b := []) rfl
  rw [List.append_nil, hn] at hstrtol
  split at hstrtol
  · cases hstrtol
  · exact Option.some.inj hstrtol

/-- Blanks around a text make no difference to the integer that is read from it. -/
theorem strtol_strip {p : Char → Bool} (hp : ∀ c, p c = true → isSpace c = true) (s : Str) :
    strtol (Strip.strip p s) = strtol s := by
  obtain ⟨a, b, hs, ha, hb⟩ := Strip.strip_spec p s
  generalize Strip.strip p s = m at hs
  subst hs
  have hblanks : ∀ c ∈ b, isSpace c = true := fun c hc => hp c (hb c hc)
  have hdrop : (a ++ m ++ b).dropWhile isSpace = if m.dropWhile isSpace = [] then [] else m.dropWhile isSpace ++ b := by
    rw [List.append_assoc, Strip.dropWhile_append_of_all fun c hc => hp c (ha c hc), List.dropWhile_append,
      List.dropWhile_eq_nil_iff.mpr hblanks]
    simp
  rw [IS.strtol, IS.strtol, hdrop]
  cases hm : m.dropWhile isSpace with
  | nil => rfl
  | cons c rest =>
    have hsign : readSign (c :: rest ++ b) = ((readSign (c :: rest)).1, (readSign (c :: rest)).2 ++ b) := by
      by_cases hminus : c = '-'
      · subst hminus
        rfl
      by_cases hplus : c = '+'
      · subst hplus
        rfl
      rw [List.cons_append, readSign_of_ne_sign ⟨hminus, hplus⟩, readSign_of_ne_sign ⟨hminus, hplus⟩]
      rfl
    have hhead : b.head?.all isSpace = true := by
      cases b with
      | nil => rfl
      | cons d b => exact hblanks d (List.mem_cons_self ..)
    rw [if_neg (List.cons_ne_nil c rest), hsign]
    dsimp only
    rw [takeWhile_isDigit_append _ hhead]

section Magnitude

/-- The number that decimal digits denote. -/
def decimalValue (ds : List Nat) : Nat :=
  ds.foldl (fun n d => 10 * n + d) 0

private theorem foldl_ge (ds : List Nat) (n : Nat) : n * 10 ^ ds.length ≤ ds.foldl (fun n d => 10 * n + d) n := by
  induction ds generalizing n with
  | nil => simp
  | cons d ds ih =>
    have hle : n * 10 * 10 ^ ds.length ≤ (10 * n + d) * 10 ^ ds.length := Nat.mul_le_mul_right _ (by omega)
    rw [List.length_cons, Nat.pow_succ', ← Nat.mul_assoc]
    exact hle.trans (ih _)

private theorem decimalValue_append_ge (ds ds' : List Nat) :
    decimalValue ds * 10 ^ ds'.length ≤ decimalValue (ds ++ ds') := by
  rw [decimalValue, decimalValue, List.foldl_append]
  exact foldl_ge ds' _

private theorem filterMap_decimalDigit {s : Str} (h : ∀ c ∈ s, c.isDigit = true) :
    s.filterMap decimalDigit = s.map fun c => c.toNat - '0'.toNat := by
  rw [← List.filterMap_eq_map]
  refine List.filterMap_congr fun c hc => ?_
  rw [decimalDigit, if_pos (h c hc)]
  rfl

private theorem digitsValue_eq {s : Str} (h : ∀ c ∈ s, c.isDigit = true) :
    digitsValue s = decimalValue (s.filterMap decimalDigit) := by
  rw [filterMap_decimalDigit h, decimalValue, List.foldl_map]
  rfl

/-- An exponent without a sign is not negative. -/
private theorem readExponent_nonneg {mark : Char} {s : Str} (h : ∀ c ∈ s, c ≠ '-' ∧ c ≠ '+') :
    0 ≤ readExponent mark s := by
  cases s with
  | nil => exact le_refl _
  | cons c rest =>
    rw [readExponent]
    split
    · cases rest with
      | nil => exact Int.natCast_nonneg _
      | cons d rest =>
        rw [readSign_of_ne_sign (h d (by simp))]
        exact Int.natCast_nonneg _
    · exact le_refl _

/-- The mantissa at the front of a text without a sign: its digits are those in front and
those behind the point. -/
theorem readMantissa_eq (s : Str) : ∃ fraction rest : Str, (∀ c ∈ fraction, c.isDigit = true) ∧ (∀ c ∈ rest, c ∈ s) ∧
    readMantissa decimalDigit s = ((s.takeWhile Char.isDigit).filterMap decimalDigit ++ fraction.filterMap decimalDigit,
      fraction.length, rest) := by
  have hisDigit : (fun c => (decimalDigit c).isSome) = Char.isDigit := funext isSome_decimalDigit
  simp only [readMantissa, hisDigit]
  split
  · next rest heq =>
    refine ⟨rest.takeWhile Char.isDigit, rest.dropWhile Char.isDigit, fun c hc => List.mem_takeWhile_imp hc, ?_, ?_⟩
    · intro c hc
      refine (List.dropWhile_sublist (p := Char.isDigit) (l := s)).subset ?_
      rw [heq]
      exact List.mem_cons_of_mem _ ((List.dropWhile_sublist _).subset hc)
    · rw [List.filterMap_append]
  · exact ⟨[], s.dropWhile Char.isDigit, by simp, fun c hc => (List.dropWhile_sublist _).subset hc, by simp⟩

/-- The leading digits of a decimal number are at most the number that is read of it. -/
private theorem leading_mul_le_of_decimal {s : Str} (h : ∀ c ∈ s, c ≠ '-' ∧ c ≠ '+') {num den : Nat}
    {ratio : Option (Nat × Nat)} (hratio : ratio = match readMantissa decimalDigit s with
      | ([], _) => none
      | (ds, places, rest) => some (decimalValue ds * 10 ^ (readExponent 'e' rest - places).toNat,
          10 ^ (-(readExponent 'e' rest - places)).toNat))
    (hsome : ratio = some (num, den)) : leading s * den ≤ num ∧ 0 < den := by
  obtain ⟨fraction, rest, hfraction, hrest, hmantissa⟩ := readMantissa_eq s
  rw [hmantissa, hsome] at hratio
  have hwhole : ∀ c ∈ s.takeWhile Char.isDigit, c.isDigit = true := fun c hc => List.mem_takeWhile_imp hc
  have hexponent : 0 ≤ readExponent 'e' rest := readExponent_nonneg fun c hc => h c (hrest c hc)
  have hvalue := decimalValue_append_ge ((s.takeWhile Char.isDigit).filterMap decimalDigit)
    (fraction.filterMap decimalDigit)
  rw [← digitsValue_eq hwhole, filterMap_decimalDigit hfraction, List.length_map] at hvalue
  rw [filterMap_decimalDigit hfraction] at hratio
  generalize (s.takeWhile Char.isDigit).filterMap decimalDigit ++ fraction.map _ = ds at hratio hvalue
  cases ds with
  | nil => cases hratio
  | cons d ds =>
    obtain ⟨rfl, rfl⟩ := Prod.mk.inj (Option.some.inj hratio)
    refine ⟨?_, Nat.pow_pos (by decide)⟩
    have hplaces : (-(readExponent 'e' rest - fraction.length)).toNat ≤ fraction.length := by omega
    calc leading s * 10 ^ (-(readExponent 'e' rest - fraction.length)).toNat
        ≤ leading s * 10 ^ fraction.length := Nat.mul_le_mul_left _ (Nat.pow_le_pow_right (by decide) hplaces)
      _ ≤ decimalValue (d :: ds) := hvalue
      _ ≤ _ := Nat.le_mul_of_pos_right _ (Nat.pow_pos (by decide))

/-- The digits in front of a number are at most the number: an exponent without a sign makes
it no smaller. -/
theorem leading_mul_le {s : Str} (h : ∀ c ∈ s, c ≠ '-' ∧ c ≠ '+') {num den : Nat}
    (hmagnitude : readMagnitude s = some (num, den)) : leading s * den ≤ num ∧ 0 < den := by
  unfold readMagnitude at hmagnitude
  extract_lets ratio decimal at hmagnitude
  have hnum : decimal = some (num, den) → leading s * den ≤ num ∧ 0 < den := leading_mul_le_of_decimal h rfl
  clear_value decimal
  split at hmagnitude
  · next x hex =>
    split at hmagnitude
    · next hx =>
      split at hmagnitude
      · exact hnum hmagnitude
      · obtain ⟨rfl, rfl⟩ := Prod.mk.inj (Option.some.inj hmagnitude)
        have hdigit : x.isDigit = false := by
          rw [Bool.eq_false_iff]
          intro hdigit
          have hsame : x.toLower = x := by
            have hrange := isDigit_toNat hdigit
            refine dif_neg fun hupper => ?_
            have hcode : x.toNat = x.val.toNat := rfl
            have hA : ('A'.val.toNat : Nat) = 65 := rfl
            simp only [ge_iff_le, UInt32.le_iff_toNat_le] at hupper
            omega
          obtain rfl : x = 'x' := hsame.symm.trans hx
          cases hdigit
        have hzero : leading ('0' :: x :: hex) = 0 := by
          rw [leading, List.takeWhile_cons_of_pos (by decide), List.takeWhile_cons_of_neg (by simp [hdigit])]
          rfl
        rw [hzero, Nat.zero_mul]
        exact ⟨Nat.zero_le _, Nat.pow_pos (by decide)⟩
    · exact hnum hmagnitude
  · exact hnum hmagnitude

end Magnitude

end IS

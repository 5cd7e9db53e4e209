import Dm20.Query.AcceptedTrees

namespace IS

open Descent Descent.Parser LeafNode QueryParser

/-- A sign, if there is one. -/
def IsSignPart (s : Str) : Prop :=
  s = [] ∨ s = "-".toList ∨ s = "+".toList

def IsDigits (s : Str) : Prop :=
  ∀ c ∈ s, c.isDigit = true

/-- Decimal digits, with a point before, among or behind them, or without one. -/
def IsMantissa (s : Str) : Prop :=
  ∃ whole fraction, IsDigits whole ∧ IsDigits fraction ∧
    ((s = whole ∧ whole ≠ []) ∨ (s = whole ++ '.' :: fraction ∧ (whole ≠ [] ∨ fraction ≠ [])))

def IsExponent (s : Str) : Prop :=
  s = [] ∨ ∃ mark sign digits, s = mark :: (sign ++ digits) ∧ mark.toLower = 'e' ∧ IsSignPart sign ∧
    IsDigits digits ∧ digits ≠ []

/-- A decimal literal: a mantissa, with a sign before and an exponent behind it if they
are there, and nothing else. -/
def IsDecimalLiteral (token : Str) : Prop :=
  ∃ sign mantissa exponent, token = sign ++ mantissa ++ exponent ∧ IsSignPart sign ∧ IsMantissa mantissa ∧
    IsExponent exponent

/-- A name: a letter or an underscore, then letters, digits, underscores and at most one dot. -/
def IsName (token : Str) : Prop :=
  (∃ c rest, token = c :: rest ∧ (c.isAlpha = true ∨ c = '_') ∧
    ∀ d ∈ rest, d.isAlphanum = true ∨ d = '_' ∨ d = '.') ∧ token.count '.' ≤ 1

/-- A digit at the front of a text, or behind a point there. -/
def digitAhead : Str → Bool
  | [] => false
  | c :: s => c.isDigit || (decide (c = '.') && s.head?.any Char.isDigit)

/-- A text that a number is read from, of which it need not be the whole: behind blanks
and a sign, an infinity, a NaN or a digit. -/
def beginsNumber (token : Str) : Bool :=
  let rest := (readSign (token.dropWhile isSpace)).2
  let word := (rest.take 3).map Char.toLower
  decide (word = "inf".toList) || decide (word = "nan".toList) || digitAhead rest

section Reading

/-- The value of a decimal digit. -/
def decimalDigit (c : Char) : Option Nat :=
  if c.isDigit then some (c.toNat - '0'.toNat) else none

theorem isSome_decimalDigit (c : Char) : (decimalDigit c).isSome = c.isDigit := by
  unfold decimalDigit
  split
  · next h => exact h.symm
  · next h => exact (Bool.eq_false_iff.mpr h).symm

private theorem filterMap_decimalDigit_eq_nil_iff {s : Str} (h : ∀ c ∈ s, c.isDigit = true) :
    s.filterMap decimalDigit = [] ↔ s = [] := by
  cases s with
  | nil => exact iff_of_true rfl rfl
  | cons c s =>
    have hc := h c List.mem_cons_self
    refine iff_of_false ?_ (List.cons_ne_nil c s)
    simp [decimalDigit, hc]

theorem takeWhile_isDigit_eq_nil_iff (s : Str) : s.takeWhile Char.isDigit = [] ↔ s.head?.any Char.isDigit = false := by
  cases s with
  | nil => exact iff_of_true rfl rfl
  | cons c s => cases h : c.isDigit <;> simp [h]

/-- A mantissa without digits is that of a text that has none at its front. -/
theorem readMantissa_eq_nil_iff (s : Str) : (readMantissa decimalDigit s).1 = [] ↔ digitAhead s = false := by
  have hisDigit : (fun c => (decimalDigit c).isSome) = Char.isDigit := funext isSome_decimalDigit
  have htake (t : Str) : ∀ c ∈ t.takeWhile Char.isDigit, c.isDigit = true := fun c hc => List.mem_takeWhile_imp hc
  simp only [readMantissa, hisDigit]
  cases s with
  | nil => exact iff_of_true rfl rfl
  | cons c s =>
    cases hc : c.isDigit with
    | true =>
      refine iff_of_false ?_ (by simp [digitAhead, hc])
      rw [List.takeWhile_cons_of_pos hc, List.dropWhile_cons_of_pos hc]
      split <;> simp [decimalDigit, hc]
    | false =>
      rw [List.takeWhile_cons_of_neg (by simp [hc]), List.dropWhile_cons_of_neg (by simp [hc])]
      by_cases hpoint : c = '.'
      · subst hpoint
        simp only [List.nil_append, digitAhead, hc, decide_true, Bool.true_and, Bool.false_or]
        rw [filterMap_decimalDigit_eq_nil_iff (htake s), takeWhile_isDigit_eq_nil_iff]
      · refine iff_of_true ?_ (by simp [digitAhead, hc, hpoint])
        split
        · next heq => exact absurd (List.cons.inj heq).1 hpoint
        · rfl

private theorem mantissa_eq_none_iff (s : Str) (f : List Nat → Nat → Str → Nat × Nat) :
    (match readMantissa decimalDigit s with
      | ([], _) => none
      | (ds, places, rest) => some (f ds places rest)) = none ↔ digitAhead s = false := by
  rw [← readMantissa_eq_nil_iff s]
  obtain ⟨ds, places, rest⟩ := readMantissa decimalDigit s
  cases ds <;> simp

/-- No number is read exactly where no digit is ahead. -/
private theorem readMagnitude_eq_none_iff (s : Str) : readMagnitude s = none ↔ digitAhead s = false := by
  unfold readMagnitude
  extract_lets ratio decimal
  have hnone : decimal = none ↔ digitAhead s = false := mantissa_eq_none_iff s _
  clear_value decimal
  split
  · next x hex =>
    have hdigit : digitAhead ('0' :: x :: hex) = true := rfl
    rw [hdigit] at hnone ⊢
    have hsome : ¬ decimal = none := fun h => Bool.noConfusion (hnone.mp h)
    refine iff_of_false ?_ (Ne.symm Bool.false_ne_true)
    split
    · split
      · exact hsome
      · exact Option.some_ne_none _
    · exact hsome
  · exact hnone

/-- No number is read exactly from a text that does not begin like one. -/
theorem stod_eq_invalid_argument_iff (token : Str) :
    stod token = .error .invalid_argument ↔ beginsNumber token = false := by
  have hmagnitude (rest : Str) : readMagnitude rest = none ↔ digitAhead rest = false := readMagnitude_eq_none_iff rest
  simp only [stod, beginsNumber]
  generalize readSign (token.dropWhile isSpace) = signed
  split
  · next h => simp [h]
  split
  · next h => simp [h]
  rename_i hinf hnan
  rw [decide_eq_false hinf, decide_eq_false hnan, Bool.false_or, Bool.false_or, ← hmagnitude]
  cases readMagnitude signed.2 with
  | none => simp
  | some ratio =>
    simp only [reduceCtorEq, iff_false]
    split
    · simp
    · split <;> simp

end Reading

section Literals

/-- A mantissa begins with a digit, or with a point that a digit follows. -/
private theorem digitAhead_of_mantissa {mantissa : Str} (h : IsMantissa mantissa) (exponent : Str) :
    ∃ c s, mantissa ++ exponent = c :: s ∧ (c.isDigit = true ∨ c = '.') ∧ digitAhead (c :: s) = true := by
  obtain ⟨whole, fraction, hwhole, hfraction, hshape⟩ := h
  cases whole with
  | cons c whole =>
    have hc : c.isDigit = true := hwhole c List.mem_cons_self
    obtain ⟨rfl, -⟩ | ⟨rfl, -⟩ := hshape
    · exact ⟨c, whole ++ exponent, rfl, Or.inl hc, by simp [digitAhead, hc]⟩
    · exact ⟨c, whole ++ '.' :: fraction ++ exponent, rfl, Or.inl hc, by simp [digitAhead, hc]⟩
  | nil =>
    obtain ⟨-, hne⟩ | ⟨rfl, hne⟩ := hshape
    · exact absurd rfl hne
    · cases fraction with
      | nil => simp at hne
      | cons d fraction =>
        have hd : d.isDigit = true := hfraction d List.mem_cons_self
        exact ⟨'.', d :: fraction ++ exponent, rfl, Or.inr rfl, by simp [digitAhead, hd]⟩

private theorem isSpace_point : isSpace '.' = false := by decide

private theorem readSign_of_number {c : Char} (h : c.isDigit = true ∨ c = '.') (s : Str) : readSign (c :: s) =
    (false, c :: s) := by
  obtain h | rfl := h
  · exact readSign_of_isDigit h s
  · rfl

/-- A decimal literal begins as a number does. -/
private theorem beginsNumber_of_literal {token : Str} (h : IsDecimalLiteral token) : beginsNumber token = true := by
  obtain ⟨sign, mantissa, exponent, rfl, hsign, hmantissa, -⟩ := h
  obtain ⟨c, s, heq, hc, hahead⟩ := digitAhead_of_mantissa hmantissa exponent
  have hspace : isSpace c = false := hc.elim isSpace_of_isDigit fun h => h ▸ isSpace_point
  have hrest : (readSign ((sign ++ mantissa ++ exponent).dropWhile isSpace)).2 = c :: s := by
    rw [List.append_assoc, heq]
    obtain rfl | rfl | rfl := hsign
    · rw [List.nil_append, List.dropWhile_cons_of_neg (by simp [hspace]), readSign_of_number hc]
    · rfl
    · rfl
  simp only [beginsNumber, hrest, hahead, Bool.or_true]

/-- A name begins with a letter or an underscore, so it is no literal. -/
theorem not_literal_of_identifier {token : Str} (h : isIdentifier token = true) : ¬ IsDecimalLiteral token := by
  rintro ⟨sign, mantissa, exponent, rfl, hsign, hmantissa, -⟩
  obtain ⟨c, s, heq, hc, -⟩ := digitAhead_of_mantissa hmantissa exponent
  rw [List.append_assoc, heq] at h
  obtain rfl | rfl | rfl := hsign
  · simp only [List.nil_append, isIdentifier, Bool.and_eq_true, Bool.or_eq_true, decide_eq_true_eq] at h
    obtain hdigit | rfl := hc
    · have hrange := isDigit_toNat hdigit
      obtain halpha | rfl := h.1
      · have hletter := isAlpha_toNat halpha
        omega
      · cases hdigit
    · exact absurd h.1 (by decide)
  · cases h
  · cases h

/-- A name is an identifier with one point at most. -/
private theorem isName_iff (token : Str) : IsName token ↔ isIdentifier token = true ∧ token.count '.' ≤ 1 := by
  refine and_congr_left fun _ => ?_
  cases token with
  | nil => exact iff_of_false (fun ⟨_, _, h, _⟩ => nomatch h) Bool.false_ne_true
  | cons c s =>
    simp only [isIdentifier, Bool.and_eq_true, Bool.or_eq_true, decide_eq_true_eq, List.all_eq_true, List.cons.injEq]
    constructor
    · rintro ⟨_, _, ⟨rfl, rfl⟩, hc, hrest⟩
      exact ⟨hc, fun d hd => by simpa [or_assoc] using hrest d hd⟩
    · rintro ⟨hc, hrest⟩
      exact ⟨c, s, ⟨rfl, rfl⟩, hc, fun d hd => by simpa [or_assoc] using hrest d hd⟩

end Literals

/-- A token alone is read as an expression of a symbol. -/
def ReadsAs (n : Nat) (token : Str) (symbol : Symbol) : Prop :=
  parseExpression (n + 2) [token] = .ok (.node .EXPRESSION [.leaf symbol token], [])

/-- A token is taken for a number exactly if it is a decimal literal and for an identifier
exactly if it is a name, by the leaf and by the parser, with no exception of the library. -/
structure Classified (token : Str) : Prop where
  leaf : ∃ symbol, leafNode token = .ok (.leaf symbol token) ∧ (symbol = .NUMBER ↔ IsDecimalLiteral token) ∧
    (symbol = .IDENTIFIER ↔ IsName token)
  number : ∀ n, ReadsAs n token .NUMBER ↔ IsDecimalLiteral token
  identifier : ∀ n, ReadsAs n token .IDENTIFIER ↔ IsName token
  caught : ∀ n, parseExpression (n + 2) [token] ≠ .error .outOfRange

section Expression

variable {token : Str} (n : Nat)

/-- A token that opens no bracket is an expression by itself, if it is a leaf. -/
private theorem parseExpression_alone (hparen : token ≠ "(".toList) (hbracket : token ≠ "[".toList) :
    parseExpression (n + 2) [token] = match leafNode token with
      | .error e => .error e
      | .ok leaf => parseOperand (n + 1) (parseExpression (n + 1)) token leaf [] := by
  have haccept : accept (ε := ParseError) (exactly "(") [token] = .ok (false, [token]) := by
    rw [accept, exactly, decide_eq_false hparen]
    rfl
  have htoken : (lexeme pure (parseException "no token exists") : Parse Str) [token] = .ok (token, []) := rfl
  have htext : operandText (n + 1) [token] = .ok (token, []) := by
    unfold operandText
    rw [bind_of_ok htoken, exactly, decide_eq_false hbracket]
    rfl
  rw [parseExpression, bind_of_ok haccept, if_neg Bool.false_ne_true, bind_of_ok htext]
  cases leafNode token with
  | error e => rfl
  | ok leaf => rfl

private theorem parseFormula_alone (operators : List Str) (formula : Str × ParseTreeNode) :
    parseFormula (n + 1) operators formula [] = .ok (formula, []) := by
  induction operators with
  | nil => rfl
  | cons ope operators ih =>
    have hoperands : formulaOperands (n + 1) ope formula [] = .ok (formula, []) := rfl
    rw [parseFormula, bind_of_ok hoperands]
    exact ih

/-- What the parser makes of the leaf of a token behind which there is none. -/
theorem parseOperand_alone (expression : Parse ParseTreeNode) (leaf : ParseTreeNode) :
    parseOperand (n + 1) expression token leaf [] =
      if isNumber token || isString token || isNumberArray token || isStringArray token then
        .ok (.node .EXPRESSION [leaf], [])
      else if isSign token then .error .undefined
      else if !isIdentifier token then
        .error (.parseException ("This symbol '".toList ++ token ++ "' is not allowed here".toList))
      else .ok (.node .EXPRESSION [leaf], []) := by
  unfold parseOperand
  split
  · rfl
  split
  · rfl
  split
  · rfl
  have haccept : (accept (exactly "(") : Parse Bool) [] = .ok (false, []) := rfl
  rw [bind_of_ok haccept, if_neg Bool.false_ne_true, bind_of_ok (parseFormula_alone n _ _)]
  rfl

end Expression

/-- The condition on a token: one that begins like a number is a decimal literal in the
range of a double, and one of the characters of names has at most one dot. -/
structure Plain (token : Str) : Prop where
  number : beginsNumber token = true → IsDecimalLiteral token ∧ stod token ≠ .error .out_of_range
  dots : isIdentifier token = true → token.count '.' ≤ 1

section Kinds

variable {token : Str}

private theorem isNumber_iff_stod : isNumber token = true ↔ ∃ x, stod token = .ok x := by
  unfold isNumber
  cases stod token <;> simp

private theorem leafNode_of_identifier (hidentifier : isIdentifier token = true)
    (hstod : stod token = .error .invalid_argument) :
    leafNode token = .ok (.leaf .IDENTIFIER token) := by
  obtain ⟨hcomparator, hsign, hstring, hasterisk⟩ := Grammar.isIdentifier_other hidentifier
  simp [leafNode, hstod, hcomparator, hsign, hstring, hasterisk, hidentifier]

/-- A token that no number is read from is no number, and an identifier only if it is of
the characters of names. -/
theorem leafNode_of_invalid (hstod : stod token = .error .invalid_argument) :
    ∃ symbol, leafNode token = .ok (.leaf symbol token) ∧ symbol ≠ .NUMBER ∧
      (symbol = .IDENTIFIER ↔ isIdentifier token = true) := by
  by_cases hidentifier : isIdentifier token = true
  · exact ⟨_, leafNode_of_identifier hidentifier hstod, nofun, iff_of_true rfl hidentifier⟩
  · unfold leafNode
    rw [hstod]
    refine ⟨_, rfl, ?_, iff_of_false ?_ hidentifier⟩
    all_goals
      rw [if_neg hidentifier]
      repeat' split
      all_goals exact nofun

/-- A token that is plain is a number, a name, or neither. -/
theorem Plain.cases (h : Plain token) :
    (isNumber token = true ∧ leafNode token = .ok (.leaf .NUMBER token) ∧ IsDecimalLiteral token ∧ ¬ IsName token) ∨
      (isNumber token = false ∧ ¬ IsDecimalLiteral token ∧ ∃ symbol, leafNode token = .ok (.leaf symbol token) ∧
        symbol ≠ .NUMBER ∧ (symbol = .IDENTIFIER ↔ IsName token)) := by
  cases hbegins : beginsNumber token with
  | true =>
    left
    obtain ⟨hliteral, hrange⟩ := h.number hbegins
    have hname : ¬ IsName token := fun hname => not_literal_of_identifier ((isName_iff token).mp hname).1 hliteral
    cases hstod : stod token with
    | ok x =>
      have hleaf : leafNode token = .ok (.leaf .NUMBER token) := by rw [leafNode, hstod]
      exact ⟨isNumber_iff_stod.mpr ⟨x, hstod⟩, hleaf, hliteral, hname⟩
    | error e =>
      cases e with
      | out_of_range => exact absurd hstod hrange
      | invalid_argument =>
        rw [(stod_eq_invalid_argument_iff token).mp hstod] at hbegins
        cases hbegins
  | false =>
    right
    have hstod := (stod_eq_invalid_argument_iff token).mpr hbegins
    obtain ⟨symbol, hleaf, hnumber, hidentifier⟩ := leafNode_of_invalid hstod
    have hliteral : ¬ IsDecimalLiteral token := fun hliteral => by
      rw [beginsNumber_of_literal hliteral] at hbegins
      cases hbegins
    have hname : isIdentifier token = true ↔ IsName token := by
      rw [isName_iff]
      exact ⟨fun hid => ⟨hid, h.dots hid⟩, And.left⟩
    exact ⟨by rw [isNumber, hstod], hliteral, symbol, hleaf, hnumber, hidentifier.trans hname⟩

/-- The brackets begin something else, so nothing is read of them alone. -/
theorem parseExpression_bracket (n : Nat) (h : token = "(".toList ∨ token = "[".toList) :
    ∃ msg, parseExpression (n + 2) [token] = .error (.parseException msg) := by
  obtain rfl | rfl := h
  · exact ⟨_, rfl⟩
  · exact ⟨_, rfl⟩

/-- What the parser makes of a token alone that is plain. -/
theorem Plain.parseExpression (h : Plain token) (n : Nat) :
    (ReadsAs n token .NUMBER ↔ IsDecimalLiteral token) ∧ (ReadsAs n token .IDENTIFIER ↔ IsName token) ∧
      IS.QueryParser.parseExpression (n + 2) [token] ≠ .error .outOfRange := by
  unfold ReadsAs
  by_cases hbracket : token = "(".toList ∨ token = "[".toList
  · have hother : beginsNumber token = false ∧ isIdentifier token = false := by
      obtain rfl | rfl := hbracket <;> decide
    have hliteral : ¬ IsDecimalLiteral token := fun hliteral => by
      rw [beginsNumber_of_literal hliteral] at hother
      cases hother.1
    have hname : ¬ IsName token := fun hname => by
      rw [((isName_iff token).mp hname).1] at hother
      cases hother.2
    obtain ⟨msg, herror⟩ := parseExpression_bracket n hbracket
    rw [herror]
    exact ⟨iff_of_false nofun hliteral, iff_of_false nofun hname, nofun⟩
  · rw [not_or] at hbracket
    rw [parseExpression_alone n hbracket.1 hbracket.2]
    obtain ⟨hnumber, hleaf, hliteral, hname⟩ | ⟨hnumber, hliteral, symbol, hleaf, hsymbol, hidentifier⟩ := h.cases
    · rw [hleaf]
      simp only [parseOperand_alone, hnumber, Bool.true_or, if_true]
      exact ⟨iff_of_true trivial hliteral, iff_of_false nofun hname, nofun⟩
    · rw [hleaf]
      simp only [parseOperand_alone, hnumber, Bool.false_or]
      have hkind : (Except.ok (ParseTreeNode.node .EXPRESSION [.leaf symbol token], ([] : List Str)) :
          Except ParseError _) =
            .ok (.node .EXPRESSION [.leaf .NUMBER token], []) ↔ IsDecimalLiteral token :=
        iff_of_false (fun h => hsymbol (by simpa using h)) hliteral
      have hname : (Except.ok (ParseTreeNode.node .EXPRESSION [.leaf symbol token], ([] : List Str)) :
          Except ParseError _) =
            .ok (.node .EXPRESSION [.leaf .IDENTIFIER token], []) ↔ IsName token := by
        rw [← hidentifier]
        simp
      split
      · exact ⟨hkind, hname, nofun⟩
      split
      · next hsign =>
        have hnot : ¬ IsName token := fun h => by
          rw [(Grammar.isIdentifier_other ((isName_iff token).mp h).1).2.1] at hsign
          exact Bool.false_ne_true hsign
        exact ⟨iff_of_false nofun hliteral, iff_of_false nofun hnot, nofun⟩
      split
      · next hother =>
        have hnot : ¬ IsName token := fun h => by
          rw [((isName_iff token).mp h).1] at hother
          exact Bool.false_ne_true hother
        exact ⟨iff_of_false nofun hliteral, iff_of_false nofun hnot, nofun⟩
      · exact ⟨hkind, hname, nofun⟩

end Kinds

/-- A token is classified as it should be exactly where it is plain: where what begins like a
number is one and in range, and a name has one point at most. -/
theorem classified_iff (token : Str) : Classified token ↔ Plain token := by
  constructor
  · rintro ⟨⟨symbol, hleaf, hnumber, hidentifier⟩, -, -, -⟩
    refine ⟨fun hbegins => ?_, fun hid => ?_⟩
    · have hstod : stod token ≠ .error .out_of_range := fun h => by
        rw [leafNode, h] at hleaf
        cases hleaf
      refine ⟨hnumber.mp ?_, hstod⟩
      cases h : stod token with
      | ok x =>
        rw [leafNode, h] at hleaf
        exact (ParseTreeNode.leaf.inj (Except.ok.inj hleaf)).1.symm
      | error e =>
        cases e with
        | out_of_range => exact absurd h hstod
        | invalid_argument =>
          rw [(stod_eq_invalid_argument_iff token).mp h] at hbegins
          cases hbegins
    · by_cases hsymbol : symbol = .NUMBER
      · exact absurd (hnumber.mp hsymbol) (not_literal_of_identifier hid)
      · have hstod : stod token = .error .invalid_argument := by
          cases h : stod token with
          | ok x =>
            rw [leafNode, h] at hleaf
            exact absurd (ParseTreeNode.leaf.inj (Except.ok.inj hleaf)).1.symm hsymbol
          | error e =>
            cases e with
            | invalid_argument => rfl
            | out_of_range =>
              rw [leafNode, h] at hleaf
              cases hleaf
        have hsame := Except.ok.inj (hleaf.symm.trans (leafNode_of_identifier hid hstod))
        exact ((isName_iff token).mp (hidentifier.mp (ParseTreeNode.leaf.inj hsame).1)).2
  · intro h
    refine ⟨?_, fun n => (h.parseExpression n).1, fun n => (h.parseExpression n).2.1,
      fun n => (h.parseExpression n).2.2⟩
    obtain ⟨-, hleaf, hliteral, hname⟩ | ⟨-, hliteral, symbol, hleaf, hsymbol, hidentifier⟩ := h.cases
    · exact ⟨_, hleaf, iff_of_true rfl hliteral, iff_of_false nofun hname⟩
    · exact ⟨symbol, hleaf, iff_of_false hsymbol hliteral, hidentifier⟩

/-- A name that begins with `inf` is taken for a number. -/
theorem info_not_classified : ¬ ∀ token, Classified token := by
  intro h
  obtain ⟨symbol, hleaf, hnumber, -⟩ := (h "info".toList).leaf
  have hsymbol : leafNode "info".toList = .ok (.leaf .NUMBER "info".toList) := rfl
  rw [hsymbol] at hleaf
  have hliteral : IsDecimalLiteral "info".toList := hnumber.mp (ParseTreeNode.leaf.inj (Except.ok.inj hleaf)).1.symm
  exact not_literal_of_identifier (by decide) hliteral

end IS

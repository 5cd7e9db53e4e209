import Mathlib.Tactic.Cases
import Dm20.Lib.Except
import Dm20.Query.Condition

namespace IS

open StringUtil Condition

namespace ScalarType

def isInteger : ScalarType → Bool
  | .int | .long | .uint | .ulonglong | .uint64 => true
  | _ => false

def isUnsigned : ScalarType → Bool
  | .uint | .ulonglong | .uint64 => true
  | _ => false

/-- The width of an integer type. -/
def bits : ScalarType → Nat
  | .int | .uint => 32
  | _ => 64

/-- The integers a type represents. -/
def Represents (ty : ScalarType) (n : Int) : Prop :=
  if ty.isUnsigned then 0 ≤ n ∧ n < 2 ^ ty.bits
  else -2 ^ (ty.bits - 1) ≤ n ∧ n < 2 ^ (ty.bits - 1)

/-- An operand of the first type becomes unsigned in a comparison with one of the second. -/
def BecomesUnsigned (a b : ScalarType) : Prop :=
  a.isUnsigned = false ∧ b.isUnsigned = true ∧ a.rank < b.rank

instance (a b : ScalarType) : Decidable (BecomesUnsigned a b) := by
  unfold BecomesUnsigned
  infer_instance

/-- A case for each integer type. -/
@[elab_as_elim] theorem integer_cases {motive : (ty : ScalarType) → ty.isInteger = true → Prop}
    (int : motive .int rfl) (long : motive .long rfl) (uint : motive .uint rfl)
    (ulonglong : motive .ulonglong rfl) (uint64 : motive .uint64 rfl)
    (ty : ScalarType) (hty : ty.isInteger = true) : motive ty hty := by
  cases ty with
  | int => exact int
  | long => exact long
  | uint => exact uint
  | ulonglong => exact ulonglong
  | uint64 => exact uint64
  | _ => cases hty

theorem represents_toInt (ty : ScalarType) (hty : ty.isInteger = true) (v : ty.denote) :
    ty.Represents (ty.toInt v) := by
  cases ty, hty using integer_cases with
  | int => exact ⟨Int32.le_toInt v, Int32.toInt_lt v⟩
  | long => exact ⟨Int64.le_toInt v, Int64.toInt_lt v⟩
  | uint => exact ⟨Int.natCast_nonneg _, by have := UInt32.toNat_lt v; simp only [toInt, bits]; omega⟩
  | ulonglong => exact ⟨Int.natCast_nonneg _, by have := UInt64.toNat_lt v; simp only [toInt, bits]; omega⟩
  | uint64 => exact ⟨Int.natCast_nonneg _, by have := UInt64.toNat_lt v; simp only [toInt, bits]; omega⟩

/-- An unsigned value is the integer modulo the width of its type. -/
theorem toInt_ofInt_unsigned (ty : ScalarType) (hty : ty.isUnsigned = true) (n : Int) :
    ty.toInt (ty.ofInt n) = n % 2 ^ ty.bits := by
  cases ty with
  | uint =>
    simp only [toInt, ofInt, bits, UInt32.ofInt, UInt32.toNat_ofNat']
    omega
  | ulonglong =>
    simp only [toInt, ofInt, bits, UInt64.ofInt, UInt64.toNat_ofNat']
    omega
  | uint64 =>
    simp only [toInt, ofInt, bits, UInt64.ofInt, UInt64.toNat_ofNat']
    omega
  | _ => cases hty

/-- A type that represents an integer keeps it. -/
theorem toInt_ofInt (ty : ScalarType) (hty : ty.isInteger = true) {n : Int} (hn : ty.Represents n) :
    ty.toInt (ty.ofInt n) = n := by
  by_cases hunsigned : ty.isUnsigned = true
  · rw [Represents, if_pos hunsigned] at hn
    rw [toInt_ofInt_unsigned ty hunsigned, Int.emod_eq_of_lt hn.1 hn.2]
  · cases ty, hty using integer_cases with
    | int => exact Int32.toInt_ofInt_of_le hn.1 hn.2
    | long => exact Int64.toInt_ofInt_of_le hn.1 hn.2
    | uint => exact absurd rfl hunsigned
    | ulonglong => exact absurd rfl hunsigned
    | uint64 => exact absurd rfl hunsigned

/-- A negative integer in an unsigned type at least as wide as its own. -/
theorem toInt_ofInt_negative (ty : ScalarType) (hty : ty.isUnsigned = true) {n : Int} (hneg : n < 0)
    (hn : -2 ^ ty.bits ≤ n) : ty.toInt (ty.ofInt n) = n + 2 ^ ty.bits := by
  rw [toInt_ofInt_unsigned ty hty, ← Int.add_emod_right, Int.emod_eq_of_lt (by omega) (by omega)]

end ScalarType

namespace Comparator

/-- The relation a comparator stands for. -/
def Holds (c : Comparator) (x y : Int) : Prop :=
  match c with
  | .LE => x ≤ y
  | .GE => y ≤ x
  | .NE => x ≠ y
  | .EQ => x = y
  | .LT => x < y
  | .GT => y < x

instance (c : Comparator) (x y : Int) : Decidable (c.Holds x y) := by
  cases c <;> (simp only [Holds]; infer_instance)

/-- On one integer type the comparison of the language is that of the integers. -/
theorem applyAt_iff_holds (c : Comparator) (ty : ScalarType) (hty : ty.isInteger = true)
    (x y : ty.denote) : c.applyAt ty x y = true ↔ c.Holds (ty.toInt x) (ty.toInt y) := by
  cases ty, hty using ScalarType.integer_cases with
  | int =>
    cases c <;> simp [applyAt, compareBy, Holds, ScalarType.toInt, Int32.le_iff_toInt_le,
      Int32.lt_iff_toInt_lt, Int32.toInt_inj]
  | long =>
    cases c <;> simp [applyAt, compareBy, Holds, ScalarType.toInt, Int64.le_iff_toInt_le,
      Int64.lt_iff_toInt_lt, Int64.toInt_inj]
  | uint =>
    cases c <;> simp [applyAt, compareBy, Holds, ScalarType.toInt, UInt32.le_iff_toNat_le,
      UInt32.lt_iff_toNat_lt, UInt32.toNat_inj]
  | ulonglong =>
    cases c <;> simp [applyAt, compareBy, Holds, ScalarType.toInt, UInt64.le_iff_toNat_le,
      UInt64.lt_iff_toNat_lt, UInt64.toNat_inj]
  | uint64 =>
    cases c <;> simp [applyAt, compareBy, Holds, ScalarType.toInt, UInt64.le_iff_toNat_le,
      UInt64.lt_iff_toNat_lt, UInt64.toNat_inj]

/-- The integer an operand becomes in a comparison with a value of another type. -/
def converted (a b : ScalarType) (x : Int) : Int :=
  if x < 0 ∧ a.BecomesUnsigned b then x + 2 ^ b.bits else x

/-- The conversion to a higher type does to a number what `converted` says. -/
private theorem toInt_ofInt_of_rank_lt {a b : ScalarType} (ha : a.isInteger = true) (hb : b.isInteger = true)
    (hrank : a.rank < b.rank) {n : Int} (hn : a.Represents n) :
    b.toInt (b.ofInt n) = converted a b n := by
  unfold converted
  split
  · rename_i hneg
    refine ScalarType.toInt_ofInt_negative b hneg.2.2.1 hneg.1 ?_
    cases a <;> cases b <;> simp_all [ScalarType.Represents, ScalarType.isUnsigned, ScalarType.bits,
      ScalarType.isInteger, ScalarType.rank] <;> omega
  · rename_i hpos
    refine ScalarType.toInt_ofInt b hb ?_
    cases a <;> cases b <;> simp_all [ScalarType.Represents, ScalarType.isUnsigned, ScalarType.bits,
      ScalarType.isInteger, ScalarType.rank, ScalarType.BecomesUnsigned] <;> omega

private theorem applyNumbers_integers (c : Comparator) {a b : ScalarType} (ha : a.isInteger = true)
    (hb : b.isInteger = true) (x : a.denote) (y : b.denote) :
    c.applyNumbers a x b y =
      if a.rank < b.rank then c.applyAt b (b.ofInt (a.toInt x)) (b.ofInt (b.toInt y))
      else c.applyAt a (a.ofInt (a.toInt x)) (a.ofInt (b.toInt y)) := by
  cases a, ha using ScalarType.integer_cases <;> cases b, hb using ScalarType.integer_cases <;> rfl

/-- The comparison of two integers is that of what they are converted to. -/
theorem applyNumbers_iff_holds (c : Comparator) {a b : ScalarType} (ha : a.isInteger = true)
    (hb : b.isInteger = true) (x : a.denote) (y : b.denote) :
    c.applyNumbers a x b y = true ↔
      c.Holds (converted a b (a.toInt x)) (converted b a (b.toInt y)) := by
  have hx := a.represents_toInt ha x
  have hy := b.represents_toInt hb y
  rw [applyNumbers_integers c ha hb]
  by_cases hlt : a.rank < b.rank
  · have hright : converted b a (b.toInt y) = b.toInt y :=
      if_neg fun h => absurd h.2.2.2 (by omega)
    rw [if_pos hlt, applyAt_iff_holds c b hb, toInt_ofInt_of_rank_lt ha hb hlt hx,
      ScalarType.toInt_ofInt b hb hy, hright]
  · have hleft : converted a b (a.toInt x) = a.toInt x := if_neg fun h => hlt h.2.2.2
    rw [if_neg hlt, applyAt_iff_holds c a ha, ScalarType.toInt_ofInt a ha hx, hleft]
    by_cases hgt : b.rank < a.rank
    · rw [toInt_ofInt_of_rank_lt hb ha hgt hy]
    · have hsame : a = b := by
        cases a, ha using ScalarType.integer_cases <;> cases b, hb using ScalarType.integer_cases <;>
          first | rfl | simp [ScalarType.rank] at hlt hgt
      subst hsame
      have hright : converted a a (a.toInt y) = a.toInt y := if_neg fun h => hlt h.2.2.2
      rw [ScalarType.toInt_ofInt a ha hy, hright]

private theorem matchScalar_integers (c : Comparator) {a b : ScalarType} (ha : a.isInteger = true)
    (hb : b.isInteger = true) (x : a.denote) (y : b.denote) :
    (c.matchScalar a x b y).toOption =
      if a = .uint64 ∧ b = .uint64 then none
      else if c = .NE ∧ a = .int ∧ b.isUnsigned = true then some (Comparator.applyNumbers .GE a x b y)
      else some (c.applyNumbers a x b y) := by
  cases a, ha using ScalarType.integer_cases <;> cases b, hb using ScalarType.integer_cases <;>
    by_cases hc : c = .NE <;> simp [matchScalar, ScalarType.isUnsigned, Except.toOption, hc]

/-- When the comparison of two typed integers tells their relation. It is refused
for two `uint64_t` values. Not equal of an `int` and an unsigned value is tested
by `>=`, and a negative operand that becomes unsigned is compared as the sum of
its value and the size of the unsigned type. -/
def Faithful (c : Comparator) (a : ScalarType) (x : Int) (b : ScalarType) (y : Int) : Prop :=
  if a = .uint64 ∧ b = .uint64 then ¬ c.Holds x y
  else if c = .NE ∧ a = .int ∧ b.isUnsigned = true then
    if 0 ≤ x then y < x else y ≤ x + 2 ^ b.bits
  else if x < 0 ∧ a.BecomesUnsigned b then
    match c with
    | .EQ | .NE => x + 2 ^ b.bits ≠ y
    | .LT | .GE => x + 2 ^ b.bits < y
    | .LE | .GT => x + 2 ^ b.bits ≤ y
  else if y < 0 ∧ b.BecomesUnsigned a then
    match c with
    | .EQ | .NE => y + 2 ^ a.bits ≠ x
    | .GT | .LE => y + 2 ^ a.bits < x
    | .GE | .LT => y + 2 ^ a.bits ≤ x
  else True

/-- A comparison of two integer types is right just if the promotions keep both numbers. -/
theorem matchScalar_iff_faithful (c : Comparator) {a b : ScalarType} (ha : a.isInteger = true)
    (hb : b.isInteger = true) (x : a.denote) (y : b.denote) :
    ((c.matchScalar a x b y).toOption.getD false = true ↔ c.Holds (a.toInt x) (b.toInt y)) ↔
      c.Faithful a (a.toInt x) b (b.toInt y) := by
  have hx := a.represents_toInt ha x
  have hy := b.represents_toInt hb y
  rw [matchScalar_integers c ha hb]
  unfold Faithful
  by_cases hrefused : a = .uint64 ∧ b = .uint64
  · simp [if_pos hrefused]
  simp only [if_neg hrefused]
  by_cases hne : c = .NE ∧ a = .int ∧ b.isUnsigned = true
  · obtain ⟨rfl, rfl, hunsigned⟩ := hne
    have hnonneg : 0 ≤ b.toInt y := by
      rw [ScalarType.Represents, if_pos hunsigned] at hy
      exact hy.1
    have hbecomes : ScalarType.int.BecomesUnsigned b := by
      cases b, hb using ScalarType.integer_cases <;> first | cases hunsigned; done | decide
    have hright : converted b .int (b.toInt y) = b.toInt y := if_neg fun h => by omega
    rw [if_pos ⟨rfl, rfl, hunsigned⟩, if_pos ⟨rfl, rfl, hunsigned⟩, Option.getD_some,
      applyNumbers_iff_holds .GE ha hb, hright]
    by_cases hx0 : 0 ≤ ScalarType.int.toInt x
    · rw [if_pos hx0, converted, if_neg fun h => by omega]
      simp only [Holds]
      omega
    · rw [if_neg hx0, converted, if_pos ⟨by omega, hbecomes⟩]
      simp only [Holds]
      omega
  simp only [if_neg hne, Option.getD_some, applyNumbers_iff_holds c ha hb]
  by_cases hleft : a.toInt x < 0 ∧ a.BecomesUnsigned b
  · rw [ScalarType.Represents, if_pos hleft.2.2.1] at hy
    have hright : converted b a (b.toInt y) = b.toInt y := if_neg fun h => by omega
    rw [if_pos hleft, converted, if_pos hleft, hright]
    cases c <;> simp only [Holds] <;> omega
  · rw [if_neg hleft, converted, if_neg hleft]
    by_cases hright : b.toInt y < 0 ∧ b.BecomesUnsigned a
    · rw [ScalarType.Represents, if_pos hright.2.2.1] at hx
      rw [if_pos hright, converted, if_pos hright]
      cases c <;> simp only [Holds] <;> omega
    · rw [if_neg hright, converted, if_neg hright]
      simp

end Comparator

/-- An integer literal of a query text: digits, perhaps behind a minus sign. -/
structure IntLiteral where
  negative : Bool
  digits : Str
  nonempty : digits ≠ []
  isDigits : ∀ c ∈ digits, c.isDigit = true

namespace IntLiteral

def text (l : IntLiteral) : Str :=
  (if l.negative then ['-'] else []) ++ l.digits

def toInt (l : IntLiteral) : Int :=
  if l.negative then -(digitsValue l.digits : Int) else digitsValue l.digits

/-- The type the literal is read at; none when its value is out of range. -/
def type? (l : IntLiteral) : Option ScalarType :=
  if l.negative then if -2 ^ 63 ≤ l.toInt then some .long else none
  else if l.toInt < 2 ^ 64 then some .ulonglong else none

private theorem not_mem_text (l : IntLiteral) {c : Char} (hdigit : c.isDigit = false) (hminus : c ≠ '-') :
    c ∉ l.text := by
  intro hmem
  rcases List.mem_append.mp hmem with hsign | hdigits
  · cases l.negative <;> simp_all
  · simp [l.isDigits c hdigits] at hdigit

/-- The text of an integer literal is a number of the tokenizer. -/
theorem isNumber_text (l : IntLiteral) : isNumber l.text = true := by
  obtain ⟨d, ds, hds⟩ := List.exists_cons_of_ne_nil l.nonempty
  have hd : d.isDigit = true := l.isDigits d (by simp [hds])
  have htail : ∀ c ∈ ds, c.isDigit = true := fun c hc => l.isDigits c (by simp [hds, hc])
  have hdrop : ds.dropWhile Char.isDigit = [] := List.dropWhile_eq_nil_iff.mpr htail
  have hminus : d ≠ '-' := by
    rintro rfl
    cases hd
  unfold isNumber text
  rw [hds]
  cases l.negative with
  | true => simp [hd, hdrop]
  | false => simp [hd, hdrop, hminus]

/-- A literal has a type that represents its number. -/
private theorem represents_of_type? {l : IntLiteral} {ty : ScalarType} (h : l.type? = some ty) :
    ty.isInteger = true ∧ ty.Represents l.toInt := by
  unfold type? at h
  cases hsign : l.negative with
  | true =>
    obtain ⟨hrange, rfl⟩ : -2 ^ 63 ≤ l.toInt ∧ .long = ty := by simpa [hsign] using h
    have hle : l.toInt ≤ 0 := by simp [toInt, hsign]
    exact ⟨rfl, hrange, by simp only [ScalarType.bits]; omega⟩
  | false =>
    obtain ⟨hrange, rfl⟩ : l.toInt < 2 ^ 64 ∧ .ulonglong = ty := by simpa [hsign] using h
    have hle : 0 ≤ l.toInt := by simp [toInt, hsign]
    exact ⟨rfl, hle, hrange⟩

/-- A literal has its value at its type, and none when it is out of range. -/
theorem numberLiteral_text (l : IntLiteral) :
    numberLiteral l.text =
      match l.type? with
      | some ty => .scalar ty (ty.ofInt l.toInt)
      | none => .void := by
  have hpoint : contain l.text ".".toList = false := by
    rw [Bool.eq_false_iff]
    exact fun h => l.not_mem_text rfl (by decide) (Text.occurs_singleton.mp h)
  have hne : l.text ≠ [] := List.append_ne_nil_of_right_ne_nil _ l.nonempty
  have hvalue : strtol l.text = some l.toInt := strtol_digits l.negative l.nonempty l.isDigits
  unfold numberLiteral type?
  rw [hpoint]
  cases hsign : l.negative with
  | true =>
    have hminus : contain l.text "-".toList = true := by
      refine Text.occurs_singleton.mpr ?_
      simp only [text, hsign, if_true]
      exact List.mem_cons_self
    have hle : l.toInt ≤ 0 := by simp [toInt, hsign]
    have hlong : getAnyValFromString l.text "long".toList =
        ((scalarFromString l.text .LONG).toOption).getD .void := getAnyValFromString_scalar hne rfl
    simp only [hminus, Bool.false_eq_true, if_false, if_true]
    rw [hlong, scalarFromString, Except.toOption_map, stol_of_strtol hvalue]
    by_cases hrange : -2 ^ 63 ≤ l.toInt
    · rw [if_pos ⟨hrange, by omega⟩]
      simp only [if_pos hrange]
      rfl
    · rw [if_neg fun h => hrange h.1]
      simp only [if_neg hrange]
      rfl
  | false =>
    have hminus : contain l.text "-".toList = false := by
      rw [Bool.eq_false_iff]
      intro h
      have htext : '-' ∈ l.text := Text.occurs_singleton.mp h
      have hmem : '-' ∈ l.digits := by simpa [text, hsign] using htext
      cases l.isDigits '-' hmem
    have hle : 0 ≤ l.toInt := by simp [toInt, hsign]
    have hulong : getAnyValFromString l.text "ulong".toList =
        ((scalarFromString l.text .ULONG).toOption).getD .void := getAnyValFromString_scalar hne rfl
    simp only [hminus, Bool.false_eq_true, if_false]
    rw [hulong, scalarFromString, Except.toOption_map, stoull_of_strtol hvalue]
    by_cases hrange : l.toInt < 2 ^ 64
    · rw [if_pos (by omega)]
      simp only [if_pos hrange]
      rfl
    · rw [if_neg (by omega)]
      simp only [if_neg hrange]
      rfl

end IntLiteral

/-- An operand of an integer comparison: a column value or a literal. -/
inductive IntOperand where
  | column (ty : ScalarType) (hty : ty.isInteger = true) (v : ty.denote)
  | literal (l : IntLiteral)

namespace IntOperand

def value : IntOperand → Any
  | column ty _ v => .scalar ty v
  | literal l => numberLiteral l.text

def toInt : IntOperand → Int
  | column ty _ v => ty.toInt v
  | literal l => l.toInt

def type? : IntOperand → Option ScalarType
  | column ty _ _ => some ty
  | literal l => l.type?

/-- An operand has the value of its number in its type. -/
private theorem value_of_type? {o : IntOperand} {ty : ScalarType} (h : o.type? = some ty) :
    ty.isInteger = true ∧ ∃ v : ty.denote, o.value = .scalar ty v ∧ ty.toInt v = o.toInt := by
  cases o with
  | column ty' hty v =>
    obtain rfl : ty' = ty := by simpa [type?] using h
    exact ⟨hty, v, rfl, rfl⟩
  | literal l =>
    obtain ⟨hty, hrange⟩ := IntLiteral.represents_of_type? h
    have hvalue : numberLiteral l.text = .scalar ty (ty.ofInt l.toInt) := by
      rw [l.numberLiteral_text, show l.type? = some ty from h]
    exact ⟨hty, ty.ofInt l.toInt, hvalue, ScalarType.toInt_ofInt ty hty hrange⟩

private theorem value_of_not_type? {o : IntOperand} (h : o.type? = none) : o.value = .void := by
  cases o with
  | column ty hty v => cases h
  | literal l =>
    simp only [value, l.numberLiteral_text, show l.type? = none from h]

/-- When the comparison of two operands tells their relation. A literal out of
the range of its type is in no relation to anything. -/
def Faithful (c : Comparator) (left right : IntOperand) : Prop :=
  match left.type?, right.type? with
  | some a, some b => c.Faithful a left.toInt b right.toInt
  | _, _ => ¬ c.Holds left.toInt right.toInt

end IntOperand

/-- The comparison of two integers tells the relation of the integers exactly
where it is faithful. -/
theorem Condition.isMatchCondition_iff_faithful (cond : Condition) (c : Comparator)
    (left right : IntOperand) :
    ({ cond with cond := some c }.isMatchCondition2 left.value right.value = true ↔
        c.Holds left.toInt right.toInt) ↔
      IntOperand.Faithful c left right := by
  simp only [isMatchCondition2]
  unfold IntOperand.Faithful
  cases hleft : left.type? with
  | none => simp [IntOperand.value_of_not_type? hleft, Comparator.matchAny, Except.toOption]
  | some a =>
    obtain ⟨ha, x, hx, hleftInt⟩ := IntOperand.value_of_type? hleft
    cases hright : right.type? with
    | none => simp [IntOperand.value_of_not_type? hright, hx, Comparator.matchAny, Except.toOption]
    | some b =>
      obtain ⟨hb, y, hy, hrightInt⟩ := IntOperand.value_of_type? hright
      rw [hx, hy, ← hleftInt, ← hrightInt]
      exact c.matchScalar_iff_faithful ha hb x y

/-- The column value -1 against the literal 5: the comparison takes the column
for `2 ^ 64 - 1`. -/
theorem Condition.negativeColumn_not_less :
    ¬ ∀ (cond : Condition) (c : Comparator) (left right : IntOperand),
      { cond with cond := some c }.isMatchCondition2 left.value right.value = true ↔
        c.Holds left.toInt right.toInt := by
  intro h
  let five : IntLiteral := { negative := false, digits := ['5'], nonempty := by simp, isDigits := by simp }
  have hless := h {} .LT (.column .int rfl (-1)) (.literal five)
  revert hless
  decide

end IS

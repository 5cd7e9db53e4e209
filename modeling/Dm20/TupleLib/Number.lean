import Mathlib.Data.List.TakeWhile
import Dm20.TupleLib.Any

namespace IS

/-- The white space of the C locale. -/
def isSpace (c : Char) : Bool :=
  decide (c = ' ') || (decide (9 ≤ c.toNat) && decide (c.toNat ≤ 13))

/-- The number a run of decimal digits denotes. -/
def digitsValue (digits : Str) : Nat :=
  digits.foldl (fun n d => 10 * n + (d.toNat - '0'.toNat)) 0

/-- A sign at the front of a text, and the text behind it. -/
def readSign : Str → Bool × Str
  | '-' :: s => (true, s)
  | '+' :: s => (false, s)
  | s => (false, s)

/-- `strtol` in base ten, without its range: blanks, a sign, digits. What
follows the digits is not looked at. -/
def strtol (s : Str) : Option Int :=
  let (negative, rest) := readSign (s.dropWhile isSpace)
  match rest.takeWhile Char.isDigit with
  | [] => none
  | digits => some (if negative then -(digitsValue digits : Int) else digitsValue digits)

/-- The digits have the codes from 48 to 57. -/
theorem isDigit_toNat {c : Char} (hc : c.isDigit = true) : 48 ≤ c.toNat ∧ c.toNat ≤ 57 := by
  simp only [Char.isDigit, Bool.and_eq_true, decide_eq_true_eq, UInt32.le_iff_toNat_le] at hc
  exact hc

/-- A letter is one of the two ranges of the character set. -/
theorem isAlpha_toNat {c : Char} (hc : c.isAlpha = true) :
    65 ≤ c.toNat ∧ c.toNat ≤ 90 ∨ 97 ≤ c.toNat ∧ c.toNat ≤ 122 := by
  have hranges : (decide (c.val ≥ 'A'.val ∧ c.val ≤ 'Z'.val) ||
      decide (c.val ≥ 'a'.val) && decide (c.val ≤ 'z'.val)) = true :=
    hc
  simp only [Bool.or_eq_true, Bool.and_eq_true, decide_eq_true_eq, ge_iff_le, UInt32.le_iff_toNat_le] at hranges
  exact hranges

/-- A digit is no blank. -/
theorem isSpace_of_isDigit {c : Char} (hc : c.isDigit = true) : isSpace c = false := by
  have hrange := isDigit_toNat hc
  have hblank : c ≠ ' ' := by
    rintro rfl
    cases hc
  have hlarge : ¬ c.toNat ≤ 13 := by omega
  simp [isSpace, hblank, hlarge]

/-- A text that begins with a digit has no sign. -/
theorem readSign_of_isDigit {c : Char} (hc : c.isDigit = true) (s : Str) :
    readSign (c :: s) = (false, c :: s) := by
  unfold readSign
  split
  · rename_i heq
    cases heq
    cases hc
  · rename_i heq
    cases heq
    cases hc
  · rfl

/-- The integer of a decimal text without blanks and with at most a minus sign. -/
theorem strtol_digits (negative : Bool) {digits : Str} (hne : digits ≠ [])
    (hdigits : ∀ c ∈ digits, c.isDigit = true) :
    strtol ((if negative then ['-'] else []) ++ digits) =
      some (if negative then -(digitsValue digits : Int) else digitsValue digits) := by
  have htake : digits.takeWhile Char.isDigit = digits := List.takeWhile_eq_self_iff.mpr hdigits
  have hsign : readSign (((if negative then ['-'] else []) ++ digits).dropWhile isSpace) =
      (negative, digits) := by
    cases negative with
    | true => rfl
    | false =>
      cases digits with
      | nil => exact absurd rfl hne
      | cons d ds =>
        have hd : d.isDigit = true := hdigits d (by simp)
        simp [isSpace_of_isDigit hd, readSign_of_isDigit hd]
  unfold strtol
  rw [hsign]
  simp only [htake]

/-- The digits of a number have its value. -/
theorem digitsValue_to_string_nat (n : Nat) : digitsValue (to_string_nat n) = n :=
  Nat.ofDigitChars_ten_toDigits

/-- Different numbers have different texts. -/
theorem to_string_nat_injective : Function.Injective to_string_nat := by
  intro n m h
  rw [← digitsValue_to_string_nat n, h, digitsValue_to_string_nat]

/-- The text of a natural number consists of digits. -/
theorem isDigit_of_mem_to_string_nat {n : Nat} {c : Char} (h : c ∈ to_string_nat n) : c.isDigit = true :=
  Nat.isDigit_of_mem_toDigits (by decide) (by decide) h

/-- The text of a number has a digit at least. -/
theorem to_string_nat_ne_nil (n : Nat) : to_string_nat n ≠ [] := by
  intro h
  have hvalue : ∀ m, to_string_nat m = [] → m = 0 := fun m hm => by
    rw [← digitsValue_to_string_nat m, hm]
    rfl
  obtain rfl := hvalue n h
  cases h

/-- The text of an integer is read as this integer. -/
theorem strtol_to_string_int (n : Int) : strtol (to_string_int n) = some n := by
  have htext : to_string_int n = (if decide (n < 0) then ['-'] else []) ++ to_string_nat n.natAbs := by
    rw [to_string_int]
    by_cases hn : n < 0
    · rw [if_pos hn, if_pos (decide_eq_true hn)]
      rfl
    · rw [if_neg hn, decide_eq_false hn]
      rfl
  rw [htext, strtol_digits _ (to_string_nat_ne_nil _) fun c hc => isDigit_of_mem_to_string_nat hc,
    digitsValue_to_string_nat]
  by_cases hn : n < 0
  · simp only [hn, decide_true, if_true]
    congr 1
    omega
  · simp only [hn, decide_false, Bool.false_eq_true, if_false]
    congr 1
    omega

/-- Different integers have different texts, since the sign is one of them. -/
theorem to_string_int_injective : Function.Injective to_string_int := by
  intro n m h
  exact Option.some.inj ((strtol_to_string_int n).symm.trans ((congrArg strtol h).trans (strtol_to_string_int m)))

/-- A number is below the power of ten that its digits count. -/
private theorem digitsValue_lt {digits : Str} (hdigits : ∀ c ∈ digits, c.isDigit = true) :
    digitsValue digits < 10 ^ digits.length := by
  have hfold : ∀ (ds : Str) (n : Nat), (∀ c ∈ ds, c.isDigit = true) →
      ds.foldl (fun n d => 10 * n + (d.toNat - '0'.toNat)) n < (n + 1) * 10 ^ ds.length := by
    intro ds
    induction ds with
    | nil => exact fun n _ => by simp
    | cons d ds ih =>
      intro n hds
      have hd := isDigit_toNat (hds d List.mem_cons_self)
      have hrest := ih (10 * n + (d.toNat - '0'.toNat)) fun c hc => hds c (List.mem_cons_of_mem d hc)
      have hle : 10 * n + (d.toNat - '0'.toNat) + 1 ≤ (n + 1) * 10 := by
        rw [show '0'.toNat = 48 from rfl]
        omega
      rw [List.foldl_cons, List.length_cons, Nat.pow_succ', ← Nat.mul_assoc]
      exact hrest.trans_le (Nat.mul_le_mul_right _ hle)
  have hlt := hfold digits 0 hdigits
  rwa [Nat.zero_add, Nat.one_mul] at hlt

private theorem length_readSign_le (s : Str) : (readSign s).2.length ≤ s.length := by
  unfold readSign
  split
  · exact Nat.le_succ _
  · exact Nat.le_succ _
  · exact le_refl _

/-- A short text is not read as a large number. -/
theorem strtol_lt {s : Str} {n : Int} (h : strtol s = some n) : n < 10 ^ s.length := by
  rcases hsign : readSign (s.dropWhile isSpace) with ⟨negative, rest⟩
  have hrest := length_readSign_le (s.dropWhile isSpace)
  rw [hsign] at hrest
  have hspace := (List.dropWhile_sublist (l := s) isSpace).length_le
  have htake := (List.takeWhile_sublist (l := rest) Char.isDigit).length_le
  have hvalue : digitsValue (rest.takeWhile Char.isDigit) < 10 ^ (rest.takeWhile Char.isDigit).length :=
    digitsValue_lt fun c hc => List.mem_takeWhile_imp hc
  have hpow := Nat.pow_le_pow_right (n := 10) (by decide) (htake.trans (hrest.trans hspace))
  have hlt : (digitsValue (rest.takeWhile Char.isDigit) : Int) < 10 ^ s.length := by
    exact_mod_cast hvalue.trans_le hpow
  simp only [strtol, hsign] at h
  split at h
  · cases h
  · obtain rfl := Option.some.inj h
    split
    · omega
    · exact hlt

/-- The exceptions of the conversions of the standard library. -/
inductive ConversionError where
  | invalid_argument
  | out_of_range
deriving DecidableEq, Repr

/-- `std::stol`: `invalid_argument` without digits, `out_of_range` beyond 64 bits. -/
def stol (s : Str) : Except ConversionError Int64 :=
  match strtol s with
  | none => .error .invalid_argument
  | some n => if -2 ^ 63 ≤ n ∧ n < 2 ^ 63 then .ok (Int64.ofInt n) else .error .out_of_range

/-- A number that was read is a `long` just if it fits 64 bits. -/
theorem stol_of_strtol {s : Str} {n : Int} (h : strtol s = some n) :
    (stol s).toOption = if -2 ^ 63 ≤ n ∧ n < 2 ^ 63 then some (Int64.ofInt n) else none := by
  unfold stol
  rw [h]
  simp only
  split <;> rfl

/-- `std::stoi`. -/
def stoi (s : Str) : Except ConversionError Int32 :=
  match strtol s with
  | none => .error .invalid_argument
  | some n => if -2 ^ 31 ≤ n ∧ n < 2 ^ 31 then .ok (Int32.ofInt n) else .error .out_of_range

/-- A natural number has the same text as an integer. -/
theorem to_string_nat_eq_int (n : Nat) : to_string_nat n = to_string_int n := by
  rw [to_string_int, if_neg (by omega), Int.natAbs_natCast]

/-- An `int` is read back from its text. -/
theorem stoi_to_string_int {n : Int} (h : -2 ^ 31 ≤ n ∧ n < 2 ^ 31) : stoi (to_string_int n) = .ok (Int32.ofInt n) := by
  rw [stoi, strtol_to_string_int]
  exact if_pos h

/-- `std::stoul` and `std::stoull`, both of 64 bits: the range is that of the
magnitude, and a minus sign negates the unsigned value. -/
def stoull (s : Str) : Except ConversionError UInt64 :=
  match strtol s with
  | none => .error .invalid_argument
  | some n => if n.natAbs < 2 ^ 64 then .ok (UInt64.ofInt n) else .error .out_of_range

/-- A number that was read is an `unsigned long long` just if its absolute value fits 64 bits; a
negative one is taken modulo 2⁶⁴. -/
theorem stoull_of_strtol {s : Str} {n : Int} (h : strtol s = some n) :
    (stoull s).toOption = if n.natAbs < 2 ^ 64 then some (UInt64.ofInt n) else none := by
  unfold stoull
  rw [h]
  simp only
  split <;> rfl

/-- Decimal digits are read as their number, which 64 bits hold. -/
theorem stoull_digits {digits : Str} {v : UInt64} (hne : digits ≠ []) (hdigits : ∀ c ∈ digits, c.isDigit = true)
    (hvalue : digitsValue digits = v.toNat) : stoull digits = .ok v := by
  have hread := strtol_digits false hne hdigits
  rw [stoull, show strtol digits = some (v.toNat : Int) by rw [← hvalue]; exact hread]
  have hrange : (v.toNat : Int).natAbs < 2 ^ 64 := v.toNat_lt
  have hv : UInt64.ofInt (v.toNat : Int) = v := by
    rw [UInt64.ofInt, Int.emod_eq_of_lt (Int.natCast_nonneg _) (by omega), Int.toNat_natCast, UInt64.ofNat_toNat]
  simp only [if_pos hrange, hv]

/-- An `unsigned long long` is read back from its text. -/
theorem stoull_to_string_nat (v : UInt64) : stoull (to_string_nat v.toNat) = .ok v :=
  stoull_digits (to_string_nat_ne_nil _) (fun _ hc => isDigit_of_mem_to_string_nat hc) (digitsValue_to_string_nat _)

/-- The double nearest to a ratio, as its exponent above the least one and its
significand; the exponent is the least where the significand has 53 bits. -/
def nearestDouble (num den : Nat) : Nat × Nat :=
  let scaled (k : Int) : Nat × Nat := (num * 2 ^ (-k).toNat, den * 2 ^ k.toNat)
  let k := max (-1074) ((num.log2 : Int) - den.log2 - 52)
  let k := if (scaled k).1 < 2 ^ 52 * (scaled k).2 then max (-1074) (k - 1) else k
  ((k + 1074).toNat, roundHalfEven (scaled k).1 (scaled k).2)

/-- The double with the given sign and magnitude, if it is finite. -/
def doubleOfRatio (negative : Bool) (num den : Nat) : Option Float :=
  let (e, m) := nearestDouble num den
  let bits := if num = 0 then 0 else e * 2 ^ 52 + m
  if bits < 2047 * 2 ^ 52 then
    some (Float.ofBits (UInt64.ofNat (bits + if negative then 2 ^ 63 else 0)))
  else none

/-- The conversion of an integer of at most 64 bits to a double. -/
def doubleOfInt (n : Int) : Float :=
  (doubleOfRatio (decide (n < 0)) n.natAbs 1).getD 0

def hexDigitValue (c : Char) : Option Nat :=
  if c.isDigit then some (c.toNat - '0'.toNat)
  else if 'a' ≤ c ∧ c ≤ 'f' then some (c.toNat - 'a'.toNat + 10)
  else if 'A' ≤ c ∧ c ≤ 'F' then some (c.toNat - 'A'.toNat + 10)
  else none

/-- The mantissa at the front of a text: its digits without the point, the
number of digits behind the point, and the rest of the text. -/
def readMantissa (digit : Char → Option Nat) (s : Str) : List Nat × Nat × Str :=
  let isDigit c := (digit c).isSome
  let whole := s.takeWhile isDigit
  match s.dropWhile isDigit with
  | '.' :: rest =>
    let fraction := rest.takeWhile isDigit
    ((whole ++ fraction).filterMap digit, fraction.length, rest.dropWhile isDigit)
  | rest => (whole.filterMap digit, 0, rest)

/-- The exponent at the front of a text, zero where there is none. -/
def readExponent (mark : Char) (s : Str) : Int :=
  match s with
  | c :: rest =>
    if c.toLower = mark then
      let (negative, rest) := readSign rest
      let e := (digitsValue (rest.takeWhile Char.isDigit) : Int)
      if negative then -e else e
    else 0
  | [] => 0

/-- The magnitude of the number at the front of a text, as a ratio. -/
def readMagnitude (s : Str) : Option (Nat × Nat) :=
  let ratio (radix : Nat) (ds : List Nat) (base : Nat) (e : Int) : Nat × Nat :=
    (ds.foldl (fun n d => radix * n + d) 0 * base ^ e.toNat, base ^ (-e).toNat)
  let decimal :=
    match readMantissa (fun c => if c.isDigit then some (c.toNat - '0'.toNat) else none) s with
    | ([], _) => none
    | (ds, places, rest) => some (ratio 10 ds 10 (readExponent 'e' rest - places))
  match s with
  | '0' :: x :: hex =>
    if x.toLower = 'x' then
      match readMantissa hexDigitValue hex with
      | ([], _) => decimal
      | (ds, places, rest) => some (ratio 16 ds 2 (readExponent 'p' rest - 4 * places))
    else decimal
  | _ => decimal

/-- `std::stod`: a decimal or hexadecimal number, an infinity or a NaN behind
blanks and a sign. A number too large, or too small to be represented without
loss, is out of range. -/
def stod (s : Str) : Except ConversionError Float :=
  let (negative, rest) := readSign (s.dropWhile isSpace)
  let signed (x : Float) : Float := if negative then -x else x
  let word := (rest.take 3).map Char.toLower
  if word = "inf".toList then .ok (signed (Float.ofBits 0x7FF0000000000000))
  else if word = "nan".toList then .ok (signed (Float.ofBits 0x7FF8000000000000))
  else
    match readMagnitude rest with
    | none => .error .invalid_argument
    | some (num, den) =>
      let tiny := num * 2 ^ 1022 < den ∧ num * 2 ^ 1074 % den ≠ 0
      if tiny then .error .out_of_range
      else
        match doubleOfRatio negative num den with
        | none => .error .out_of_range
        | some x => .ok x

end IS

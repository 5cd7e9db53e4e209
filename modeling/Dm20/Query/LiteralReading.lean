import Dm20.Query.ColumnPredicate

namespace IS

open StringUtil

/-- The number type a declared type of the table of types stands for. -/
def StringUtil.DataType.numeric : DataType → Option ScalarType
  | .LONG => some .long
  | .DOUBLE => some .double
  | .INT => some .int
  | .ULONG => some .ulonglong
  | .UINT => some .uint
  | _ => none

/-- The numeric types are the integers and the floating point numbers. -/
theorem isInteger_of_numeric {dataType : DataType} {ty : ScalarType} (h : dataType.numeric = some ty)
    (hdouble : ty ≠ .double) : ty.isInteger = true := by
  cases dataType <;> cases h <;> first | rfl | exact absurd rfl hdouble

private theorem numericType_eq (type : Str) : numericType type = (typeMap.lookup type).bind DataType.numeric := by
  rw [numericType]
  cases typeMap.lookup type with
  | none => rfl
  | some dataType => cases dataType <;> rfl

section Number

variable {token : Str}

/-- The mark of an exponent is a small or a capital letter. -/
private theorem eq_of_toLower {c : Char} (h : c.toLower = 'e') : c = 'e' ∨ c = 'E' := by
  unfold Char.toLower at h
  split at h
  · next hupper =>
    refine .inr (Char.ext ?_)
    have hcode : c.val + ('a'.val - 'A'.val) = 'e'.val := congrArg Char.val h
    have hsum : c.val.toNat + 32 = 101 := by
      have hlt : c.val.toNat < 2 ^ 32 - 32 := by
        have hle := UInt32.le_iff_toNat_le.mp hupper.2
        have hZ : 'Z'.val.toNat = 90 := rfl
        omega
      have hnat := congrArg UInt32.toNat hcode
      rw [UInt32.toNat_add] at hnat
      have hshift : ('a'.val - 'A'.val).toNat = 32 := rfl
      have he : 'e'.val.toNat = 101 := rfl
      omega
    have hE : 'E'.val.toNat = 69 := rfl
    exact UInt32.toNat_inj.mp (by omega)
  · exact .inl h

/-- The characters of a decimal number. -/
theorem mem_of_isDecimalLiteral (h : IsDecimalLiteral token) {c : Char} (hc : c ∈ token) :
    c.isDigit = true ∨ c ∈ "-+.eE".toList := by
  have hsignPart : ∀ sign, IsSignPart sign → c ∈ sign → c ∈ "-+.eE".toList := by
    rintro sign (rfl | rfl | rfl) hmem
    · cases hmem
    · rw [List.mem_singleton.mp hmem]
      decide
    · rw [List.mem_singleton.mp hmem]
      decide
  obtain ⟨sign, mantissa, exponent, rfl, hsign, hmantissa, hexponent⟩ := h
  obtain ⟨whole, fraction, hwhole, hfraction, hcases⟩ := hmantissa
  simp only [List.mem_append] at hc
  rcases hc with (hc | hc) | hc
  · exact .inr (hsignPart sign hsign hc)
  · rcases hcases with ⟨rfl, -⟩ | ⟨rfl, -⟩
    · exact .inl (hwhole c hc)
    · rcases List.mem_append.mp hc with hc | hc
      · exact .inl (hwhole c hc)
      · rcases List.mem_cons.mp hc with rfl | hc
        · exact .inr (by decide)
        · exact .inl (hfraction c hc)
  · rcases hexponent with rfl | ⟨mark, sign', digits, rfl, hmark, hsign', hdigits, -⟩
    · cases hc
    · rcases List.mem_cons.mp hc with rfl | hc
      · rcases eq_of_toLower hmark with rfl | rfl
        · exact .inr (by decide)
        · exact .inr (by decide)
      · rcases List.mem_append.mp hc with hc | hc
        · exact .inr (hsignPart sign' hsign' hc)
        · exact .inl (hdigits c hc)

/-- A decimal literal has a digit at least. -/
theorem isDecimalLiteral_ne_nil (h : IsDecimalLiteral token) : token ≠ [] := by
  rintro rfl
  obtain ⟨sign, mantissa, exponent, hnil, -, ⟨whole, fraction, -, -, hcases⟩, -⟩ := h
  obtain ⟨hleft, -⟩ := List.append_eq_nil_iff.mp hnil.symm
  obtain ⟨-, rfl⟩ := List.append_eq_nil_iff.mp hleft
  rcases hcases with ⟨rfl, hne⟩ | ⟨heq, -⟩
  · exact hne rfl
  · simp at heq

private theorem not_isSpace_of_isDecimalLiteral (h : IsDecimalLiteral token) {c : Char} (hc : c ∈ token) :
    isSpace c = false := by
  rcases mem_of_isDecimalLiteral h hc with hdigit | hmem
  · exact isSpace_of_isDigit hdigit
  · have hall : "-+.eE".toList.all (fun c => !isSpace c) = true := by decide
    simpa using List.all_eq_true.mp hall c hmem

/-- Behind the sign at its front a number has none. -/
theorem not_sign_of_wellFormed (h : (Literal.number token).WellFormed) :
    ∀ c ∈ (readSign token).2, c ≠ '-' ∧ c ≠ '+' := by
  obtain ⟨-, hsigns, -⟩ := h
  unfold readSign
  split
  · exact hsigns
  · exact hsigns
  · next hminus hplus =>
    cases token with
    | nil => exact nofun
    | cons c rest =>
      intro d hd
      rcases List.mem_cons.mp hd with rfl | hd
      · exact ⟨fun heq => hminus rest (by rw [heq]), fun heq => hplus rest (by rw [heq])⟩
      · exact hsigns d hd

/-- The denominator of a well-formed literal is positive. -/
theorem ratio_den_pos (h : (Literal.number token).WellFormed) {num : Int} {den : Nat} (hratio : IsRatio token num den) :
    0 < den := by
  obtain ⟨m, hmagnitude, -⟩ := hratio
  exact (leading_mul_le (not_sign_of_wellFormed h) hmagnitude).2

/-- What the digits at the front of a number are to the number: not more, and of its sign. -/
theorem strtol_le_ratio (h : (Literal.number token).WellFormed) {n num : Int} {den : Nat}
    (hread : strtol token = some n) (hratio : IsRatio token num den) : 0 < den ∧
      ((0 ≤ n ∧ n * den ≤ num) ∨ (n ≤ 0 ∧ num ≤ n * den)) := by
  have hrest := not_sign_of_wellFormed h
  obtain ⟨hdecimal, -, -⟩ := h
  have hspace : token.dropWhile isSpace = token := by
    rw [List.dropWhile_eq_self_iff]
    intro hpos
    rw [not_isSpace_of_isDecimalLiteral hdecimal (List.getElem_mem hpos)]
    exact Bool.false_ne_true
  obtain ⟨m, hmagnitude, rfl⟩ := hratio
  obtain ⟨hle, hden⟩ := leading_mul_le hrest hmagnitude
  have hvalue : n = if (readSign token).1 then -(leading (readSign token).2 : Int) else leading (readSign token).2 := by
    simp only [strtol, hspace] at hread
    rw [leading]
    split at hread
    · cases hread
    · next digits hdigits =>
      exact (Option.some.inj hread).symm
  refine ⟨hden, ?_⟩
  have hcast : (leading (readSign token).2 : Int) * den ≤ m := by exact_mod_cast hle
  rw [hvalue]
  split
  · refine .inr ⟨by omega, ?_⟩
    rw [Int.neg_mul]
    omega
  · exact .inl ⟨by omega, hcast⟩

/-- An integer value is that of a literal just if their ratio is one. -/
theorem isNumber_integer {ty : ScalarType} (hty : ty.isInteger = true) (x : ty.denote) :
    IsNumber token ty x ↔ ∃ num den, IsRatio token num den ∧ ty.toInt x * den = num := by
  cases ty with
  | double => cases hty
  | _ => rfl

/-- The integers a conversion to a type takes: an unsigned one takes all of 64 bits and
either sign. -/
def Accepts (ty : ScalarType) (n : Int) : Prop :=
  if ty.isUnsigned then n.natAbs < 2 ^ 64 else ty.Represents n

instance (ty : ScalarType) (n : Int) : Decidable (ty.Represents n) := by
  unfold ScalarType.Represents
  infer_instance

instance (ty : ScalarType) (n : Int) : Decidable (Accepts ty n) := by
  unfold Accepts
  infer_instance

private theorem accepts_of_represents {ty : ScalarType} {n : Int} (h : ty.Represents n) : Accepts ty n := by
  unfold Accepts
  split
  · next hunsigned =>
    rw [ScalarType.Represents, if_pos hunsigned] at h
    have hbits : (2 : Int) ^ ty.bits ≤ 2 ^ 64 := by cases ty <;> decide
    omega
  · exact h

/-- A literal for an integer column is read by `strtol` and accepted where it fits the type. -/
private theorem scalarFromString_integer {dataType : DataType} {ty : ScalarType} (h : dataType.numeric = some ty)
    (hdouble : ty ≠ .double) : (scalarFromString token dataType).toOption =
      (strtol token).bind fun n => if Accepts ty n then some (.scalar ty (ty.ofInt n)) else none := by
  have hint : ∀ n : Int, Accepts .int n ↔ -2 ^ 31 ≤ n ∧ n < 2 ^ 31 := fun n => Iff.rfl
  have hlong : ∀ n : Int, Accepts .long n ↔ -2 ^ 63 ≤ n ∧ n < 2 ^ 63 := fun n => Iff.rfl
  have huint : ∀ n : Int, Accepts .uint n ↔ n.natAbs < 2 ^ 64 := fun n => Iff.rfl
  have hulong : ∀ n : Int, Accepts .ulonglong n ↔ n.natAbs < 2 ^ 64 := fun n => Iff.rfl
  have hnarrow : ∀ n : Int, (UInt64.ofInt n).toUInt32 = UInt32.ofInt n := by
    intro n
    refine UInt32.toNat_inj.mp ?_
    rw [UInt64.toNat_toUInt32]
    have hwide := ScalarType.toInt_ofInt_unsigned .ulonglong rfl n
    have hshort := ScalarType.toInt_ofInt_unsigned .uint rfl n
    simp only [ScalarType.toInt, ScalarType.ofInt, ScalarType.bits] at hwide hshort
    omega
  cases hread : strtol token with
  | none => cases dataType <;> cases h <;> simp_all [scalarFromString, stol, stoi, stoull, Except.map, Except.toOption]
  | some n =>
    cases dataType <;> cases h
    · simp only [scalarFromString, stol, hread, Option.bind_some, hlong]
      split <;> rfl
    · exact absurd rfl hdouble
    · simp only [scalarFromString, stoi, hread, Option.bind_some, hint]
      split <;> rfl
    · simp only [scalarFromString, stoull, hread, Option.bind_some, hulong]
      split <;> rfl
    · simp only [scalarFromString, stoull, hread, Option.bind_some, huint, ScalarType.ofInt, ← hnarrow]
      split <;> rfl

/-- An integer that is read from the front of a number is the number in its type exactly
where the type has it. -/
theorem isNumber_ofInt_iff (h : (Literal.number token).WellFormed) {ty : ScalarType} (hty : ty.isInteger = true)
    {n : Int} (hread : strtol token = some n) : Accepts ty n ∧ IsNumber token ty (ty.ofInt n) ↔
      ∃ num den, IsRatio token num den ∧ n * den = num ∧ ty.Represents n := by
  constructor
  · rintro ⟨haccepts, hnumber⟩
    obtain ⟨num, den, hratio, hvalue⟩ := (isNumber_integer hty _).mp hnumber
    have hrepresents : ty.Represents n := by
      by_cases hunsigned : ty.isUnsigned = true
      · obtain ⟨hden, hsign⟩ := strtol_le_ratio h hread hratio
        have hrange := ScalarType.represents_toInt ty hty (ty.ofInt n)
        rw [ScalarType.Represents, if_pos hunsigned] at hrange ⊢
        -- the value in the type is at least as large as what is read, and of its sign
        have hle : 0 ≤ n ∧ n ≤ ty.toInt (ty.ofInt n) := by
          have hdenInt : (0 : Int) < den := by exact_mod_cast hden
          have hnum : 0 ≤ num := hvalue ▸ Int.mul_nonneg hrange.1 hdenInt.le
          rcases hsign with ⟨hn, hmul⟩ | ⟨hn, hmul⟩
          · rw [← hvalue] at hmul
            exact ⟨hn, Int.le_of_mul_le_mul_right hmul hdenInt⟩
          · have hzero : n = 0 := by
              by_contra hne
              have hneg := Int.mul_neg_of_neg_of_pos (show n < 0 by omega) hdenInt
              omega
            rw [hzero] at hrange ⊢
            exact ⟨le_rfl, hrange.1⟩
        omega
      · rw [Accepts, if_neg hunsigned] at haccepts
        exact haccepts
    rw [ScalarType.toInt_ofInt ty hty hrepresents] at hvalue
    exact ⟨num, den, hratio, hvalue, hrepresents⟩
  · rintro ⟨num, den, hratio, hvalue, hrepresents⟩
    refine ⟨accepts_of_represents hrepresents, (isNumber_integer hty _).mpr ⟨num, den, hratio, ?_⟩⟩
    rw [ScalarType.toInt_ofInt ty hty hrepresents]
    exact hvalue

/-- A decimal literal is no string. -/
private theorem isString_isDecimalLiteral (h : IsDecimalLiteral token) : isString token = false := by
  have hquote : ∀ q, q = '\'' ∨ q = '"' → token.head? ≠ some q := by
    rintro q hq hhead
    rcases mem_of_isDecimalLiteral h (List.mem_of_mem_head? hhead) with hdigit | hmem
    · rcases hq with rfl | rfl <;> cases hdigit
    · rcases hq with rfl | rfl
      · exact absurd hmem (by decide)
      · exact absurd hmem (by decide)
  rw [isString, decide_eq_false (hquote _ (.inl rfl)), decide_eq_false (hquote _ (.inr rfl))]
  rfl

/-- The value of a number is that of a conversion to its type. -/
theorem literalValue_number (h : IsDecimalLiteral token) {type : Str} {ty : ScalarType}
    (htype : numberType token type = some ty) : ∃ dataType, dataType.numeric = some ty ∧
      ∀ x, Condition.literalValue token type = some (.scalar ty x) ↔
        (scalarFromString token dataType).toOption = some (.scalar ty x) := by
  have hne := isDecimalLiteral_ne_nil h
  have hgetD : ∀ (r : Option Any) (x : ty.denote), r.getD .void = .scalar ty x ↔ r = some (.scalar ty x) := by
    intro r x
    cases r with
    | none => simp
    | some val => simp
  rw [numberType] at htype
  by_cases hnumber : isNumber token = true
  · rw [if_pos hnumber] at htype
    simp only [Condition.literalValue, if_pos hnumber, Condition.numberLiteral, Option.some.injEq]
    split at htype
    · next hpoint =>
      refine ⟨.DOUBLE, htype, fun x => ?_⟩
      rw [if_pos hpoint, getAnyValFromString_scalar hne (rfl : typeMap.lookup _ = some .DOUBLE), hgetD]
    · next hpoint =>
      split at htype
      · next hminus =>
        refine ⟨.LONG, htype, fun x => ?_⟩
        rw [if_neg hpoint, if_pos hminus, getAnyValFromString_scalar hne (rfl : typeMap.lookup _ = some .LONG), hgetD]
      · next hminus =>
        refine ⟨.ULONG, htype, fun x => ?_⟩
        rw [if_neg hpoint, if_neg hminus, getAnyValFromString_scalar hne (rfl : typeMap.lookup _ = some .ULONG), hgetD]
  · rw [if_neg hnumber, numericType_eq, Option.bind_eq_some_iff] at htype
    obtain ⟨dataType, hlookup, hnumeric⟩ := htype
    refine ⟨dataType, hnumeric, fun x => ?_⟩
    have hstring : ¬ isString token = true := by
      rw [isString_isDecimalLiteral h]
      exact Bool.false_ne_true
    rw [Condition.literalValue, if_neg hnumber, if_neg hstring, getAnyValFromString_scalar hne hlookup]
    refine Iff.trans ?_ (hgetD _ x)
    split
    · next heq =>
      rw [heq]
      exact iff_of_false (Ne.symm (Option.some_ne_none _)) (by rintro ⟨⟩)
    · rw [Option.some.injEq]

/-- A number has its value at its type exactly where it fits into it. -/
theorem exists_literalValue_iff (h : (Literal.number token).WellFormed) (type : Str) :
    (∃ val, Condition.literalValue token type = some val ∧ (Literal.number token).Is type val) ↔
      Predicate.Fits token type := by
  have hdecimal := h.1
  have hsame : (∃ val, Condition.literalValue token type = some val ∧ (Literal.number token).Is type val) ↔
      ∃ ty x, numberType token type = some ty ∧ Condition.literalValue token type = some (.scalar ty x) ∧
        IsNumber token ty x := by
    constructor
    · rintro ⟨val, hval, ty, x, hty, rfl, hx⟩
      exact ⟨ty, x, hty, hval, hx⟩
    · rintro ⟨ty, x, hty, hval, hx⟩
      exact ⟨_, hval, ty, x, hty, rfl, hx⟩
  rw [hsame]
  refine exists_congr fun ty => ?_
  constructor
  · rintro ⟨x, htype, hval, hx⟩
    refine ⟨htype, ?_⟩
    obtain ⟨dataType, hnumeric, hread⟩ := literalValue_number hdecimal htype
    by_cases hdouble : ty = .double
    · exact .inl hdouble
    · refine .inr ?_
      rw [hread, scalarFromString_integer hnumeric hdouble, Option.bind_eq_some_iff] at hval
      obtain ⟨n, hn, hval⟩ := hval
      split at hval
      · next haccepts =>
        have hty := isInteger_of_numeric hnumeric hdouble
        cases hval
        obtain ⟨num, den, hratio, hvalue, hrepresents⟩ := (isNumber_ofInt_iff h hty hn).mp ⟨haccepts, hx⟩
        exact ⟨n, num, den, hn, hratio, hvalue, hrepresents⟩
      · cases hval
  · rintro ⟨htype, hfits⟩
    obtain ⟨dataType, hnumeric, hread⟩ := literalValue_number hdecimal htype
    by_cases hdouble : ty = .double
    · subst hdouble
      obtain ⟨x, hx⟩ : ∃ x, stod token = .ok x := by
        have hnumber := h.2.2
        rw [LeafNode.isNumber] at hnumber
        split at hnumber
        · next x hx => exact ⟨x, hx⟩
        · cases hnumber
      refine ⟨x, htype, (hread x).mpr ?_, hx⟩
      cases dataType <;> cases hnumeric
      rw [scalarFromString, hx]
      rfl
    · obtain ⟨n, num, den, hn, hratio, hvalue, hrepresents⟩ := hfits.resolve_left hdouble
      have hty := isInteger_of_numeric hnumeric hdouble
      obtain ⟨haccepts, hx⟩ := (isNumber_ofInt_iff h hty hn).mpr ⟨num, den, hratio, hvalue, hrepresents⟩
      refine ⟨ty.ofInt n, htype, (hread _).mpr ?_, hx⟩
      rw [scalarFromString_integer hnumeric hdouble, hn, Option.bind_some, if_pos haccepts]

end Number

end IS

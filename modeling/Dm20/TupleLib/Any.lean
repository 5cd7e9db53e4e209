import Mathlib.Data.Nat.Digits.Defs

namespace IS

/-- A C++ string: a character stands for the byte of its code. -/
abbrev Str := List Char

instance : LawfulBEq Str := inferInstance

/-- The element types of the values a column can hold. -/
inductive ScalarType where
  | int
  | long
  | uint
  | ulonglong
  | uint64
  | double
  | string
  | bool
deriving DecidableEq, Repr

/-- The values of an element type. `unsigned long long` and `uint64_t` are
different types to `any`, with the same values. -/
@[reducible] def ScalarType.denote : ScalarType → Type
  | .int => Int32
  | .long => Int64
  | .uint => UInt32
  | .ulonglong => UInt64
  | .uint64 => UInt64
  | .double => Float
  | .string => Str
  | .bool => Bool

/-- A dynamically typed column value. `void` is the empty `any`, `bytes` an object of the
class `Bytes`. -/
inductive Any where
  | void
  | constCharPtr (v : Str)
  | bytes (v : Str)
  | scalar (ty : ScalarType) (v : ty.denote)
  | vector (ty : ScalarType) (xs : List ty.denote)
  | vectorVector (ty : ScalarType) (xs : List (List ty.denote))
  | vectorAny (xs : List Any)
  | vectorVectorAny (xs : List (List Any))

instance : Inhabited Any := ⟨.void⟩

/-- `std::to_string` of an unsigned integer. -/
def to_string_nat (n : Nat) : Str :=
  Nat.toDigits 10 n

/-- `std::to_string` of a signed integer. -/
def to_string_int (n : Int) : Str :=
  if n < 0 then '-' :: to_string_nat n.natAbs else to_string_nat n.natAbs

/-- The quotient rounded to the nearest integer, ties to the even one. -/
def roundHalfEven (num den : Nat) : Nat :=
  let q := num / den
  let r := 2 * (num % den)
  if r < den then q
  else if den < r then q + 1
  else if q % 2 = 0 then q else q + 1

/-- `std::to_string` of a double, the `%f` form with six decimals. -/
def to_string_double (x : Float) : Str :=
  let bits := x.toBits.toNat
  let sign : Str := if bits / 2 ^ 63 = 0 then [] else ['-']
  let exponent := bits / 2 ^ 52 % 2 ^ 11
  let fraction := bits % 2 ^ 52
  if exponent = 2047 then
    sign ++ (if fraction = 0 then "inf".toList else "nan".toList)
  else
    let mantissa := if exponent = 0 then fraction else 2 ^ 52 + fraction
    let shift := (max exponent 1 : Nat)
    let micros :=
      if 1075 ≤ shift then mantissa * 10 ^ 6 * 2 ^ (shift - 1075)
      else roundHalfEven (mantissa * 10 ^ 6) (2 ^ (1075 - shift))
    let decimals := to_string_nat (micros % 10 ^ 6)
    sign ++ to_string_nat (micros / 10 ^ 6) ++ ['.'] ++
      List.replicate (6 - decimals.length) '0' ++ decimals

/-- The text of one element. -/
def ScalarType.text : (ty : ScalarType) → ty.denote → Str
  | .int, v => to_string_int v.toInt
  | .long, v => to_string_int v.toInt
  | .uint, v => to_string_nat v.toNat
  | .ulonglong, v => to_string_nat v.toNat
  | .uint64, v => to_string_nat v.toNat
  | .double, v => to_string_double v
  | .string, v => v
  | .bool, v => if v then "1".toList else "0".toList

/-- The bracketed, comma-separated form of a list of texts. -/
def bracketText (xs : List Str) : Str :=
  ['['] ++ List.intercalate [','] xs ++ [']']

mutual

/-- The text form of a value: elements of a vector between brackets, and
`(null)` for the empty value and for one of another class. -/
def getAnyString : Any → Str
  | .void => "(null)".toList
  | .constCharPtr v => v
  | .bytes _ => "(null)".toList
  | .scalar ty v => ty.text v
  | .vector ty xs => bracketText (xs.map ty.text)
  | .vectorVector ty xs => bracketText (xs.map fun row => bracketText (row.map ty.text))
  | .vectorAny xs => bracketText (getAnyStrings xs)
  | .vectorVectorAny xs => bracketText (getRowStrings xs)

def getAnyStrings : List Any → List Str
  | [] => []
  | x :: xs => getAnyString x :: getAnyStrings xs

def getRowStrings : List (List Any) → List Str
  | [] => []
  | row :: rows => bracketText (getAnyStrings row) :: getRowStrings rows

end

end IS

import Mathlib.Data.List.Lex
import Mathlib.Data.Char
import Dm20.TupleLib.Number

namespace IS

/-- The comparators of a condition. `NE2`, the text `!=`, is read as `NE`. -/
inductive Comparator where
  | LE
  | GE
  | NE
  | EQ
  | LT
  | GT
deriving DecidableEq, Repr

/-- One element of a pattern: a character or any character, with the bounds its
quantifiers leave on the number of repetitions. -/
structure PatternItem where
  char : Option Char
  canBeEmpty : Bool := false
  repeats : Bool := false
deriving DecidableEq, Repr

namespace PatternItem

/-- `.` matches every character but the line terminators. -/
def accepts (item : PatternItem) (c : Char) : Bool :=
  match item.char with
  | some d => decide (c = d)
  | none => !(decide (c = '\n') || decide (c = '\r'))

/-- What can be left of a text behind the element. -/
def rests (item : PatternItem) (s : Str) : List Str :=
  let consumed := (s.takeWhile item.accepts).length
  let most := if item.repeats then consumed else min consumed 1
  let least := if item.canBeEmpty then 0 else 1
  ((List.range (most + 1)).filter (least ≤ ·)).map s.drop

def quantify (quantifier : Char) (item : PatternItem) : PatternItem :=
  { item with
    canBeEmpty := item.canBeEmpty || quantifier != '+'
    repeats := item.repeats || quantifier != '?' }

end PatternItem

/-- The elements of the regular expression made of a pattern: `_` stands for `.`
and `%` for `.*`, the special characters but `*`, `+` and `?` are escaped. The
flag says that a `?` makes the quantifier before it lazy. `none` is a quantifier
without an operand, which the regular expression library throws at. -/
def parsePattern : Str → List PatternItem → Bool → Option (List PatternItem)
  | [], items, _ => some items
  | c :: s, items, lazy =>
    if c = '_' then parsePattern s (items ++ [{ char := none }]) false
    else if c = '%' then
      parsePattern s (items ++ [{ char := none, canBeEmpty := true, repeats := true }]) true
    else if c = '*' ∨ c = '+' ∨ c = '?' then
      match items.getLast? with
      | none => none
      | some item =>
        if c = '?' ∧ lazy then parsePattern s items false
        else parsePattern s (items.dropLast ++ [item.quantify c]) true
    else parsePattern s (items ++ [{ char := some c }]) false

def matchItems : List PatternItem → Str → Bool
  | [], s => s.isEmpty
  | item :: items, s => (item.rests s).any (matchItems items)

/-- Whether a text matches an SQL-like pattern. -/
def matchRegexPattern (pattern text : Str) : Except Str Bool :=
  match parsePattern pattern [] false with
  | none => .error "regex_error".toList
  | some items => .ok (matchItems items text)

namespace ScalarType

/-- The place of a number type in the order of the conversions of the language:
both operands of a comparison become the later of their types. -/
def rank : ScalarType → Nat
  | .int => 0
  | .uint => 1
  | .long => 2
  | .uint64 => 3
  | .ulonglong => 4
  | _ => 5

/-- The integer an operand of an integer type stands for. -/
def toInt : (ty : ScalarType) → ty.denote → Int
  | .int, v => v.toInt
  | .long, v => v.toInt
  | .uint, v => v.toNat
  | .ulonglong, v => v.toNat
  | .uint64, v => v.toNat
  | _, _ => 0

/-- The value of a type an integer is converted to. -/
def ofInt : (ty : ScalarType) → Int → ty.denote
  | .int, n => Int32.ofInt n
  | .long, n => Int64.ofInt n
  | .uint, n => UInt32.ofInt n
  | .ulonglong, n => UInt64.ofInt n
  | .uint64, n => UInt64.ofInt n
  | .double, n => doubleOfInt n
  | .string, _ => []
  | .bool, _ => false

end ScalarType

/-- The comparison as the language defines it on a type. -/
def compareBy (c : Comparator) {T : Type} [BEq T] [LT T] [LE T] [DecidableLT T] [DecidableLE T]
    (x y : T) : Bool :=
  match c with
  | .LE => decide (x ≤ y)
  | .GE => decide (y ≤ x)
  | .NE => x != y
  | .EQ => x == y
  | .LT => decide (x < y)
  | .GT => decide (y < x)

namespace Comparator

/-- The comparison of two values of one type. -/
def applyAt (c : Comparator) : (ty : ScalarType) → ty.denote → ty.denote → Bool
  | .int, x, y => compareBy (T := Int32) c x y
  | .long, x, y => compareBy (T := Int64) c x y
  | .uint, x, y => compareBy (T := UInt32) c x y
  | .ulonglong, x, y => compareBy (T := UInt64) c x y
  | .uint64, x, y => compareBy (T := UInt64) c x y
  | .double, x, y => compareBy (T := Float) c x y
  | .string, x, y => compareBy (T := Str) c x y
  | .bool, x, y => compareBy (T := Bool) c x y

/-- The comparison of two numbers: both are converted to the later of their types. -/
def applyNumbers (c : Comparator) (a : ScalarType) (x : a.denote) (b : ScalarType) (y : b.denote) :
    Bool :=
  match a, b, x, y with
  | .double, .double, x, y => c.applyAt .double x y
  | .double, b, x, y => c.applyAt .double x (ScalarType.ofInt .double (b.toInt y))
  | a, .double, x, y => c.applyAt .double (ScalarType.ofInt .double (a.toInt x)) y
  | a, b, x, y =>
    let common := if a.rank < b.rank then b else a
    c.applyAt common (common.ofInt (a.toInt x)) (common.ofInt (b.toInt y))

/-- The comparison of two scalars. The branch of two `uint64_t` values casts the
right one to `unsigned long long`, which throws. Not equal of an `int` and an
unsigned value is tested by `>=`. An unsigned value is not compared with a double. -/
def matchScalar (c : Comparator) (a : ScalarType) (x : a.denote) (b : ScalarType) (y : b.denote) :
    Except Str Bool :=
  match a, b, x, y with
  | .string, .string, x, y => .ok (c.applyAt .string x y)
  | .bool, .bool, x, y => .ok (c.applyAt .bool x y)
  | .string, _, _, _ => .ok false
  | .bool, _, _, _ => .ok false
  | _, .string, _, _ => .ok false
  | _, .bool, _, _ => .ok false
  | .uint64, .uint64, _, _ => .error "bad any_cast".toList
  | .uint, .double, _, _ => .ok false
  | .ulonglong, .double, _, _ => .ok false
  | .uint64, .double, _, _ => .ok false
  | .int, b, x, y =>
    if c = .NE ∧ (b = .uint ∨ b = .ulonglong ∨ b = .uint64) then
      .ok (Comparator.applyNumbers .GE .int x b y)
    else .ok (c.applyNumbers .int x b y)
  | a, b, x, y => .ok (c.applyNumbers a x b y)

/-- The comparison of the text of a vector with the text of a value, which is a
pattern where it has a wildcard. Only equal and not equal are defined. -/
def matchText (c : Comparator) (val val2 : Str) : Except Str Bool :=
  let wildcard := val2.contains '_' || val2.contains '%'
  match c with
  | .EQ => if val = val2 then .ok true else if wildcard then matchRegexPattern val2 val else .ok false
  | .NE => if wildcard then (matchRegexPattern val2 val).map (!·) else .ok (val != val2)
  | _ => .ok false

/-- The comparison of two column values. -/
def matchAny (c : Comparator) : Any → Any → Except Str Bool
  | .scalar a x, .scalar b y => c.matchScalar a x b y
  | .vector ty xs, val2 =>
    if ty = .ulonglong ∨ ty = .uint ∨ ty = .uint64 then
      c.matchText (bracketText (xs.map ty.text)) (getAnyString val2)
    else .ok false
  | .vectorAny xs, val2 => c.matchText (bracketText (getAnyStrings xs)) (getAnyString val2)
  | _, _ => .ok false

end Comparator

end IS

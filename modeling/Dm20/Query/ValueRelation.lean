import Dm20.Query.IntegerComparison

namespace IS

namespace ScalarType

/-- A number as a double: an integer is the nearest one. -/
def toDouble : (ty : ScalarType) → ty.denote → Float
  | .double, x => x
  | ty, x => doubleOfInt (ty.toInt x)

def isNumeric (ty : ScalarType) : Bool :=
  ty.isInteger || decide (ty = .double)

end ScalarType

/-- The relation a comparator stands for in an order. -/
def OrderedBy (c : Comparator) {T : Type} [LT T] [LE T] (x y : T) : Prop :=
  match c with
  | .LE => x ≤ y
  | .GE => y ≤ x
  | .NE => x ≠ y
  | .EQ => x = y
  | .LT => x < y
  | .GT => y < x

private theorem compareBy_iff_orderedBy (c : Comparator) {T : Type} [BEq T] [LawfulBEq T] [LT T] [LE T] [DecidableLT T]
    [DecidableLE T] (x y : T) : compareBy c x y = true ↔ OrderedBy c x y := by
  cases c <;> simp [compareBy, OrderedBy]

namespace Comparator

/-- Two values stand to one another as a comparator says. Integers are compared as integers,
whatever their types; an integer and a double, or two doubles, as doubles; texts and truth
values in their order. Values of different kinds stand in no relation, nor does a list or null. -/
def Relates (c : Comparator) : Any → Any → Prop
  | .scalar .string x, .scalar .string y => OrderedBy (T := Str) c x y
  | .scalar .bool x, .scalar .bool y => OrderedBy (T := Bool) c x y
  | .scalar a x, .scalar b y =>
    if a.isInteger = true ∧ b.isInteger = true then c.Holds (a.toInt x) (b.toInt y)
    else a.isNumeric = true ∧ b.isNumeric = true ∧ c.applyAt .double (a.toDouble x) (b.toDouble y) = true
  | _, _ => False

/-- When the comparison takes two values for what they are: two integers as integers, and an
unsigned one only where it stands in no relation to a double behind it, since the two are
never compared. A list would be taken for its text. -/
def Tells (c : Comparator) : Any → Any → Prop
  | .scalar a x, .scalar b y =>
    if a.isInteger = true ∧ b.isInteger = true then c.Faithful a (a.toInt x) b (b.toInt y)
    else a.isUnsigned = true → b = .double → ¬ c.Relates (.scalar a x) (.scalar b y)
  | .vector _ _, _ => False
  | .vectorAny _, _ => False
  | _, _ => True

variable {c : Comparator} {a b : ScalarType}

private theorem relates_integers (ha : a.isInteger = true) (hb : b.isInteger = true) (x : a.denote) (y : b.denote) :
    c.Relates (.scalar a x) (.scalar b y) ↔ c.Holds (a.toInt x) (b.toInt y) := by
  cases a, ha using ScalarType.integer_cases <;> cases b, hb using ScalarType.integer_cases <;> rfl

private theorem tells_integers (ha : a.isInteger = true) (hb : b.isInteger = true) (x : a.denote) (y : b.denote) :
    c.Tells (.scalar a x) (.scalar b y) ↔ c.Faithful a (a.toInt x) b (b.toInt y) := by
  rw [Tells, if_pos ⟨ha, hb⟩]

/-- Integers of which none is negative are taken for what they are, where they are not both
`uint64_t` and not tested by `>=` for not equal. -/
theorem tells_of_nonneg (ha : a.isInteger = true) (hb : b.isInteger = true) (hrefused : ¬ (a = .uint64 ∧ b = .uint64))
    (hne : ¬ (c = .NE ∧ a = .int ∧ b.isUnsigned = true)) {x : a.denote} {y : b.denote} (hx : 0 ≤ a.toInt x)
    (hy : 0 ≤ b.toInt y) : c.Tells (.scalar a x) (.scalar b y) := by
  rw [tells_integers ha hb]
  unfold Faithful
  rw [if_neg hrefused, if_neg hne, if_neg fun h => absurd h.1 (by omega), if_neg fun h => absurd h.1 (by omega)]
  trivial

/-- A number and a double are compared as doubles, but for an unsigned one before a double. -/
theorem matchScalar_double (h : a.isNumeric = true ∧ b.isNumeric = true)
    (hdouble : ¬ (a.isInteger = true ∧ b.isInteger = true)) (x : a.denote) (y : b.denote) :
    c.matchScalar a x b y = .ok true ↔
      ¬ (a.isUnsigned = true ∧ b = .double) ∧ c.Relates (.scalar a x) (.scalar b y) := by
  cases a <;> cases b <;>
    first
    | cases h.1; done
    | cases h.2; done
    | exact absurd ⟨rfl, rfl⟩ hdouble
    | simp [matchScalar, Relates, applyNumbers, ScalarType.toDouble, ScalarType.ofInt, ScalarType.isInteger,
        ScalarType.isNumeric, ScalarType.isUnsigned]

/-- A text and a truth value are compared with a value of their kind only. -/
theorem matchScalar_other (h : ¬ (a.isNumeric = true ∧ b.isNumeric = true)) (x : a.denote) (y : b.denote) :
    c.matchScalar a x b y = .ok true ↔ c.Relates (.scalar a x) (.scalar b y) := by
  cases a <;> cases b <;>
    first
    | exact absurd ⟨rfl, rfl⟩ h
    | simp [matchScalar, Relates, applyAt, compareBy_iff_orderedBy, ScalarType.isInteger, ScalarType.isNumeric]

/-- Where the comparison takes two values for what they are, it tells their relation. -/
theorem matchAny_iff_relates {v w : Any} (h : c.Tells v w) : c.matchAny v w = .ok true ↔ c.Relates v w := by
  cases v with
  | scalar a x =>
    cases w with
    | scalar b y =>
      by_cases hnumbers : a.isNumeric = true ∧ b.isNumeric = true
      · by_cases hinteger : a.isInteger = true ∧ b.isInteger = true
        · have hfaithful := (tells_integers hinteger.1 hinteger.2 x y).mp h
          have htold := (matchScalar_iff_faithful c hinteger.1 hinteger.2 x y).mpr hfaithful
          rw [relates_integers hinteger.1 hinteger.2, ← htold, matchAny]
          cases c.matchScalar a x b y with
          | error e => exact iff_of_false (fun hok => by cases hok) fun hsome => by cases hsome
          | ok r => simp [Except.toOption]
        · rw [Tells, if_neg hinteger] at h
          rw [matchAny, matchScalar_double hnumbers hinteger]
          exact ⟨fun hboth => hboth.2, fun hrelates => ⟨fun hunsigned => h hunsigned.1 hunsigned.2 hrelates, hrelates⟩⟩
      · exact matchScalar_other hnumbers x y
    | _ => cases a <;> exact iff_of_false (fun hok => by cases hok) id
  | vector ty xs => exact h.elim
  | vectorAny xs => exact h.elim
  | _ => exact iff_of_false (fun hok => by cases hok) id

end Comparator

end IS

import Dm20.Operator.Selection
import Dm20.Query.GraphGrowth
import Dm20.Query.ValueRelation
import Dm20.Query.WindowNumbers
import Dm20.TupleLib.Quoted

namespace IS

open StringUtil OperatorTreeGenerator

/-- The text of a comparator in a query. -/
def Comparator.text : Comparator → Str
  | .LE => "<=".toList
  | .GE => ">=".toList
  | .NE => "<>".toList
  | .EQ => "=".toList
  | .LT => "<".toList
  | .GT => ">".toList

def Comparator.ofText (text : Str) : Option Comparator :=
  [Comparator.LE, .GE, .NE, .EQ, .LT, .GT].find? fun c => decide (c.text = text)

/-- A literal: a number, or a text between two quotes of a kind. -/
inductive Literal where
  | number (token : Str)
  | string (quote : Char) (body : Str)
deriving DecidableEq, Repr

namespace Literal

def text : Literal → Str
  | number token => token
  | string quote body => quote :: (body ++ [quote])

/-- The literal of a token in quotes. -/
def quoted : Str → Option Literal
  | quote :: rest =>
    if (quote = '\'' ∨ quote = '"') ∧ rest.getLast? = some quote then some (.string quote rest.dropLast) else none
  | [] => none

/-- A decimal number with a sign at its front only, in the range of a double; or a text
between quotes with none in it. Signs are tokens of their own, and any quote ends a string. -/
def WellFormed : Literal → Prop
  | number token => IsDecimalLiteral token ∧ (∀ c ∈ token.tail, c ≠ '-' ∧ c ≠ '+') ∧ LeafNode.isNumber token = true
  | string quote body => (quote = '\'' ∨ quote = '"') ∧ '\'' ∉ body ∧ '"' ∉ body

end Literal

/-- The types of numbers a column of a declared type can be compared with as one. -/
def numericType (type : Str) : Option ScalarType :=
  match typeMap.lookup type with
  | some .LONG => some .long
  | some .DOUBLE => some .double
  | some .INT => some .int
  | some .ULONG => some .ulonglong
  | some .UINT => some .uint
  | _ => none

/-- The type of a number: with a point a double, with a minus sign a `long`, else an
`unsigned long long`; that of the column where it is written in another way. -/
def numberType (token type : Str) : Option ScalarType :=
  if isNumber token then
    if contain token ".".toList then some .double
    else if contain token "-".toList then some .long
    else some .ulonglong
  else numericType type

/-- A ratio is the number of a token. -/
def IsRatio (token : Str) (num : Int) (den : Nat) : Prop :=
  ∃ n, readMagnitude (readSign token).2 = some (n, den) ∧ num = if (readSign token).1 then -(n : Int) else n

/-- A value of a number type is the number of a token: the same integer, or the double
nearest to it. -/
def IsNumber (token : Str) : (ty : ScalarType) → ty.denote → Prop
  | .double, x => stod token = .ok x
  | ty, x => ∃ num den, IsRatio token num den ∧ ty.toInt x * den = num

/-- A value is that of a literal which is compared with a column of a declared type. -/
def Literal.Is (type : Str) : Literal → Any → Prop
  | number token, val => ∃ ty x, numberType token type = some ty ∧ val = .scalar ty x ∧ IsNumber token ty x
  | string _ body, val => val = .scalar .string body

/-- A predicate between a column and a literal. -/
structure Predicate where
  column : Str
  comparator : Comparator
  literal : Literal
  columnFirst : Bool
deriving DecidableEq, Repr

namespace Predicate

def text (p : Predicate) : Str :=
  if p.columnFirst then p.column ++ p.comparator.text ++ p.literal.text
  else p.literal.text ++ p.comparator.text ++ p.column

/-- An operand: a column, or a literal. -/
def operand : ParseTreeNode → Option (Str ⊕ Literal)
  | .node .EXPRESSION [.leaf .IDENTIFIER name] => some (.inl name)
  | .node .EXPRESSION [.leaf .NUMBER token] => some (.inr (.number token))
  | .node .EXPRESSION [.leaf .STRING token] => (Literal.quoted token).map .inr
  | .node .EXPRESSION [.node .EXPRESSION values] => operand (.node .EXPRESSION values)
  | _ => none

/-- The predicate of a tree, if it is between a column and a literal. -/
def ofTree : ParseTreeNode → Option Predicate
  | .node .PREDICATE [left, .leaf .COMPARATOR text, right] => do
    let comparator ← Comparator.ofText text
    match ← operand left, ← operand right with
    | .inl column, .inr literal => some { column, comparator, literal, columnFirst := true }
    | .inr literal, .inl column => some { column, comparator, literal, columnFirst := false }
    | _, _ => none
  | _ => none

/-- The column of a predicate is one of a schema. -/
def Known (schema : Schema) (p : Predicate) : Prop :=
  LeafNode.isIdentifier p.column = true ∧
    ∃ idx : Nat, schema.getAttributeIdx p.column = some (idx : Int) ∧ idx < schema.getAttributeSize

/-- The declared type of the column. -/
def columnType (schema : Schema) (p : Predicate) : Str :=
  (schema.getAttribute ((schema.getAttributeIdx p.column).getD 0).toNat).type

/-- A condition says what a predicate says: the same column, comparator, side and value. -/
structure Says (schema : Schema) (p : Predicate) (cond : Condition) : Prop where
  column : schema.getAttributeIdx p.column = some cond.fieldIdx
  comparator : cond.cond = some p.comparator
  side : cond.valuePosition = if p.columnFirst then .right else .left
  value : p.literal.Is (p.columnType schema) cond.val

/-- The value a tuple has in the column of a predicate. -/
def columnValue (schema : Schema) (p : Predicate) (t : Tuple) : Any :=
  (t.getValueByIdx ((schema.getAttributeIdx p.column).getD 0).toNat).getD .void

/-- A predicate is true of a tuple: the value of its column stands to that of its literal
as the comparator says. -/
def Holds (schema : Schema) (p : Predicate) (t : Tuple) : Prop :=
  ∃ val, p.literal.Is (p.columnType schema) val ∧
    if p.columnFirst then p.comparator.Relates (p.columnValue schema t) val
    else p.comparator.Relates val (p.columnValue schema t)

/-- The comparison of types takes the column of a tuple and the literal of a predicate for what
they are. -/
def Told (schema : Schema) (p : Predicate) (t : Tuple) : Prop :=
  ∀ val, p.literal.Is (p.columnType schema) val →
    if p.columnFirst then p.comparator.Tells (p.columnValue schema t) val
    else p.comparator.Tells val (p.columnValue schema t)

/-- The comparison of types finds a predicate true of a tuple. -/
def Matches (schema : Schema) (p : Predicate) (t : Tuple) : Prop :=
  ∃ val, p.literal.Is (p.columnType schema) val ∧
    (if p.columnFirst then p.comparator.matchAny (p.columnValue schema t) val
      else p.comparator.matchAny val (p.columnValue schema t)) = .ok true

/-- The texts of comparators that are looked for up to that of a comparator. -/
def soughtTexts (c : Comparator) : List Str :=
  (Condition.comparatorTexts.map Prod.snd).takeWhile (fun text => decide (text ≠ c.text)) ++ [c.text]

/-- The words that stand for the current time. -/
def nowWords : List Str :=
  ["unix_now".toList, "UNIX_NOW".toList, "its_now".toList, "ITS_NOW".toList]

/-- The number of a token in its type: a double, or the digits at its front where they are
the number and in the range of the type. -/
def Fits (token type : Str) : Prop :=
  ∃ ty, numberType token type = some ty ∧ (ty = .double ∨
    ∃ n num den, strtol token = some n ∧ IsRatio token num den ∧ n * den = num ∧ ty.Represents n)

/-- The literal of a predicate is read as it stands. -/
def Plain (schema : Schema) (p : Predicate) : Prop :=
  schema.isExistAttribute p.literal.text = some false ∧
    match p.literal with
    | .number token => Fits token (p.columnType schema)
    | .string quote body => quote = '\'' ∧ (∀ text ∈ soughtTexts p.comparator, ¬ text <:+: body) ∧
        (∀ word ∈ nowWords, ¬ word <:+: body) ∧
        (p.columnFirst = true → "replaceS0".toList <:+: p.column → body = "replaceS0".toList)

/-- The word between the statements does not stand in the literal of a predicate. -/
def Whole (p : Predicate) : Prop :=
  match p.literal with
  | .number _ => True
  | .string _ body => ¬ " AND ".toList <:+: body

end Predicate

end IS

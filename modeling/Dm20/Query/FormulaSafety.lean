import Dm20.Query.FormulaValue
import Dm20.Query.ParseTree

namespace IS.CalcUtil

open StackMachine

def isOperator (c : Char) : Bool :=
  "+-*/".toList.contains c

/-- The texts between the operators. -/
def operands : Str → List Str :=
  List.splitOnP isOperator

/-- A formula in brackets: as many opening and closing ones as given. -/
def bracketed (i : Nat) (body : Str) (j : Nat) : Str :=
  List.replicate i '(' ++ body ++ List.replicate j ')'

section Runs

/-- The numerals between the operators, where one is being read already. -/
def runs : Str → Str → List Str
  | numstr, [] => [numstr]
  | numstr, c :: cs =>
    if isNumeric c then runs (numstr ++ [c]) cs
    else if isOperator c then numstr :: runs [] cs
    else runs numstr cs

end Runs

section Body

variable {R : Type} (A : Arithmetic R)

end Body

/-- A formula without brackets, of which no byte is zero. -/
structure Plain where
  text : Str
  no_open : '(' ∉ text
  no_close : ')' ∉ text
  no_zero : '\x00' ∉ text

end IS.CalcUtil

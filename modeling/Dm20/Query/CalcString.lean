import Dm20.Lib.StackMachine
import Dm20.TupleLib.Any

namespace IS

/-- The arithmetic on the numbers of a formula. -/
structure Arithmetic (R : Type) where
  atof : Str → R
  add : R → R → R
  sub : R → R → R
  mul : R → R → R
  div : R → R → R

namespace CalcUtil

/-- The errors that are logged. The result is then zero. -/
inductive CalcError where
  | empty
  | tooLong
  | numstacksizeLessTwo
  | numstacksizeNotOne
deriving DecidableEq

/-- A calculation ends with an error that is logged, or uses an index outside of an array. -/
inductive Failure where
  | logged (e : CalcError)
  | outOfBounds
deriving DecidableEq

/-- The operator stack with its top in front, the formula in postfix notation as
far as it is written, and the digits of the number that is being read. -/
structure CalcState where
  varstack : List Char := []
  porstr : List Str := []
  numstr : Str := []
deriving DecidableEq

/-- The characters of numbers. -/
def isNumeric (c : Char) : Bool :=
  c.isDigit || decide (c = '.')

/-- Ends the number that is being read: a zero byte behind it, and a copy. -/
def flush (s : CalcState) : Except Failure CalcState :=
  if s.numstr = [] then .ok s
  else if 20 ≤ s.numstr.length ∨ 100 ≤ s.porstr.length then .error .outOfBounds
  else .ok { s with porstr := s.porstr ++ [s.numstr], numstr := [] }

/-- Writes the operators down to the last opening bracket. -/
def popOperators : List Char → List Str → Except Failure (List Char × List Str)
  | [], porstr => .ok ([], porstr)
  | c :: varstack, porstr =>
    if c = '(' then .ok (c :: varstack, porstr)
    else if 100 ≤ porstr.length then .error .outOfBounds
    else popOperators varstack (porstr ++ [[c]])

def push (s : CalcState) (c : Char) : Except Failure CalcState :=
  if 100 ≤ s.varstack.length then .error .outOfBounds else .ok { s with varstack := c :: s.varstack }

def popAll (s : CalcState) : Except Failure CalcState := do
  let (varstack, porstr) ← popOperators s.varstack s.porstr
  pure { s with varstack, porstr }

/-- Writes one operator, if it is a multiplication or a division. -/
def popFactor (s : CalcState) : Except Failure CalcState :=
  match s.varstack with
  | c :: varstack =>
    if c = '*' ∨ c = '/' then
      if 100 ≤ s.porstr.length then .error .outOfBounds else .ok { s with varstack, porstr := s.porstr ++ [[c]] }
    else .ok s
  | [] => .ok s

/-- One character of the formula. Other characters are passed over. -/
def readChar (s : CalcState) (c : Char) : Except Failure CalcState :=
  if isNumeric c then
    if 20 ≤ s.numstr.length then .error .outOfBounds else .ok { s with numstr := s.numstr ++ [c] }
  else if c = '+' ∨ c = '-' then do push (← popAll (← flush s)) c
  else if c = '*' ∨ c = '/' then do push (← popFactor (← flush s)) c
  else if c = '(' then push s c
  else if c = ')' then do
    let s ← popAll (← flush s)
    pure { s with varstack := s.varstack.drop 1 }
  else .ok s

variable {R : Type}

/-- What an entry of the postfix form that is no number does to the two numbers on top. -/
def operation (A : Arithmetic R) (entry : Str) (ope1 ope2 : R) : R :=
  match entry.head? with
  | some '-' => A.sub ope1 ope2
  | some '+' => A.add ope1 ope2
  | some '/' => A.div ope1 ope2
  | some '*' => A.mul ope1 ope2
  | _ => ope1

/-- One entry of the postfix form, with the stack of numbers, its top in front. -/
def calcEntry (A : Arithmetic R) (numstack : List R) (entry : Str) : Except Failure (List R) :=
  if (entry.head?.map Char.isDigit).getD false then
    if 100 ≤ numstack.length then .error .outOfBounds else .ok (A.atof entry :: numstack)
  else
    match numstack with
    | ope2 :: ope1 :: numstack => .ok (operation A entry ope1 ope2 :: numstack)
    | _ => .error (.logged .numstacksizeLessTwo)

/-- The number a formula denotes. Of a text of a hundred bytes or more no zero
byte is copied, and its length is looked for behind the array. -/
def CalcString (A : Arithmetic R) (state : Str) : Except Failure R :=
  let str := state.takeWhile (· != '\x00')
  if 100 ≤ str.length then .error .outOfBounds
  else if str.length = 0 then .error (.logged .empty)
  else if 98 ≤ str.length then .error (.logged .tooLong)
  else do
    let s ← ('(' :: str ++ [')']).foldlM readChar {}
    let numstack ← s.porstr.foldlM (calcEntry A) []
    match numstack with
    | [result] => .ok result
    | _ => .error (.logged .numstacksizeNotOne)

end CalcUtil

end IS

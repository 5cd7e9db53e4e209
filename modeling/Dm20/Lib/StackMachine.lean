import Mathlib.Data.List.Basic

/-! Expressions in postfix notation, and the stack on which they are evaluated. -/

namespace StackMachine

variable {α : Type}

inductive Token (α : Type) where
  | operand (v : α)
  | binary (f : α → α → α)

def Token.isOperand : Token α → Bool
  | .operand _ => true
  | .binary _ => false

/-- One token: an operand is pushed, an operator takes its two arguments off. -/
def exec : List α → Token α → Option (List α)
  | stack, .operand v => some (v :: stack)
  | b :: a :: stack, .binary f => some (f a b :: stack)
  | _, .binary _ => none

def eval : List α → List (Token α) → Option (List α)
  | stack, [] => some stack
  | stack, t :: tokens => (exec stack t).bind fun stack' => eval stack' tokens

/-- Two programs in a row run one after the other. -/
theorem eval_append (stack : List α) (tokens tokens' : List (Token α)) :
    eval stack (tokens ++ tokens') = (eval stack tokens).bind fun stack' => eval stack' tokens' := by
  induction tokens generalizing stack with
  | nil => rfl
  | cons t tokens ih =>
    rw [List.cons_append, eval, eval]
    cases exec stack t with
    | none => rfl
    | some stack' => exact ih stack'

/-- An operand makes the stack longer by one, and an operator shorter by one. -/
theorem exec_length {stack stack' : List α} {t : Token α} (h : exec stack t = some stack') :
    stack'.length + 1 = stack.length + if t.isOperand then 2 else 0 := by
  cases t with
  | operand v =>
    obtain rfl := Option.some.inj h
    rfl
  | binary f =>
    match stack with
    | [] => cases h
    | [_] => cases h
    | b :: a :: stack =>
      obtain rfl := Option.some.inj h
      rfl

/-- Each operand adds a value to the stack, and each operator takes one off. -/
theorem eval_length {stack stack' : List α} {tokens : List (Token α)} (h : eval stack tokens = some stack') :
    stack'.length + tokens.length = stack.length + 2 * tokens.countP Token.isOperand := by
  induction tokens generalizing stack with
  | nil =>
    obtain rfl := Option.some.inj h
    rfl
  | cons t tokens ih =>
    rw [eval] at h
    cases hexec : exec stack t with
    | none => simp [hexec] at h
    | some stack2 =>
      rw [hexec] at h
      have hlength := exec_length hexec
      have hrest := ih h
      rw [List.countP_cons, List.length_cons]
      split at hlength
      · next hoperand =>
        rw [if_pos hoperand]
        omega
      · next hoperator =>
        rw [if_neg hoperator]
        omega

theorem eval_length_le {stack stack' : List α} {tokens : List (Token α)} (h : eval stack tokens = some stack') :
    stack'.length ≤ stack.length + tokens.length := by
  have hlength := eval_length h
  have hcount : tokens.countP Token.isOperand ≤ tokens.length := List.countP_le_length
  omega

end StackMachine

import Mathlib.Data.List.TakeWhile
import Dm20.Query.CalcString

namespace IS.CalcUtil

/-! The calculation without its arrays: what it computes as long as no index
leaves them, and when that is. -/

section Reading

def flushed (s : CalcState) : CalcState :=
  if s.numstr = [] then s else { s with porstr := s.porstr ++ [s.numstr], numstr := [] }

def popped (s : CalcState) : CalcState :=
  { s with
    varstack := s.varstack.dropWhile fun c => decide (c ≠ '(')
    porstr := s.porstr ++ (s.varstack.takeWhile fun c => decide (c ≠ '(')).map fun c => [c] }

def factorPopped (s : CalcState) : CalcState :=
  match s.varstack with
  | c :: varstack => if c = '*' ∨ c = '/' then { s with varstack, porstr := s.porstr ++ [[c]] } else s
  | [] => s

def pushed (s : CalcState) (c : Char) : CalcState :=
  { s with varstack := c :: s.varstack }

def read (s : CalcState) (c : Char) : CalcState :=
  if isNumeric c then { s with numstr := s.numstr ++ [c] }
  else if c = '+' ∨ c = '-' then pushed (popped (flushed s)) c
  else if c = '*' ∨ c = '/' then pushed (factorPopped (flushed s)) c
  else if c = '(' then pushed s c
  else if c = ')' then
    { popped (flushed s) with varstack := (popped (flushed s)).varstack.drop 1 }
  else s

/-- The places taken: a character takes at most one more. -/
def weight (s : CalcState) : Nat :=
  s.varstack.length + s.porstr.length + min s.numstr.length 1

/-- The characters that end a number. -/
def endsNumber (c : Char) : Bool :=
  "+-*/)".toList.contains c

variable {s : CalcState}

private theorem weight_flushed (s : CalcState) : weight (flushed s) = weight s := by
  unfold flushed
  split
  · rfl
  · next hne =>
    have hpos := List.length_pos_of_ne_nil hne
    simp only [weight, List.length_append, List.length_singleton, List.length_nil]
    omega

private theorem weight_popped (s : CalcState) : weight (popped s) = weight s := by
  have hsplit := congrArg List.length (List.takeWhile_append_dropWhile (p := fun c => decide (c ≠ '(')) (l := s.varstack))
  rw [List.length_append] at hsplit
  simp only [weight, popped, List.length_append, List.length_map]
  omega

private theorem weight_factorPopped (s : CalcState) : weight (factorPopped s) = weight s := by
  unfold factorPopped
  split
  · next c varstack hvarstack =>
    split
    · simp only [weight, hvarstack, List.length_append, List.length_cons, List.length_nil]
      omega
    · rfl
  · rfl

private theorem weight_pushed (s : CalcState) (c : Char) : weight (pushed s c) = weight s + 1 := by
  simp only [weight, pushed, List.length_cons]
  omega

/-- One character of a formula adds one entry at most to the array and the stacks. -/
private theorem weight_read_le (s : CalcState) (c : Char) : weight (read s c) ≤ weight s + 1 := by
  unfold read
  split
  · simp only [weight]
    omega
  · split
    · rw [weight_pushed, weight_popped, weight_flushed]
    · split
      · rw [weight_pushed, weight_factorPopped, weight_flushed]
      · split
        · rw [weight_pushed]
        · split
          · have hpopped : weight (popped (flushed s)) = weight s := by rw [weight_popped, weight_flushed]
            have hdrop : ((popped (flushed s)).varstack.drop 1).length ≤ (popped (flushed s)).varstack.length := by
              rw [List.length_drop]
              omega
            simp only [weight] at hpopped ⊢
            omega
          · omega

/-- A number that fits into the buffer is moved to the array without an error. -/
private theorem flush_eq (hnum : s.numstr.length < 20) (hw : weight s ≤ 100) : flush s = .ok (flushed s) := by
  unfold flush flushed
  split
  · rfl
  · next hne =>
    have hk : ¬ (20 ≤ s.numstr.length ∨ 100 ≤ s.porstr.length) := by
      have hpos := List.length_pos_of_ne_nil hne
      simp only [weight] at hw
      omega
    rw [if_neg hk]

/-- The operators up to the bracket are moved from the stack to the array, in their order. -/
private theorem popOperators_eq (varstack : List Char) (porstr : List Str) (h : varstack.length + porstr.length ≤ 100) :
    popOperators varstack porstr = .ok (varstack.dropWhile fun c => decide (c ≠ '('),
      porstr ++ (varstack.takeWhile fun c => decide (c ≠ '(')).map fun c => [c]) := by
  induction varstack generalizing porstr with
  | nil => simp [popOperators]
  | cons c varstack ih =>
    rw [List.length_cons] at h
    unfold popOperators
    by_cases hc : c = '('
    · simp [hc]
    · have hk : ¬ 100 ≤ porstr.length := by omega
      rw [if_neg hc, if_neg hk, ih (porstr ++ [[c]]) (by simp only [List.length_append, List.length_singleton]; omega)]
      simp [hc]

private theorem popAll_eq (hw : weight s ≤ 100) : popAll s = .ok (popped s) := by
  have h : s.varstack.length + s.porstr.length ≤ 100 := by
    simp only [weight] at hw
    omega
  rw [popAll, popOperators_eq _ _ h]
  rfl

/-- A factor that waits is moved to the array where there is room. -/
private theorem popFactor_eq (hw : weight s ≤ 100) : popFactor s = .ok (factorPopped s) := by
  unfold popFactor factorPopped
  cases hvarstack : s.varstack with
  | nil => rfl
  | cons c varstack =>
    have hk : ¬ 100 ≤ s.porstr.length := by
      simp only [weight, hvarstack, List.length_cons] at hw
      omega
    simp only [if_neg hk]
    split <;> rfl

private theorem push_eq (hw : weight s < 100) (c : Char) : push s c = .ok (pushed s c) := by
  have hk : ¬ 100 ≤ s.varstack.length := by
    simp only [weight] at hw
    omega
  rw [push, if_neg hk, pushed]

/-- A character is read, if there are places left and the number that is being
read is not too long. -/
theorem readChar_eq (hnum : s.numstr.length < 20) (hw : weight s < 100) (c : Char) :
    readChar s c = .ok (read s c) := by
  have hflush := flush_eq hnum (le_of_lt hw)
  have hall := popAll_eq (s := flushed s) (by rw [weight_flushed]; omega)
  have hfactor := popFactor_eq (s := flushed s) (by rw [weight_flushed]; omega)
  unfold readChar read
  split
  · rw [if_neg (by omega)]
  · split
    · rw [hflush]
      change (popAll (flushed s) >>= fun s => push s c) = _
      rw [hall]
      exact push_eq (by rw [weight_popped, weight_flushed]; exact hw) c
    · split
      · rw [hflush]
        change (popFactor (flushed s) >>= fun s => push s c) = _
        rw [hfactor]
        exact push_eq (by rw [weight_factorPopped, weight_flushed]; exact hw) c
      · split
        · exact push_eq hw c
        · split
          · rw [hflush]
            change (popAll (flushed s) >>= fun s => pure { s with varstack := s.varstack.drop 1 }) = _
            rw [hall]
            rfl
          · rfl

/-- The number that is being read after one more character. -/
theorem numstr_read (s : CalcState) (c : Char) : (read s c).numstr =
    if isNumeric c then s.numstr ++ [c] else if endsNumber c then [] else s.numstr := by
  have hflushed : (flushed s).numstr = [] := by
    unfold flushed
    split
    · next hnil => exact hnil
    · rfl
  have hpopped : (popped (flushed s)).numstr = [] := hflushed
  have hfactor : (factorPopped (flushed s)).numstr = [] := by
    unfold factorPopped
    split
    · split
      · exact hflushed
      · exact hflushed
    · exact hflushed
  unfold read
  split
  · rfl
  · split
    · next hc =>
      rw [if_pos (by rcases hc with rfl | rfl <;> decide)]
      exact hpopped
    · split
      · next hc =>
        rw [if_pos (by rcases hc with rfl | rfl <;> decide)]
        exact hfactor
      · split
        · next hc =>
          rw [if_neg (by rw [hc]; decide)]
          rfl
        · split
          · next hc =>
            rw [if_pos (by rw [hc]; decide)]
            exact hpopped
          · next hadd hmul hopen hclose =>
            have hother : endsNumber c = false := by
              simp only [endsNumber, List.contains_eq_mem, decide_eq_false_iff_not]
              simp only [not_or] at hadd hmul
              simp [hadd, hmul, hclose]
            rw [if_neg (by rw [hother]; exact Bool.false_ne_true)]

/-- No number gets longer than nineteen characters, from one of the given length on. -/
def Short : Nat → Str → Prop
  | n, [] => n < 20
  | n, c :: cs => n < 20 ∧ Short (if isNumeric c then n + 1 else if endsNumber c then 0 else n) cs

private theorem length_numstr_read (s : CalcState) (c : Char) : (read s c).numstr.length =
    if isNumeric c then s.numstr.length + 1 else if endsNumber c then 0 else s.numstr.length := by
  rw [numstr_read]
  split
  · rw [List.length_append, List.length_singleton]
  · split <;> rfl

/-- A number of twenty characters leaves its array, at its next character or its end. -/
theorem foldlM_readChar_of_long (cs : Str) (hnum : 20 ≤ s.numstr.length) :
    (cs ++ [')']).foldlM readChar s = .error .outOfBounds := by
  have hne : s.numstr ≠ [] := by
    rintro hnil
    rw [hnil] at hnum
    cases hnum
  have hflush : flush s = .error .outOfBounds := by
    rw [flush, if_neg hne, if_pos (.inl hnum)]
  induction cs generalizing s with
  | nil =>
    rw [List.nil_append, List.foldlM_cons]
    have hread : readChar s ')' = .error .outOfBounds := by
      simp only [readChar]
      rw [hflush]
      rfl
    rw [hread]
    rfl
  | cons c cs ih =>
    rw [List.cons_append, List.foldlM_cons]
    have hread : readChar s c = .error .outOfBounds ∨
        ∃ s', readChar s c = .ok s' ∧ s'.numstr = s.numstr := by
      unfold readChar
      rw [if_pos hnum]
      split
      · exact .inl rfl
      · split
        · exact .inl (by rw [hflush]; rfl)
        · split
          · exact .inl (by rw [hflush]; rfl)
          · split
            · unfold push
              split
              · exact .inl rfl
              · exact .inr ⟨_, rfl, rfl⟩
            · split
              · exact .inl (by rw [hflush]; rfl)
              · exact .inr ⟨s, rfl, rfl⟩
    rcases hread with hread | ⟨s', hread, hsame⟩
    · rw [hread]
      rfl
    · rw [hread]
      refine ih (by rw [hsame]; exact hnum) (by rw [hsame]; exact hne) ?_
      rw [flush, if_neg (by rw [hsame]; exact hne), if_pos (.inl (by rw [hsame]; exact hnum))]

/-- The whole formula is read just if no number is too long. -/
theorem foldlM_readChar (cs : Str) (hw : weight s + cs.length < 100) :
    (Short s.numstr.length cs → (cs ++ [')']).foldlM readChar s = .ok ((cs ++ [')']).foldl read s)) ∧
      (¬ Short s.numstr.length cs → (cs ++ [')']).foldlM readChar s = .error .outOfBounds) := by
  induction cs generalizing s with
  | nil =>
    refine ⟨fun h => ?_, fun h => foldlM_readChar_of_long [] (Nat.le_of_not_lt h)⟩
    rw [List.nil_append, List.foldlM_cons, readChar_eq h (by simpa using hw)]
    rfl
  | cons c cs ih =>
    rw [List.length_cons] at hw
    have hle := weight_read_le s c
    have ih := ih (s := read s c) (by omega)
    rw [length_numstr_read] at ih
    by_cases hnum : s.numstr.length < 20
    · rw [List.cons_append, List.foldlM_cons, readChar_eq hnum (by omega), List.foldl_cons]
      refine ⟨fun h => ih.1 h.2, fun h => ih.2 fun hrest => h ⟨hnum, hrest⟩⟩
    · exact ⟨fun h => absurd h.1 hnum, fun _ => foldlM_readChar_of_long (c :: cs) (Nat.le_of_not_lt hnum)⟩

private theorem weight_foldl_read_le (cs : Str) (s : CalcState) : weight (cs.foldl read s) ≤ weight s + cs.length := by
  induction cs generalizing s with
  | nil => simp
  | cons c cs ih =>
    have hle := weight_read_le s c
    have hrest := ih (read s c)
    rw [List.foldl_cons, List.length_cons]
    omega

end Reading

section Calculation

open StackMachine

variable {R : Type} (A : Arithmetic R)

/-- Whether an entry of the postfix form is taken for a number. -/
def isNumber (entry : Str) : Bool :=
  (entry.head?.map Char.isDigit).getD false

def token (entry : Str) : Token R :=
  if isNumber entry then .operand (A.atof entry) else .binary (operation A entry)

/-- An entry of the reversed formula is an operand just if it reads as a number. -/
theorem isOperand_token (entry : Str) : (token A entry).isOperand = isNumber entry := by
  unfold token
  split
  · next h => exact h.symm
  · next h => exact (Bool.eq_false_iff.mpr h).symm

/-- With room on the stack, an entry is executed as its token. -/
private theorem calcEntry_eq {numstack : List R} (h : numstack.length < 100) (entry : Str) :
    calcEntry A numstack entry =
      match exec numstack (token A entry) with
      | some numstack' => .ok numstack'
      | none => .error (.logged .numstacksizeLessTwo) := by
  unfold calcEntry token isNumber
  split
  · rw [if_neg (by omega)]
    rfl
  · match numstack with
    | [] => rfl
    | [_] => rfl
    | ope2 :: ope1 :: numstack => rfl

/-- The stack of numbers stays inside its array. -/
theorem foldlM_calcEntry (entries : List Str) {numstack : List R} (h : numstack.length + entries.length ≤ 100) :
    entries.foldlM (calcEntry A) numstack =
      match eval numstack (entries.map (token A)) with
      | some numstack' => .ok numstack'
      | none => .error (.logged .numstacksizeLessTwo) := by
  induction entries generalizing numstack with
  | nil => rfl
  | cons entry entries ih =>
    rw [List.length_cons] at h
    rw [List.foldlM_cons, calcEntry_eq A (by omega), List.map_cons, eval]
    cases hexec : exec numstack (token A entry) with
    | none => rfl
    | some numstack' =>
      have heval : eval numstack [token A entry] = some numstack' := by
        rw [eval, hexec]
        rfl
      have hlength := eval_length_le heval
      rw [List.length_singleton] at hlength
      exact ih (by omega)

/-- What is returned for what is left on the stack of numbers. -/
def finish : Option (List R) → Except Failure R
  | some [result] => .ok result
  | some _ => .error (.logged .numstacksizeNotOne)
  | none => .error (.logged .numstacksizeLessTwo)

/-- The postfix form of a formula. -/
def polish (state : Str) : List Str :=
  (('(' :: state ++ [')']).foldl read {}).porstr

/-- A formula of less than ninety-eight characters is read and calculated without
the arrays, but for one with a number that is too long. -/
theorem CalcString_eq {state : Str} (hzero : '\x00' ∉ state) (hpos : 0 < state.length) (hlt : state.length < 98) :
    (Short 0 state → CalcString A state = finish (eval [] ((polish state).map (token A)))) ∧
      (¬ Short 0 state → CalcString A state = .error .outOfBounds) := by
  have hstr : state.takeWhile (· != '\x00') = state :=
    List.takeWhile_eq_self_iff.mpr fun c hc => by
      have hne : c ≠ '\x00' := fun h => hzero (h ▸ hc)
      simpa using hne
  have hopen : read {} '(' = { varstack := ['('] } := rfl
  have hread : readChar {} '(' = .ok { varstack := ['('] } := rfl
  have hfold := foldlM_readChar (s := { varstack := ['('] }) state (by
    simp only [weight, List.length_singleton, List.length_nil]
    omega)
  have hporstr : (polish state).length ≤ 100 := by
    have hle := weight_foldl_read_le ('(' :: state ++ [')']) {}
    simp only [weight, List.length_append, List.length_cons, List.length_nil] at hle
    rw [polish]
    omega
  unfold CalcString
  simp only [hstr]
  rw [if_neg (by omega), if_neg (by omega), if_neg (by omega), List.cons_append, List.foldlM_cons, hread]
  constructor
  · intro hshort
    change ((state ++ [')']).foldlM readChar { varstack := ['('] } >>= _) = _
    rw [hfold.1 hshort]
    change ((polish state).foldlM (calcEntry A) [] >>= _) = _
    rw [foldlM_calcEntry A _ (by simpa using hporstr)]
    cases eval [] ((polish state).map (token A)) with
    | none => rfl
    | some numstack =>
      match numstack with
      | [] => rfl
      | [_] => rfl
      | _ :: _ :: _ => rfl
  · intro hlong
    change ((state ++ [')']).foldlM readChar { varstack := ['('] } >>= _) = _
    rw [hfold.2 hlong]
    rfl

end Calculation

end IS.CalcUtil

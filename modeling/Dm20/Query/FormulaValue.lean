import Dm20.Query.CalcArrays

namespace IS.CalcUtil

open StackMachine

/-- An unsigned decimal number: digits and at most one point. -/
structure Numeral where
  text : Str
  numeric : ∀ c ∈ text, isNumeric c = true
  one_point : text.count '.' ≤ 1
  digit : ∃ c ∈ text, c.isDigit = true

inductive AddOp where
  | plus
  | minus

inductive MulOp where
  | times
  | divide

def AddOp.char : AddOp → Char
  | .plus => '+'
  | .minus => '-'

def MulOp.char : MulOp → Char
  | .times => '*'
  | .divide => '/'

inductive Level where
  | expression
  | term
  | factor

/-- Well-formed expressions, by the grammar that gives the operators their
precedence and makes them associate to the left. -/
inductive Formula : Level → Type where
  | number (n : Numeral) : Formula .factor
  | bracket (e : Formula .expression) : Formula .factor
  | factor (f : Formula .factor) : Formula .term
  | mul (op : MulOp) (t : Formula .term) (f : Formula .factor) : Formula .term
  | term (t : Formula .term) : Formula .expression
  | add (op : AddOp) (e : Formula .expression) (t : Formula .term) : Formula .expression

namespace Formula

def text {l : Level} : Formula l → Str
  | number n => n.text
  | bracket e => '(' :: (e.text ++ [')'])
  | factor f => f.text
  | mul op t f => t.text ++ op.char :: f.text
  | term t => t.text
  | add op e t => e.text ++ op.char :: t.text

/-- The value of an expression, for any arithmetic on the numbers. -/
def value {R : Type} (A : Arithmetic R) {l : Level} : Formula l → R
  | number n => A.atof n.text
  | bracket e => e.value A
  | factor f => f.value A
  | mul .times t f => A.mul (t.value A) (f.value A)
  | mul .divide t f => A.div (t.value A) (f.value A)
  | term t => t.value A
  | add .plus e t => A.add (e.value A) (t.value A)
  | add .minus e t => A.sub (e.value A) (t.value A)

def numerals {l : Level} : Formula l → List Str
  | number n => [n.text]
  | bracket e => e.numerals
  | factor f => f.numerals
  | mul _ t f => t.numerals ++ f.numerals
  | term t => t.numerals
  | add _ e t => e.numerals ++ t.numerals

/-- The expression in postfix notation. -/
def entries {l : Level} : Formula l → List Str
  | number n => [n.text]
  | bracket e => e.entries
  | factor f => f.entries
  | mul op t f => t.entries ++ f.entries ++ [[op.char]]
  | term t => t.entries
  | add op e t => e.entries ++ t.entries ++ [[op.char]]

end Formula

section Reading

/-- The entry of the number that is being read. -/
def pending (numstr : Str) : List Str :=
  if numstr = [] then [] else [numstr]

theorem flushed_mk (varstack : List Char) (porstr : List Str) (numstr : Str) :
    flushed ⟨varstack, porstr, numstr⟩ = ⟨varstack, porstr ++ pending numstr, []⟩ := by
  unfold flushed pending
  split
  · next h =>
    dsimp only at h
    simp [h]
  · rfl

private theorem popped_mk {ops : List Char}
    (hops : '(' ∉ ops) (varstack : List Char) (porstr : List Str) (numstr : Str) :
    popped ⟨ops ++ '(' :: varstack, porstr, numstr⟩ =
      ⟨'(' :: varstack, porstr ++ ops.map fun c => [c], numstr⟩ := by
  have hall : ∀ c ∈ ops, decide (c ≠ '(') = true := fun c hc => decide_eq_true fun h => hops (h ▸ hc)
  unfold popped
  rw [List.dropWhile_append_of_pos hall, List.takeWhile_append_of_pos hall]
  simp

private theorem foldl_read_numeric {cs : Str} (h : ∀ c ∈ cs, isNumeric c = true) (s : CalcState) :
    cs.foldl read s = { s with numstr := s.numstr ++ cs } := by
  induction cs generalizing s with
  | nil => simp
  | cons c cs ih =>
    have hread : read s c = { s with numstr := s.numstr ++ [c] } := if_pos (h c (List.mem_cons_self ..))
    rw [List.foldl_cons, hread, ih fun d hd => h d (List.mem_cons_of_mem _ hd)]
    simp

/-- Whether the operator on top binds as tightly as a multiplication. -/
def mulOnTop (varstack : List Char) : Prop :=
  varstack.head? = some '*' ∨ varstack.head? = some '/'

/-- What reading a text writes: with the number that is being read and the
operators that are still on the stack, the given entries. -/
def Writes (l : Level) (text : Str) (out : List Str) : Prop :=
  ∀ varstack porstr,
    match l with
    | .factor => ∃ porstr' numstr, text.foldl read ⟨varstack, porstr, []⟩ = ⟨varstack, porstr', numstr⟩ ∧
        porstr' ++ pending numstr = porstr ++ out
    | .term => ¬ mulOnTop varstack → ∃ ops porstr' numstr,
        (ops = [] ∨ ∃ op : MulOp, ops = [op.char]) ∧
        text.foldl read ⟨varstack, porstr, []⟩ = ⟨ops ++ varstack, porstr', numstr⟩ ∧
        porstr' ++ pending numstr ++ ops.map (fun c => [c]) = porstr ++ out
    | .expression => ∃ ops porstr' numstr, '(' ∉ ops ∧
        text.foldl read ⟨'(' :: varstack, porstr, []⟩ = ⟨ops ++ '(' :: varstack, porstr', numstr⟩ ∧
        porstr' ++ pending numstr ++ ops.map (fun c => [c]) = porstr ++ out

/-- An operator of the lowest level sends out all operators since the last bracket. -/
theorem read_add (op : AddOp) {ops : List Char} (hops : '(' ∉ ops) (varstack : List Char) (porstr : List Str)
    (numstr : Str) :
    read ⟨ops ++ '(' :: varstack, porstr, numstr⟩ op.char =
      ⟨op.char :: '(' :: varstack, porstr ++ pending numstr ++ ops.map fun c => [c], []⟩ := by
  have hread : read ⟨ops ++ '(' :: varstack, porstr, numstr⟩ op.char =
      pushed (popped (flushed ⟨ops ++ '(' :: varstack, porstr, numstr⟩)) op.char := by
    cases op <;> rfl
  rw [hread, flushed_mk, popped_mk hops]
  rfl

/-- A closing bracket sends out the operators since the opening one, and that one goes. -/
theorem read_close {ops : List Char} (hops : '(' ∉ ops) (varstack : List Char) (porstr : List Str) (numstr : Str) :
    read ⟨ops ++ '(' :: varstack, porstr, numstr⟩ ')' =
      ⟨varstack, porstr ++ pending numstr ++ ops.map fun c => [c], []⟩ := by
  have hread : read ⟨ops ++ '(' :: varstack, porstr, numstr⟩ ')' =
      { popped (flushed ⟨ops ++ '(' :: varstack, porstr, numstr⟩) with
        varstack := (popped (flushed ⟨ops ++ '(' :: varstack, porstr, numstr⟩)).varstack.drop 1 } := rfl
  rw [hread, flushed_mk, popped_mk hops]
  rfl

/-- A multiplication ends the number before it and waits on the stack until its second factor is
read. -/
private theorem read_mul (op : MulOp) {ops varstack : List Char} (hops : ops = [] ∨ ∃ op : MulOp, ops = [op.char])
    (htop : ¬ mulOnTop varstack) (porstr : List Str) (numstr : Str) :
    read ⟨ops ++ varstack, porstr, numstr⟩ op.char =
      ⟨op.char :: varstack, porstr ++ pending numstr ++ ops.map fun c => [c], []⟩ := by
  have hread : read ⟨ops ++ varstack, porstr, numstr⟩ op.char =
      pushed (factorPopped (flushed ⟨ops ++ varstack, porstr, numstr⟩)) op.char := by
    cases op <;> rfl
  rw [hread, flushed_mk]
  rcases hops with rfl | ⟨op', rfl⟩
  · cases varstack with
    | nil => simp [factorPopped, pushed]
    | cons c varstack =>
      have hc : ¬ (c = '*' ∨ c = '/') := by simpa [mulOnTop] using htop
      simp [factorPopped, pushed, hc]
  · cases op' <;> simp [factorPopped, pushed, MulOp.char]

/-- Reading an expression writes its postfix notation. -/
theorem writes {l : Level} (f : Formula l) : Writes l f.text f.entries := by
  induction f with
  | number n =>
    intro varstack porstr
    have hne : n.text ≠ [] := by
      obtain ⟨c, hc, -⟩ := n.digit
      exact List.ne_nil_of_mem hc
    refine ⟨porstr, n.text, ?_, ?_⟩
    · rw [Formula.text, foldl_read_numeric n.numeric]
      rfl
    · rw [pending, if_neg hne, Formula.entries]
  | bracket e ih =>
    intro varstack porstr
    obtain ⟨ops, porstr', numstr, hops, hfold, hout⟩ := ih varstack porstr
    refine ⟨porstr ++ e.entries, [], ?_, by simp [pending, Formula.entries]⟩
    have hopen : read ⟨varstack, porstr, []⟩ '(' = ⟨'(' :: varstack, porstr, []⟩ := rfl
    rw [Formula.text, List.foldl_cons, hopen, List.foldl_append, hfold, List.foldl_cons, List.foldl_nil,
      read_close hops, hout]
  | factor f ih =>
    intro varstack porstr _
    obtain ⟨porstr', numstr, hfold, hout⟩ := ih varstack porstr
    exact ⟨[], porstr', numstr, .inl rfl, hfold, by simpa [Formula.entries] using hout⟩
  | mul op t f iht ihf =>
    intro varstack porstr htop
    obtain ⟨ops, porstr', numstr, hops, hfold, hout⟩ := iht varstack porstr htop
    obtain ⟨porstr2, numstr2, hfold2, hout2⟩ := ihf (op.char :: varstack) (porstr ++ t.entries)
    refine ⟨[op.char], porstr2, numstr2, .inr ⟨op, rfl⟩, ?_, ?_⟩
    · rw [Formula.text, List.foldl_append, hfold, List.foldl_cons, read_mul op hops htop, hout, hfold2]
      rfl
    · rw [hout2, Formula.entries]
      simp
  | term t ih =>
    intro varstack porstr
    obtain ⟨ops, porstr', numstr, hops, hfold, hout⟩ := ih ('(' :: varstack) porstr (by simp [mulOnTop])
    refine ⟨ops, porstr', numstr, ?_, hfold, hout⟩
    rcases hops with rfl | ⟨op, rfl⟩
    · simp
    · cases op <;> decide
  | add op e t ihe iht =>
    intro varstack porstr
    obtain ⟨ops, porstr', numstr, hops, hfold, hout⟩ := ihe varstack porstr
    obtain ⟨ops2, porstr2, numstr2, hops2, hfold2, hout2⟩ :=
      iht (op.char :: '(' :: varstack) (porstr ++ e.entries) (by cases op <;> simp [mulOnTop, AddOp.char])
    refine ⟨ops2 ++ [op.char], porstr2, numstr2, ?_, ?_, ?_⟩
    · rcases hops2 with rfl | ⟨op', rfl⟩
      · cases op <;> decide
      · cases op <;> cases op' <;> decide
    · rw [Formula.text, List.foldl_append, hfold, List.foldl_cons, read_add op hops, hout, hfold2]
      simp
    · rw [List.map_append, ← List.append_assoc, hout2, Formula.entries]
      simp

private theorem polish_text (e : Formula .expression) : polish e.text = e.entries := by
  obtain ⟨ops, porstr, numstr, hops, hfold, hout⟩ := writes e [] []
  have hopen : read {} '(' = ⟨['('], [], []⟩ := rfl
  rw [polish, List.cons_append, List.foldl_cons, hopen, List.foldl_append, hfold, List.foldl_cons, List.foldl_nil,
    read_close hops, hout]
  rfl

end Reading

section Value

variable {R : Type} (A : Arithmetic R)

/-- The entries of a formula are worked off to its value, on top of what the stack held. -/
private theorem eval_entries {l : Level} (f : Formula l) (hdigit : ∀ n ∈ f.numerals, isNumber n = true)
    (stack : List R) :
    eval stack (f.entries.map (token A)) = some (f.value A :: stack) := by
  have hop : ∀ (c : Char), isNumber [c] = false → token A [c] = .binary (operation A [c]) := fun c hc => by
    rw [token, if_neg (by rw [hc]; exact Bool.false_ne_true)]
  induction f generalizing stack with
  | number n =>
    have hn : isNumber n.text = true := hdigit n.text (by simp [Formula.numerals])
    rw [Formula.entries, List.map_cons, List.map_nil, token, if_pos hn]
    rfl
  | bracket e ih => exact ih hdigit stack
  | factor f ih => exact ih hdigit stack
  | mul op t f iht ihf =>
    rw [Formula.entries, List.map_append, List.map_append, eval_append, eval_append,
      iht (fun n hn => hdigit n (List.mem_append_left _ hn)), Option.bind_some,
      ihf (fun n hn => hdigit n (List.mem_append_right _ hn)), Option.bind_some, List.map_cons, List.map_nil]
    cases op with
    | times => rw [hop _ rfl]; rfl
    | divide => rw [hop _ rfl]; rfl
  | term t ih => exact ih hdigit stack
  | add op e t ihe iht =>
    rw [Formula.entries, List.map_append, List.map_append, eval_append, eval_append,
      ihe (fun n hn => hdigit n (List.mem_append_left _ hn)), Option.bind_some,
      iht (fun n hn => hdigit n (List.mem_append_right _ hn)), Option.bind_some, List.map_cons, List.map_nil]
    cases op with
    | plus => rw [hop _ rfl]; rfl
    | minus => rw [hop _ rfl]; rfl

/-- An expression has one operator less than it has numerals. -/
theorem length_entries {l : Level} (f : Formula l) : f.entries.length + 1 = 2 * f.numerals.length := by
  induction f with
  | number n => rfl
  | bracket e ih => exact ih
  | factor f ih => exact ih
  | mul op t f iht ihf =>
    simp only [Formula.entries, Formula.numerals, List.length_append, List.length_singleton]
    omega
  | term t ih => exact ih
  | add op e t ihe iht =>
    simp only [Formula.entries, Formula.numerals, List.length_append, List.length_singleton]
    omega

/-- The entries of a formula have all of its numerals among them. -/
private theorem countP_entries {l : Level} (f : Formula l) :
    f.entries.countP isNumber = f.numerals.countP isNumber := by
  induction f with
  | number n => rfl
  | bracket e ih => exact ih
  | factor f ih => exact ih
  | mul op t f iht ihf =>
    have hop : ([[op.char]] : List Str).countP isNumber = 0 := by cases op <;> decide
    rw [Formula.entries, Formula.numerals, List.countP_append, List.countP_append, List.countP_append, iht, ihf, hop]
    rfl
  | term t ih => exact ih
  | add op e t ihe iht =>
    have hop : ([[op.char]] : List Str).countP isNumber = 0 := by cases op <;> decide
    rw [Formula.entries, Formula.numerals, List.countP_append, List.countP_append, List.countP_append, ihe, iht, hop]
    rfl

/-- There are as many operands as entries that read as numbers. -/
theorem countP_token (entries : List Str) :
    (entries.map (token A)).countP Token.isOperand = entries.countP isNumber := by
  rw [List.countP_map]
  exact List.countP_congr fun entry _ => by rw [Function.comp, isOperand_token]

/-- One number is left only if all numerals are taken for numbers. -/
theorem isNumber_of_eval {l : Level} {f : Formula l} {r : R} (h : eval [] (f.entries.map (token A)) = some [r]) :
    ∀ n ∈ f.numerals, isNumber n = true := by
  have hlength := eval_length h
  rw [countP_token, countP_entries, List.length_map, List.length_singleton, List.length_nil] at hlength
  have hentries := length_entries f
  have hle := List.countP_le_length (p := isNumber) (l := f.numerals)
  exact List.countP_eq_length.mp (by omega)

end Value

section Length

/-- What can stand behind a part of an expression. -/
def Ends (rest : Str) : Prop :=
  ∀ c ∈ rest.head?, isNumeric c = false ∧ endsNumber c = true

/-- A run of digits stays within the buffer if what was read before it and its own digits do. -/
private theorem short_numeric {cs : Str} (h : ∀ c ∈ cs, isNumeric c = true) {rest : Str} (hrest : Ends rest) (n : Nat) :
    Short n (cs ++ rest) ↔ n + cs.length < 20 ∧ Short 0 rest := by
  induction cs generalizing n with
  | nil =>
    cases rest with
    | nil => simp [Short]
    | cons c rest =>
      obtain ⟨hnumeric, hends⟩ := hrest c rfl
      simp [Short, hnumeric, hends]
  | cons c cs ih =>
    have hc := h c (List.mem_cons_self ..)
    rw [List.cons_append, Short, if_pos hc, ih (fun d hd => h d (List.mem_cons_of_mem _ hd)), List.length_cons]
    constructor
    · rintro ⟨-, hlt, hshort⟩
      exact ⟨by omega, hshort⟩
    · rintro ⟨hlt, hshort⟩
      exact ⟨by omega, by omega, hshort⟩

/-- The text of a formula stays within the buffer exactly if each of its numerals does. -/
private theorem short_text {l : Level} (f : Formula l) {rest : Str} (hrest : Ends rest) :
    Short 0 (f.text ++ rest) ↔ (∀ n ∈ f.numerals, n.length < 20) ∧ Short 0 rest := by
  induction f generalizing rest with
  | number n =>
    rw [Formula.text, short_numeric n.numeric hrest]
    simp [Formula.numerals]
  | bracket e ih =>
    have hclose : Ends (')' :: rest) := fun c hc => by
      obtain rfl : ')' = c := Option.some.inj hc
      decide
    have hshort : Short 0 (')' :: rest) ↔ Short 0 rest := by simp [Short, isNumeric, endsNumber]
    have hopen : Short 0 ('(' :: (e.text ++ ')' :: rest)) ↔ Short 0 (e.text ++ ')' :: rest) := by
      simp [Short, isNumeric, endsNumber]
    rw [Formula.text, List.cons_append, List.append_assoc, List.singleton_append, hopen, ih hclose, hshort]
    rfl
  | factor f ih => exact ih hrest
  | mul op t f iht ihf =>
    have hop : Ends (op.char :: (f.text ++ rest)) := fun c hc => by
      obtain rfl : op.char = c := Option.some.inj hc
      cases op <;> decide
    have hshort : Short 0 (op.char :: (f.text ++ rest)) ↔ Short 0 (f.text ++ rest) := by
      cases op <;> simp [Short, isNumeric, endsNumber, MulOp.char]
    rw [Formula.text, List.append_assoc, List.cons_append, iht hop, hshort, ihf hrest, Formula.numerals]
    simp only [List.mem_append, or_imp, forall_and, and_assoc]
  | term t ih => exact ih hrest
  | add op e t ihe iht =>
    have hop : Ends (op.char :: (t.text ++ rest)) := fun c hc => by
      obtain rfl : op.char = c := Option.some.inj hc
      cases op <;> decide
    have hshort : Short 0 (op.char :: (t.text ++ rest)) ↔ Short 0 (t.text ++ rest) := by
      cases op <;> simp [Short, isNumeric, endsNumber, AddOp.char]
    rw [Formula.text, List.append_assoc, List.cons_append, ihe hop, hshort, iht hrest, Formula.numerals]
    simp only [List.mem_append, or_imp, forall_and, and_assoc]

/-- The text of a formula is not empty. -/
private theorem length_text_pos {l : Level} (f : Formula l) : 0 < f.text.length := by
  induction f with
  | number n =>
    obtain ⟨c, hc, -⟩ := n.digit
    exact List.length_pos_of_mem hc
  | bracket e ih => exact Nat.succ_pos _
  | factor f ih => exact ih
  | mul op t f iht ihf =>
    rw [Formula.text, List.length_append]
    omega
  | term t ih => exact ih
  | add op e t ihe iht =>
    rw [Formula.text, List.length_append]
    omega

/-- The text of a formula has no zero byte in it, at which the code would stop. -/
private theorem zero_not_mem_text {l : Level} (f : Formula l) : '\x00' ∉ f.text := by
  induction f with
  | number n =>
    intro h
    exact absurd (n.numeric _ h) (by decide)
  | bracket e ih => simpa [Formula.text] using ih
  | factor f ih => exact ih
  | mul op t f iht ihf => cases op <;> simp [Formula.text, MulOp.char, iht, ihf]
  | term t ih => exact ih
  | add op e t ihe iht => cases op <;> simp [Formula.text, AddOp.char, ihe, iht]

end Length

/-- The value of an expression is computed, unless its text has ninety-eight
characters or more, or one of its numerals has twenty or more or begins with a point. -/
theorem CalcString_eq_value_iff {R : Type} (A : Arithmetic R) (e : Formula .expression) :
    CalcString A e.text = .ok (e.value A) ↔
      e.text.length < 98 ∧ ∀ n ∈ e.numerals, n.length < 20 ∧ isNumber n = true := by
  by_cases hlength : e.text.length < 98
  · obtain ⟨hread, hlong⟩ := CalcString_eq A (zero_not_mem_text e) (length_text_pos e) hlength
    have hshort : Short 0 e.text ↔ ∀ n ∈ e.numerals, n.length < 20 := by
      have hends : Ends [] := fun c hc => nomatch hc
      have htext := short_text e hends
      rw [List.append_nil] at htext
      rw [htext]
      simp [Short]
    by_cases hs : Short 0 e.text
    · rw [hread hs, polish_text]
      constructor
      · intro h
        refine ⟨hlength, fun n hn => ⟨hshort.mp hs n hn, ?_⟩⟩
        cases heval : eval [] (e.entries.map (token A)) with
        | none =>
          rw [heval] at h
          cases h
        | some stack =>
          rw [heval] at h
          match stack with
          | [] => cases h
          | [r] => exact isNumber_of_eval A heval n hn
          | _ :: _ :: _ => cases h
      · rintro ⟨-, h⟩
        rw [eval_entries A e (fun n hn => (h n hn).2)]
        rfl
    · rw [hlong hs]
      refine ⟨fun h => (nomatch h), fun h => ?_⟩
      exact absurd (hshort.mpr fun n hn => (h.2 n hn).1) hs
  · refine ⟨fun h => ?_, fun h => absurd h.1 hlength⟩
    have hstr : e.text.takeWhile (· != '\x00') = e.text :=
      List.takeWhile_eq_self_iff.mpr fun c hc => by
        have hne : c ≠ '\x00' := fun heq => zero_not_mem_text e (heq ▸ hc)
        simpa using hne
    have hpos := length_text_pos e
    unfold CalcString at h
    simp only [hstr] at h
    split at h
    · cases h
    · rw [if_neg (by omega), if_pos (by omega)] at h
      cases h

/-- The numeral `.5`. -/
def pointFive : Numeral where
  text := ".5".toList
  numeric := List.all_eq_true.mp (by decide)
  one_point := by decide
  digit := ⟨'5', by decide, rfl⟩

/-- `.5` is taken for an operator. -/
theorem pointFive_not_computed : ∃ (A : Arithmetic Nat) (e : Formula .expression),
    CalcString A e.text = .error (.logged .numstacksizeLessTwo) ∧ CalcString A e.text ≠ .ok (e.value A) := by
  refine ⟨⟨fun _ => 1, (· + ·), (· - ·), (· * ·), (· / ·)⟩, .term (.factor (.number pointFive)), ?_, ?_⟩
  · decide
  · decide

end IS.CalcUtil

import Dm20.Lib.LookAhead
import Dm20.Query.Grammar

namespace IS

open Descent Descent.Gram LeafNode
open QueryParser (keyword isSymbol exactly iequals formulaOperators isUnit)

namespace Grammar

/-- A token that is one of some keywords or signs. -/
def keywordIn (A : List String) (token : Str) : Bool :=
  A.any fun w => keyword w token

/-- No token, or one of some keywords, is next. -/
abbrev Follow (A : List String) : List Str → Prop :=
  Before (keywordIn A)

private theorem keyword_of_exactly {w : String} {token : Str} (h : exactly w token = true) :
    keyword w token = true := by
  obtain rfl : token = w.toList := by simpa [exactly] using h
  simp [keyword, iequals]

private theorem keywordIn_of_keyword {A : List String} {w : String} (hmem : w ∈ A) (token : Str)
    (h : keyword w token = true) : keywordIn A token = true :=
  List.any_eq_true.mpr ⟨w, hmem, h⟩

private theorem keywordIn_of_exactly {A : List String} {w : String} (hmem : w ∈ A) (token : Str)
    (h : exactly w token = true) : keywordIn A token = true :=
  keywordIn_of_keyword hmem token (keyword_of_exactly h)

private theorem keywordIn_mono {A B : List String} (hsub : A ⊆ B) (token : Str)
    (h : keywordIn A token = true) : keywordIn B token = true := by
  obtain ⟨w, hmem, hname⟩ := List.any_eq_true.mp h
  exact keywordIn_of_keyword (hsub hmem) token hname

private theorem follow_mono {A B : List String} (hsub : A ⊆ B) (rest : List Str)
    (h : Follow A rest) : Follow B rest :=
  h.mono (keywordIn_mono hsub)

private theorem keyword_ne {w w' : String} (hne : iequals w.toList w'.toList = false) (token : Str)
    (h : keyword w token = true) : keyword w' token = false := by
  simp only [keyword, iequals, decide_eq_true_eq, decide_eq_false_iff_not] at h hne ⊢
  exact fun h' => hne (h.symm.trans h')

private theorem exactly_eq_false {w : String} {token : Str} (h : keyword w token = false) :
    exactly w token = false := by
  by_contra hexact
  rw [keyword_of_exactly (by simpa using hexact)] at h
  exact Bool.noConfusion h

/-- None of the words is another one. -/
def Apart (A : List String) (w : String) : Prop :=
  ∀ other ∈ A, iequals other.toList w.toList = false

instance (A : List String) (w : String) : Decidable (Apart A w) :=
  inferInstanceAs (Decidable (∀ other ∈ A, iequals other.toList w.toList = false))

private theorem keywordIn_apart {A : List String} {w : String} (h : Apart A w) (token : Str)
    (htoken : keywordIn A token = true) : keyword w token = false := by
  obtain ⟨other, hmem, hother⟩ := List.any_eq_true.mp htoken
  exact keyword_ne (h other hmem) token hother

private theorem misses_keyword {A : List String} {w : String} (h : Apart A w) :
    Misses (Follow A) (keyword w) :=
  misses_before (keywordIn_apart h)

private theorem misses_exactly {A : List String} {w : String} (h : Apart A w) :
    Misses (Follow A) (exactly w) :=
  misses_before fun token htoken => exactly_eq_false (keywordIn_apart h token htoken)

variable {g g' : Reading}

/-- The derivations of one reading are those of another, in general where the
other is not the longer one, and otherwise before tokens that satisfy a condition. -/
abbrev Refines (g g' : Reading) {α : Type} (F : List Str → Prop) (G G' : Gram Str α) : Prop :=
  Lifts (g'.longest = true → g.longest = true) F G G'

variable {F : List Str → Prop}

/-- The forms of a reading, among which there is no statement without its content, are those of
another reading too. -/
structure Extends (g g' : Reading) : Prop where
  admits : ∀ f, g.admits f → g'.admits f
  complete : ∀ f ∈ [Form.createNothing, .dropNothing, .insertNothing], ¬ g.admits f

/-- A form that the one reading admits is admitted by the other, so a guard stays passable. -/
theorem Extends.takes (hext : Extends g g') (form : Option Form) :
    Refines g g' F (takes g form) (takes g' form) :=
  lifts_guard fun h f hf => hext.admits f (h f hf)

/-- Tokens of an admitted form are derived in the other reading too. -/
theorem Extends.formed {α : Type} (hext : Extends g g') (form : List Str → Option Form) {G G' : Gram Str α}
    (hG : Refines g g' F G G') : Refines g g' F (formed g form G) (formed g' form G') :=
  fun used result rest hrest h => ⟨hG used result rest hrest h.1, fun f hf => hext.admits f (h.2 f hf)⟩

/-- A form that a reading does not admit. -/
theorem takes_bind_eq_bot {α : Type} {form : Form} (h : ¬ g.admits form) (K : Unit → Gram Str α) :
    takes g (some form) >>= K = ⊥ := by
  funext used a rest
  refine propext ⟨?_, fun hbot => hbot.elim⟩
  rintro ⟨u, b, v, rfl, ⟨-, hadmits⟩, -⟩
  exact h (hadmits form rfl)

private theorem opens_takes {α : Type} {M : List Str → Prop} {form : Option Form} {K : Unit → Gram Str α}
    (hK : Opens F M (K ())) : Opens F M (takes g form >>= K) :=
  Opens.bind (opens_of_empty (fun _ _ _ h => h.1) fun _ h => h) fun _ => hK

private theorem refines_stop {M : List Str → Prop} {α : Type} {p : Str → Bool} {K K' : Unit → Gram Str α}
    (hmiss : Misses M p) (hopens : Opens F M (K ())) (hK : Refines g g' F (K ()) (K' ())) :
    Refines g g' F (stopAt g p >>= K) (stopAt g' p >>= K') :=
  lifts_stop_bind (fun h => h) hmiss hopens hK

private theorem sign_startsWith (s : String) : (sign s).StartsWith (exactly s) :=
  startsWith_token _

/-- What opens with a sign, and then a rest of the rule. -/
theorem opens_sign {α : Type} {s : String} {A : List String} (hmem : s ∈ A) (K : Unit → Gram Str α) :
    Opens F (Follow A) (sign s >>= K) :=
  (sign_startsWith s).bind.before (keywordIn_of_exactly hmem)

private theorem opens_symbol {α : Type} {s : Symbol} {w : String} {A : List String} (hmem : w ∈ A)
    (hname : convertSymbolToString s = w.toList) (K : Unit → Gram Str α) :
    Opens F (Follow A) (symbol s >>= K) :=
  (startsWith_token _).bind.before fun token h =>
    keywordIn_of_keyword hmem token (by simpa [isSymbol, keyword, hname] using h)

/-- A list of one grammar is one of the other, if the tokens that may follow it are no
separators. -/
private theorem refines_separated {A B : List String} {separator : Str → Bool} {item item' : Rule}
    (hsep : ∀ token, separator token = true → keywordIn B token = true)
    (hmiss : Misses (Follow A) separator) (hsub : A ⊆ B)
    (hitem : Refines g g' (Follow B) item item') :
    Refines g g' (Follow A) (separated g separator item) (separated g' separator item') := by
  have hopens : ∀ items, Opens (Follow A) (Follow B) (While (g.longest = true) separator
      (fun items _ => item >>= fun next => pure (items ++ [next])) items) := fun items =>
    opens_while items hsep (follow_mono hsub)
  refine hitem.bind (fun first => hopens [first]) fun first => ?_
  exact lifts_while _ (fun h => h) hmiss hopens fun items _ =>
    hitem.bind (fun next => opens_pure _ fun _ h => h) fun _ => .refl _

variable (hext : Extends g g')

section Terminals

include hext

private theorem refines_identifier : Refines g g' F (identifier g) (identifier g') :=
  hext.formed _ (.refl _)

private theorem refines_number : Refines g g' F (number g) (number g') :=
  hext.formed _ (.refl _)

private theorem refines_value : Refines g g' F (value g) (value g') :=
  hext.formed _ (.refl _)

end Terminals

private theorem refines_bracketed (token : Str) : Refines g g' F (bracketed g token) (bracketed g' token) := by
  have hwhile : Refines g g' (Next (exactly "]"))
      (While (g.longest = true) (fun part => !exactly "]" part)
        (fun text part => (pure (text ++ part) : Gram Str Str)) token)
      (While (g'.longest = true) (fun part => !exactly "]" part)
        (fun text part => pure (text ++ part)) token) :=
    lifts_while (M := fun _ => True) token (fun h => h) (misses_next fun t ht => by simp [ht])
      (fun _ => opens_true) fun _ _ => .refl _
  exact hwhile.bind (fun text => (sign_startsWith "]").bind.next fun _ h => h) fun _ => .refl _

include hext

private theorem refines_array (token : Str) : Refines g g' F (array g token) (array g' token) :=
  hext.formed _ (refines_bracketed token)

private theorem refines_operandText : Refines g g' F (operandText g) (operandText g') := by
  refine Lifts.then (.refl anyToken) fun token => ?_
  by_cases h : exactly "[" token = true
  · simpa only [if_pos h] using refines_array hext token
  · simpa only [if_neg h] using Lifts.refl _

omit hext

/-- What a formula may open with: one of its operators, or what stands behind it. -/
def Operand (operators : List Str) (F : List Str → Prop) (rest : List Str) : Prop :=
  F rest ∨ ∃ token ∈ rest.head?, token ∈ operators

/-- A formula goes on as long as operators follow, and stops at a token that may follow an
operand. -/
private theorem opens_formula (operators : List Str) (result : Str × ParseTreeNode) :
    Opens F (Operand operators F) (formula g operators result) := by
  induction operators generalizing result with
  | nil => exact opens_pure _ fun _ h => Or.inl h
  | cons ope operators ih =>
    refine Opens.bind (M := Operand operators F) ?_ ih
    intro used r rest h hrest
    cases h with
    | done => exact hrest.imp_right fun ⟨token, hhead, hmem⟩ => ⟨token, hhead, List.mem_cons_of_mem _ hmem⟩
    | step ht =>
      obtain rfl := of_decide_eq_true ht
      exact Or.inr ⟨_, rfl, List.mem_cons_self⟩

include hext in
/-- A formula ends before a token that is none of its operators. -/
theorem refines_formula {operators : List Str} (hnodup : operators.Nodup)
    (hmiss : ∀ ope ∈ operators, Misses F fun token => decide (token = ope)) (result : Str × ParseTreeNode) :
    Refines g g' F (formula g operators result) (formula g' operators result) := by
  induction operators generalizing result with
  | nil => exact .refl _
  | cons ope operators ih =>
    obtain ⟨hnot, hnodup⟩ := List.nodup_cons.mp hnodup
    have hmiss' : Misses (Operand operators F) fun token => decide (token = ope) := by
      rintro rest (hrest | ⟨token, hhead, hmem⟩) token' hhead'
      · exact hmiss ope List.mem_cons_self rest hrest token' hhead'
      · obtain rfl : token = token' := Option.some.inj (hhead.symm.trans hhead')
        exact decide_eq_false fun h => hnot (h ▸ hmem)
    refine Lifts.bind (M := Operand operators F) ?_ (opens_formula operators)
      (ih hnodup fun ope' hmem => hmiss ope' (List.mem_cons_of_mem _ hmem))
    exact lifts_while (M := fun _ => True) _ (fun h => h) hmiss' (fun _ => opens_true) fun _ _ =>
      hext.formed _ (.refl _)

/-- What may stand behind an expression. -/
def afterExpression : List String :=
  [",", ")", "AS", "FROM", "ROWS", "RANGE", "AND", "WHERE", "UNION", ";", "<", ">", ">=", "<=", "=", "<>"]

/-- What may stand behind an item of a list and its new name. -/
def afterItem : List String :=
  [",", ")", "FROM", "ROWS", "RANGE", "WHERE", "UNION", ";"]

def afterPredicate : List String :=
  ["AND", ")", "UNION", ";"]

def afterSubquery : List String :=
  [")", "UNION", ";"]

def afterSelection : List String :=
  [")", ";"]

/-- The texts that no expression starts with. -/
def startsExpression (token : Str) : Bool :=
  !exactly ")" token && !exactly "*" token

/-- An operand is not one of the signs `(`, `)` and `*`. -/
theorem operand_sign {e : Rule} {w : String} {tree : ParseTreeNode} (hname : w ∈ ["(", ")", "*"]) :
    operand g e w.toList tree = ⊥ := by
  have hnot : (isNumber w.toList || isString w.toList || isNumberArray w.toList ||
      isStringArray w.toList || isSign w.toList || isIdentifier w.toList) = false := by
    simp only [List.mem_cons, List.not_mem_nil, or_false] at hname
    rcases hname with rfl | rfl | rfl <;> decide +kernel
  simp only [Bool.or_eq_false_iff] at hnot
  simp [operand, hnot]

/-- What an operand starts with: its token, or the bracket of an array. -/
theorem operandForm_startsWith (e : Rule) :
    (operandText g >>= fun token => lift (leafNode token) >>= fun tree => operand g e token tree).StartsWith
      fun token => startsExpression token && !exactly "(" token := by
  rintro used result rest ⟨u, text, v, rfl, ⟨u', token, v', rfl, rfl, htext⟩, u₁, tree, v₁, rfl, -, hoperand⟩
  refine ⟨token, by simp, ?_⟩
  by_cases hbracket : exactly "[" token = true
  · obtain rfl : token = "[".toList := by simpa [exactly] using hbracket
    decide
  rw [if_neg hbracket] at htext
  obtain ⟨rfl, rfl⟩ := htext
  by_contra hsign
  have hname : ∃ w ∈ ["(", ")", "*"], text = w.toList := by
    simp only [startsExpression, exactly, Bool.and_eq_true, Bool.not_eq_true', decide_eq_false_iff_not,
      not_and_or, not_not] at hsign
    rcases hsign with (h | h) | h
    · exact ⟨")", by simp, h⟩
    · exact ⟨"*", by simp, h⟩
    · exact ⟨"(", by simp, h⟩
  obtain ⟨w, hmem, rfl⟩ := hname
  rw [operand_sign hmem] at hoperand
  exact hoperand

private theorem expression_startsWith : (expression g).StartsWith startsExpression := by
  rw [expression_eq]
  rintro used tree rest (h | ⟨u, a, v, rfl, ⟨rfl, -⟩, h⟩)
  · obtain ⟨token, hhead, hparen⟩ := (sign_startsWith "(").bind used tree rest h
    obtain rfl : token = "(".toList := by simpa [exactly] using hparen
    exact ⟨"(".toList, hhead, by decide⟩
  · obtain ⟨token, hhead, htoken⟩ := operandForm_startsWith (expression g) v tree rest h
    exact ⟨token, hhead, (Bool.and_eq_true_iff.mp htoken).1⟩

section Expression

variable {e e' : Rule}

private theorem refines_expressionList (he : Refines g g' (Follow afterExpression) e e') :
    Refines g g' (Follow [")"]) (expressionList g e) (expressionList g' e') := by
  refine Lifts.bind (M := Follow [")"]) ?_ (fun _ => opens_pure _ fun _ h => h) fun _ => .refl _
  exact refines_separated (fun token h => keywordIn_of_exactly (by decide) token h)
    (misses_exactly (by decide)) (by decide) he

/-- The arguments of a function are the same in both grammars, since a bracket closes them. -/
private theorem refines_arguments (he : Refines g g' (Follow afterExpression) e e')
    (hstart : e.StartsWith startsExpression) (functionName : ParseTreeNode) :
    Refines g g' F (arguments g e functionName) (arguments g' e' functionName) := by
  have hlist : (expressionList g e).StartsWith startsExpression := hstart.bind.bind
  refine .sup (.refl _) (refines_stop (M := Next startsExpression) ?_ ?_ ?_)
  · refine misses_next fun token h => ?_
    simp only [startsExpression, Bool.and_eq_true, Bool.not_eq_true'] at h
    exact h.1
  · exact hlist.bind.next fun _ h => h
  · exact (refines_expressionList he).bind (fun _ => opens_sign (by decide) _) fun _ => .refl _

include hext in
/-- An operand of the one grammar is one of the other, where the token behind it cannot go on
with the expression. -/
private theorem refines_operand (he : Refines g g' (Follow afterExpression) e e')
    (hstart : e.StartsWith startsExpression) (token : Str) (tree : ParseTreeNode) :
    Refines g g' (Follow afterExpression) (operand g e token tree) (operand g' e' token tree) := by
  unfold operand
  split
  · exact (hext.takes _).then fun _ => .refl _
  split
  · exact (hext.takes _).then fun _ => Lifts.then (hext.formed _ (.refl _)) fun _ => .refl _
  split
  · exact .refl _
  refine (hext.takes _).then fun _ => ?_
  have hoperators : ∀ ope ∈ formulaOperators, Misses (Follow afterExpression) fun t => decide (t = ope) := by
    intro ope hmem
    have h : ∃ w : String, ope = w.toList ∧ Apart afterExpression w := by
      simp only [formulaOperators, List.mem_cons, List.not_mem_nil, or_false] at hmem
      rcases hmem with rfl | rfl | rfl | rfl | rfl
      · exact ⟨"+", rfl, by decide⟩
      · exact ⟨"-", rfl, by decide⟩
      · exact ⟨"*", rfl, by decide⟩
      · exact ⟨"/", rfl, by decide⟩
      · exact ⟨"%", rfl, by decide⟩
    obtain ⟨w, rfl, hapart⟩ := h
    exact misses_exactly hapart
  refine .sup ?_ (refines_stop (M := Operand formulaOperators (Follow afterExpression)) ?_ ?_ ?_)
  · exact (Lifts.refl (sign "(")).then fun _ => (refines_arguments he hstart tree).then fun _ => .refl _
  · rintro rest (hrest | ⟨t, hhead, hmem⟩) t' hhead'
    · exact misses_exactly (by decide) rest hrest t' hhead'
    · obtain rfl : t = t' := Option.some.inj (hhead.symm.trans hhead')
      simp only [formulaOperators, List.mem_cons, List.not_mem_nil, or_false] at hmem
      rcases hmem with rfl | rfl | rfl | rfl | rfl <;> decide
  · exact (opens_formula _ _).bind fun _ => opens_takes (opens_pure _ fun _ h => h)
  · exact (refines_formula hext (by decide) hoperators _).bind (fun _ => opens_takes (opens_pure _ fun _ h => h))
      fun _ => (hext.takes _).then fun _ => .refl _

include hext in
/-- An expression of the one grammar is one of the other, by its three kinds. -/
private theorem refines_expressionRule (he : Refines g g' (Follow afterExpression) e e')
    (hstart : e.StartsWith startsExpression) :
    Refines g g' (Follow afterExpression) (expressionRule g e) (expressionRule g' e') := by
  refine .sup ?_ (refines_stop (M := Next fun token => startsExpression token && !exactly "(" token) ?_ ?_ ?_)
  · exact (Lifts.refl (sign "(")).then fun _ =>
      (he.mono (follow_mono (A := [")"]) (by decide))).bind (fun _ => opens_sign (by decide) _) fun _ => .refl _
  · refine misses_next fun token h => ?_
    simp only [Bool.and_eq_true, Bool.not_eq_true'] at h
    exact h.2
  · exact (operandForm_startsWith e).next fun _ h => h
  · exact (refines_operandText hext).then fun token => (Lifts.refl _).then fun tree =>
      refines_operand hext he hstart token tree

end Expression

include hext

private theorem refines_expression : Refines g g' (Follow afterExpression) (expression g) (expression g') := by
  refine lifts_lfp _ _ fun e hle he => ?_
  refine refines_expressionRule hext he fun used tree rest h => ?_
  exact expression_startsWith used tree rest (hle used tree rest h)

/-- An item with a new w, where the item may stand before `AS` too. -/
theorem refines_rename {A B : List String} (s : Symbol) {item item' : Rule}
    (has : "AS" ∈ B) (hapart : Apart A "AS") (hsub : A ⊆ B)
    (hitem : Refines g g' (Follow B) item item') :
    Refines g g' (Follow A) (rename g s item) (rename g' s item') := by
  refine hitem.bind (fun old => Opens.sup (opens_symbol has rfl _) (opens_stop_bind (opens_pure _ ?_)))
    fun old => .sup ((Lifts.refl _).then fun _ => (refines_identifier hext).then fun _ => .refl _)
      (refines_stop (misses_keyword hapart) (opens_pure _ fun _ h => h) (.refl _))
  exact follow_mono hsub

private theorem refines_selectList :
    Refines g g' (Follow ["FROM", "ROWS", "RANGE"]) (selectList g) (selectList g') := by
  refine Lifts.bind (M := Follow ["FROM", "ROWS", "RANGE"]) ?_ (fun _ => opens_pure _ fun _ h => h)
    fun _ => .refl _
  refine refines_separated (B := afterItem) (fun token h => keywordIn_of_exactly (by decide) token h)
    (misses_exactly (by decide)) (by decide) ?_
  exact refines_rename hext _ (by decide) (by decide) (by decide) (refines_expression hext)

omit hext in
private theorem selectList_startsWith : (selectList g).StartsWith startsExpression :=
  expression_startsWith.bind.bind.bind

private theorem refines_select : Refines g g' (Follow ["FROM"]) (select g) (select g') := by
  refine (Lifts.refl _).then fun _ => Lifts.bind (M := Follow ["FROM"]) ?_ (fun _ => opens_pure _ fun _ h => h)
    fun _ => .refl _
  refine .sup (.refl _) (refines_stop (M := Next startsExpression) ?_ ?_ ?_)
  · refine misses_next fun token h => ?_
    simp only [startsExpression, Bool.and_eq_true, Bool.not_eq_true'] at h
    exact h.2
  · exact selectList_startsWith.next fun _ h => h
  · exact (refines_selectList hext).mono (follow_mono (by decide))

omit hext in
/-- A window begins with the word of its kind. -/
private theorem window_startsWith : (window g).StartsWith (keywordIn ["ROWS", "RANGE"]) := by
  rintro used tree rest ⟨u, type, v, rfl, ⟨rfl, -, -⟩, u', bounds, v', rfl, hbounds, -⟩
  refine ⟨type.1, rfl, ?_⟩
  unfold windowBounds at hbounds
  by_cases hrows : iequals type.1 "ROWS".toList = true
  · exact keywordIn_of_keyword (w := "ROWS") (by decide) _ hrows
  rw [if_neg hrows] at hbounds
  by_cases hrange : iequals type.1 "RANGE".toList = true
  · exact keywordIn_of_keyword (w := "RANGE") (by decide) _ hrange
  · rw [if_neg hrange] at hbounds
    exact hbounds.elim

private theorem refines_nearby : Refines g g' (Next (exactly "]")) (nearby g) (nearby g') := by
  refine .sup ((refines_number hext).then fun _ => .refl _) ?_
  rintro used result rest hrest ⟨rfl, rfl, hnext⟩
  refine ⟨rfl, rfl, fun hlongest => ?_⟩
  rcases hrest with hle | ⟨token, hhead, htoken⟩
  · exact hnext (hle hlongest)
  · obtain rfl : token = "]".toList := by simpa [exactly] using htoken
    exact ⟨"]".toList, hhead, by decide +kernel, .leaf .UNKNOWN "]".toList, rfl⟩

private theorem refines_hierarchy : Refines g g' (Next (exactly "]")) (hierarchy g) (hierarchy g') := by
  refine Lifts.then (hext.formed _ (.refl _)) fun level => ?_
  by_cases hnearby : keyword "NEARBY" level.1 = true
  · simp only [if_pos hnearby]
    exact (refines_nearby hext).bind (fun _ => opens_pure _ fun _ h => h) fun _ => .refl _
  · simp only [if_neg hnearby]
    exact .refl _

/-- A predicate of the one grammar is one of the other, where the token behind it cannot go on
with the predicate. -/
private theorem refines_predicate : Refines g g' (Follow afterPredicate) (predicate g) (predicate g') := by
  have hcomparator : ∀ token, isComparator token = true → keywordIn afterExpression token = true := by
    intro token h
    have hmem : ∃ w ∈ afterExpression, token = String.toList w := by
      simp only [isComparator, List.contains_iff_mem, List.mem_cons, List.not_mem_nil, or_false] at h
      rcases h with rfl | rfl | rfl | rfl | rfl | rfl
      · exact ⟨"<", by decide, rfl⟩
      · exact ⟨">", by decide, rfl⟩
      · exact ⟨">=", by decide, rfl⟩
      · exact ⟨"<=", by decide, rfl⟩
      · exact ⟨"=", by decide, rfl⟩
      · exact ⟨"<>", by decide, rfl⟩
    obtain ⟨w, hmem, rfl⟩ := hmem
    exact keywordIn_of_exactly hmem _ (by simp [exactly])
  refine (refines_expression hext).bind (fun _ => (leaf_startsWith isComparator).bind.before hcomparator) fun _ => ?_
  exact (Lifts.refl _).then fun _ => ((refines_expression hext).mono (follow_mono (by decide))).bind
    (fun _ => opens_pure _ fun _ h => h) fun _ => .refl _

private theorem refines_whereClause : Refines g g' (Follow afterSubquery) (whereClause g) (whereClause g') := by
  refine (Lifts.refl _).then fun _ => Lifts.bind (M := Follow afterSubquery) ?_
    (fun _ => opens_pure _ fun _ h => h) fun _ => .refl _
  refine Lifts.bind (M := Follow afterSubquery) ?_ (fun _ => opens_pure _ fun _ h => h) fun _ => .refl _
  exact refines_separated (B := afterPredicate) (fun token h => keywordIn_of_keyword (by decide) token h)
    (misses_keyword (by decide)) (by decide) (refines_predicate hext)

omit hext in
private theorem refines_optional {start : Str → Bool} {rule rule' : Rule} (hmiss : Misses F start)
    (h : Refines g g' F rule rule') : Refines g g' F (optional g start rule) (optional g' start rule') :=
  .sup (h.bind (fun _ => opens_pure _ fun _ h => h) fun _ => .refl _)
    (refines_stop hmiss (opens_pure _ fun _ h => h) (.refl _))

private theorem refines_optionalWhere : Refines g g' (Follow afterSubquery) (optionalWhere g) (optionalWhere g') :=
  refines_optional (misses_keyword (by decide)) (refines_whereClause hext)

omit hext

private theorem opens_optional {M : List Str → Prop} {start : Str → Bool} {rule : Rule}
    (hrule : Opens F M (rule >>= fun tree => pure [tree])) (hF : ∀ rest, F rest → M rest) :
    Opens F M (optional g start rule) :=
  hrule.sup (opens_stop_bind (opens_pure _ hF))

private theorem opens_optionalWhere {A B : List String} (hmem : "WHERE" ∈ B) (hsub : A ⊆ B) :
    Opens (Follow A) (Follow B) (optionalWhere g) :=
  opens_optional ((startsWith_token _).bind.bind.before (keywordIn_of_keyword hmem)) (follow_mono hsub)

include hext

private theorem refines_identifierList {A : List String} (s : Symbol) (hapart : Apart A ",") :
    Refines g g' (Follow A) (identifierList g s) (identifierList g' s) := by
  refine Lifts.bind (M := Follow A) ?_ (fun _ => opens_pure _ fun _ h => h) fun _ => .refl _
  exact refines_separated (B := "," :: A) (fun token h => keywordIn_of_exactly (by simp) token h)
    (misses_exactly hapart) (by simp) (refines_identifier hext)

private theorem refines_master : Refines g g' (Follow ["WITH", "SELECT"]) (master g) (master g') :=
  (Lifts.refl _).then fun _ => (refines_identifierList hext _ (by decide)).bind (fun _ => opens_pure _ fun _ h => h)
    fun _ => .refl _

private theorem refines_valueList : Refines g g' (Follow [")"]) (valueList g) (valueList g') := by
  refine Lifts.bind (M := Follow [")"]) ?_ (fun _ => opens_pure _ fun _ h => h) fun _ => .refl _
  exact refines_separated (B := [",", ")"]) (fun token h => keywordIn_of_exactly (by decide) token h)
    (misses_exactly (by decide)) (by decide) (refines_value hext)

private theorem refines_tableAttr : Refines g g' (Follow [",", ")"]) (tableAttr g) (tableAttr g') :=
  (refines_identifier hext).then fun _ => (refines_identifier hext).then fun _ =>
    (refines_optional (misses_keyword (by decide)) ((Lifts.refl _).then fun _ => (refines_value hext).then fun _ =>
      .refl _)).bind (fun _ => opens_pure _ fun _ h => h) fun _ => .refl _

private theorem refines_declaration : Refines g g' F (declaration g) (declaration g') := by
  have hlist : Refines g g' (Follow [")"]) (tableAttrList g) (tableAttrList g') := by
    refine Lifts.bind (M := Follow [")"]) ?_ (fun _ => opens_pure _ fun _ h => h) fun _ => .refl _
    exact refines_separated (B := [",", ")"]) (fun token h => keywordIn_of_exactly (by decide) token h)
      (misses_exactly (by decide)) (by decide) (refines_tableAttr hext)
  exact (refines_identifier hext).then fun _ => (Lifts.refl _).then fun _ =>
    hlist.bind (fun _ => opens_sign (by decide) _) fun _ => .refl _

omit hext in
private theorem fixClause_startsWith (w : String) : (fixClause g w).StartsWith (keyword w) :=
  startsWith_starting _ _

/-- A clause that a word and brackets begin and end. -/
theorem refines_inBrackets {α β : Type} (w : String) (k : ParseTreeNode → α → β) {G G' : Gram Str α}
    (hG : Refines g g' (fun _ => True) G G') :
    Refines g g' F
      (starting (keyword w) (do
        let wordTree ← identifier g
        sign "["
        let part ← G
        sign "]"
        pure (k wordTree part)))
      (starting (keyword w) (do
        let wordTree ← identifier g'
        sign "["
        let part ← G'
        sign "]"
        pure (k wordTree part))) :=
  Lifts.starting _ ((refines_identifier hext).then fun _ => (Lifts.refl _).then fun _ => hG.then fun _ => .refl _)

private theorem refines_fixClause (w : String) : Refines g g' F (fixClause g w) (fixClause g' w) :=
  refines_inBrackets hext w (fun wordTree time => [wordTree, time]) (refines_number hext)

private theorem refines_dateParts (k : Nat) : Refines g g' F (dateParts g k) (dateParts g' k) := by
  induction k with
  | zero => exact .refl _
  | succ k ih =>
    exact Lifts.then (hext.formed _ (.refl _)) fun _ => ih.bind (fun _ => opens_pure _ fun _ h => h) fun _ => .refl _

private theorem refines_cronClause : Refines g g' F (cronClause g) (cronClause g') :=
  refines_inBrackets hext _ (fun wordTree date => [wordTree, date]) ((refines_dateParts hext 5).then fun _ => .refl _)

private theorem refines_timer : Refines g g' (Follow ["START_FIX", ";"]) (timer g) (timer g') := by
  refine .sup (refines_fixClause hext _) (refines_stop (M := Follow ["TIMER_CRON", "START_FIX", ";"])
    (misses_keyword (by decide)) (Opens.sup ?_ (opens_stop_bind (opens_pure _ (follow_mono (by decide))))) ?_)
  · exact (startsWith_starting _ _).before (keywordIn_of_keyword (by decide))
  · exact .sup (refines_cronClause hext)
      (refines_stop (misses_keyword (by decide)) (opens_pure _ fun _ h => h) (.refl _))

private theorem refines_startFix : Refines g g' (Follow [";"]) (startFix g) (startFix g') :=
  .sup (refines_fixClause hext _) (refines_stop (misses_keyword (by decide)) (opens_pure _ fun _ h => h) (.refl _))

private theorem refines_createTable : Refines g g' F (createTable g) (createTable g') :=
  (Lifts.refl _).then fun _ => (refines_declaration hext).then fun _ => .refl _

private theorem refines_setAttr : Refines g g' (Follow [",", "WHERE", ";"]) (setAttr g) (setAttr g') :=
  (refines_identifier hext).then fun _ => (Lifts.refl _).then fun _ =>
    ((refines_expression hext).mono (follow_mono (by decide))).bind (fun _ => opens_pure _ fun _ h => h) fun _ =>
    .refl _

/-- An update of the one grammar is one of the other up to the semicolon. -/
private theorem refines_update : Refines g g' (Follow [";"]) (update g) (update g') := by
  have hlist : Refines g g' (Follow ["WHERE", ";"]) (setAttrList g) (setAttrList g') := by
    refine Lifts.bind (M := Follow ["WHERE", ";"]) ?_ (fun _ => opens_pure _ fun _ h => h) fun _ => .refl _
    exact refines_separated (B := [",", "WHERE", ";"]) (fun token h => keywordIn_of_exactly (by decide) token h)
      (misses_exactly (by decide)) (by decide) (refines_setAttr hext)
  refine (Lifts.refl _).then fun _ => (hext.takes _).then fun _ => (refines_identifier hext).then fun _ =>
    (Lifts.refl _).then fun _ => hlist.bind (fun _ => ?_) fun _ => ?_
  · exact (opens_optionalWhere (A := [";"]) (by decide) (by decide)).bind fun _ => opens_pure _ fun _ h => h
  · exact ((refines_optionalWhere hext).mono (follow_mono (by decide))).bind (fun _ => opens_pure _ fun _ h => h)
      fun _ => .refl _

private theorem refines_delete : Refines g g' (Follow [";"]) (delete g) (delete g') :=
  (Lifts.refl _).then fun _ => (Lifts.refl _).then fun _ => (refines_identifier hext).then fun _ =>
    ((refines_optionalWhere hext).mono (follow_mono (by decide))).bind (fun _ => opens_pure _ fun _ h => h) fun _ =>
    .refl _

private theorem refines_insertColumns :
    Refines g g' (Follow ["VALUES", "SELECT"]) (insertColumns g) (insertColumns g') := by
  refine .sup ((Lifts.refl _).then fun _ => (hext.takes _).then fun _ => ?_) (refines_stop (misses_keyword (by decide))
    (opens_pure _ fun _ h => h) (.refl _))
  exact (refines_identifierList hext (A := [")"]) _ (by decide)).bind (fun _ => opens_sign (by decide) _)
    fun _ => .refl _

omit hext

private theorem refines_statement {rule rule' : Rule} (h : Refines g g' (Follow [";"]) rule rule') :
    Refines g g' (Follow [";"]) (statement rule) (statement rule') :=
  h.bind (fun _ => opens_pure _ fun _ h => h) fun _ => .refl _

/-- The words a query starts with, where it is none of the statements. -/
theorem opens_selectionQuery : Opens F (Next (keywordIn ["MASTER", "WITH", "SELECT"])) (selectionQuery g) := by
  refine Opens.bind (M := Next (keywordIn ["WITH", "SELECT"])) (opens_optional ?_ fun _ h => h.mono ?_) fun _ =>
    Opens.bind (M := Next (keywordIn ["SELECT"])) (opens_optional ?_ fun _ h => h.mono ?_) fun _ => ?_
  · exact (startsWith_token _).bind.bind.next (keywordIn_of_keyword (by decide))
  · exact keywordIn_mono (by decide)
  · exact (startsWith_token _).bind.bind.next (keywordIn_of_keyword (by decide))
  · exact keywordIn_mono (by decide)
  · exact (selection_startsWith g).bind.next (keywordIn_of_keyword (by decide))

/-- An alternative to rules that start with other words. -/
theorem refines_alternative {α : Type} {w : String} {A : List String} {rule rule' : Gram Str α}
    {K K' : Unit → Gram Str α} (hapart : Apart A w) (hstart : rule.StartsWith (keyword w))
    (hrule : Refines g g' F rule rule')
    (hK : Opens F (Next (keywordIn A)) (K ()) ∧ Refines g g' F (K ()) (K' ())) :
    Opens F (Next (keywordIn (w :: A))) (rule ⊔ (stopAt g (keyword w) >>= K)) ∧
      Refines g g' F (rule ⊔ (stopAt g (keyword w) >>= K)) (rule' ⊔ (stopAt g' (keyword w) >>= K')) := by
  obtain ⟨hopens, hK⟩ := hK
  refine ⟨?_, .sup hrule (refines_stop (misses_next (keywordIn_apart hapart)) hopens hK)⟩
  refine (hstart.next (keywordIn_of_keyword List.mem_cons_self)).sup (opens_stop_bind fun used a rest h hrest => ?_)
  exact (hopens used a rest h hrest).mono (keywordIn_mono (List.subset_cons_self _ _))

private theorem refines_queryEnd : Refines g g' (Follow [";"]) (queryEnd g) (queryEnd g') :=
  lifts_stop (fun h => h) (misses_keyword (by decide))

/-- The statements all end with the check of the next token. -/
theorem opens_queryEnd {α : Type} (a : α) : Opens (Follow [";"]) (Follow [";"]) (queryEnd g >>= fun _ => pure a) :=
  opens_stop_bind (opens_pure _ fun _ h => h)

private theorem refines_end {α : Type} (a : α) :
    Refines g g' (Follow [";"]) (queryEnd g >>= fun _ => pure a) (queryEnd g' >>= fun _ => pure a) :=
  refines_queryEnd.bind (fun _ => opens_pure _ fun _ h => h) fun _ => .refl _

include hext

/-- A partition of the one grammar is one of the other in front of a window. -/
private theorem refines_optionalPartition :
    Refines g g' (Follow ["ROWS", "RANGE"]) (optionalPartition g) (optionalPartition g') := by
  refine .sup ((Lifts.refl _).then fun _ => (hext.takes _).then fun _ => Lifts.then (hext.formed _ (.refl _))
    fun _ => ?_)
    (refines_stop ?_ (opens_pure _ fun _ h => h) (.refl _))
  · exact ((refines_selectList hext).mono (follow_mono (by decide))).bind (fun _ => opens_pure _ fun _ h => h)
      fun _ => .refl _
  · refine misses_before fun token h => ?_
    have hnot := keywordIn_apart (w := "PARTITION") (by decide) token h
    have hnot' := keywordIn_apart (w := "partition") (by decide) token h
    simp [isPartition, exactly_eq_false hnot, exactly_eq_false hnot']

private theorem refines_sortClause : Refines g g' F (sortClause g) (sortClause g') :=
  Lifts.then (hext.formed _ (.refl _)) fun _ => (refines_number hext).then fun _ => (Lifts.refl _).then fun _ =>
    Lifts.then (hext.formed _ (.refl _)) fun _ => .refl _

/-- The bounds of a window are the same in both grammars up to the comma or bracket behind them. -/
private theorem refines_windowBounds (type : Str) :
    Refines g g' (Follow [",", "]"]) (windowBounds g type) (windowBounds g' type) := by
  unfold windowBounds
  split
  · refine (refines_number hext).then fun size => .sup ((Lifts.refl _).then fun _ => (hext.takes _).then fun _ =>
      (refines_sortClause hext).then fun _ => .refl _) (refines_stop ?_ (opens_pure _ fun _ h => h) (.refl _))
    refine misses_before fun token h => ?_
    have hnot := keywordIn_apart (w := "sort") (by decide) token h
    have hnot' := keywordIn_apart (w := "SORT") (by decide) token h
    simp [isSort, exactly_eq_false hnot, exactly_eq_false hnot']
  split
  · exact (refines_number hext).then fun _ => .refl _
  · exact .refl _

private theorem refines_window : Refines g g' (Follow [",", "]"]) (window g) (window g') :=
  (Lifts.refl _).then fun _ => (refines_windowBounds hext _).bind (fun _ => opens_pure _ fun _ h => h)
    fun _ => .refl _

/-- The windows of the two grammars are the same, whatever comes behind them. -/
private theorem refines_tableWindow (tablename : ParseTreeNode) :
    Refines g g' F (tableWindow g tablename) (tableWindow g' tablename) := by
  have hclose : ∀ rest, Next (exactly "]") rest → Follow [",", "]"] rest := fun rest h =>
    h.before.mono (keywordIn_of_exactly (by decide))
  refine (refines_optionalPartition hext).bind (fun _ => window_startsWith.bind.before fun _ h => h) fun _ => ?_
  refine (refines_window hext).bind ?_ fun windowTree => (hext.takes _).then fun _ => ?_
  · intro windowTree
    refine opens_takes ?_
    refine Opens.bind (M := Next (exactly "]")) (Opens.sup (opens_sign (by decide) _) ?_) fun _ =>
      (sign_startsWith "]").bind.next fun _ h => h
    exact opens_stop_bind (opens_pure _ hclose)
  · refine Lifts.bind (M := Next (exactly "]")) ?_ (fun _ => (sign_startsWith "]").bind.next fun _ h => h)
      fun _ => .refl _
    refine .sup ((Lifts.refl _).then fun _ => (refines_hierarchy hext).bind (fun _ => opens_pure _ fun _ h => h)
      fun _ => .refl _) (refines_stop ?_ (opens_pure _ fun _ h => h) (.refl _))
    refine misses_next fun token h => ?_
    obtain rfl : token = "]".toList := by simpa [exactly] using h
    decide

/-- What may stand behind a table. -/
def afterTable : List String :=
  ["AS", ",", ")", "WHERE", "UNION", ";"]

/-- A table of the one grammar is one of the other, where its subqueries are. -/
private theorem refines_table {rule rule' : Rule} (h : Refines g g' (Follow afterSubquery) rule rule') :
    Refines g g' (Follow afterTable) (table g rule) (table g' rule') := by
  refine .sup ((Lifts.refl _).then fun _ => ?_) (refines_stop (M := Next isIdentifier) ?_ ?_ ?_)
  · exact h.bind (fun _ => opens_sign (by decide) _) fun _ => .refl _
  · refine misses_next fun token hidentifier => ?_
    by_contra hparen
    obtain rfl : token = "(".toList := by simpa [exactly] using hparen
    revert hidentifier
    decide +kernel
  · exact (identifier_startsWith g).bind.next fun _ h => h
  · refine (refines_identifier hext).then fun tablename =>
      .sup ?_ (refines_stop ?_ (opens_pure _ fun _ h => h) (.refl _))
    · exact (Lifts.refl _).then fun _ => refines_tableWindow hext tablename
    · exact misses_exactly (by decide)

private theorem refines_fromClause {rule rule' : Rule} (h : Refines g g' (Follow afterSubquery) rule rule') :
    Refines g g' (Follow ("WHERE" :: afterSubquery)) (fromClause g rule) (fromClause g' rule') := by
  refine (Lifts.refl _).then fun _ => Lifts.bind (M := Follow ("WHERE" :: afterSubquery)) ?_
    (fun _ => opens_pure _ fun _ h => h) fun _ => .refl _
  refine Lifts.bind (M := Follow ("WHERE" :: afterSubquery)) ?_ (fun _ => opens_pure _ fun _ h => h)
    fun _ => .refl _
  refine refines_separated (B := "," :: "WHERE" :: afterSubquery)
    (fun token h => keywordIn_of_exactly (by decide) token h) (misses_exactly (by decide)) (by decide) ?_
  exact refines_rename hext _ (by decide) (by decide) (by decide) (refines_table hext h)

private theorem refines_subqueryRule {rule rule' : Rule} (h : Refines g g' (Follow afterSubquery) rule rule') :
    Refines g g' (Follow afterSubquery) (subqueryRule g rule) (subqueryRule g' rule') := by
  refine (refines_select hext).bind (fun _ => ?_) fun _ => ?_
  · exact (startsWith_token _).bind.bind.before fun token h => keywordIn_of_keyword (w := "FROM") (by decide) token h
  refine (refines_fromClause hext h).bind (fun _ => ?_) fun _ => ?_
  · exact (opens_optionalWhere (by decide) (by decide)).bind fun _ => opens_pure _ fun _ h => h
  · exact (refines_optionalWhere hext).bind (fun _ => opens_pure _ fun _ h => h) fun _ => .refl _

private theorem refines_subquery : Refines g g' (Follow afterSubquery) (subquery g) (subquery g') :=
  lifts_lfp _ _ fun _ _ h => refines_subqueryRule hext h

/-- A selection of the one grammar is one of the other. -/
private theorem refines_selection : Refines g g' (Follow afterSelection) (selection g) (selection g') := by
  have hopens : ∀ subqueries, Opens (Follow afterSelection) (Follow afterSubquery)
      (While (g.longest = true) (isSymbol .UNION) (fun subqueries _ => do
        let next ← subquery g
        pure (subqueries ++ [next])) subqueries) := fun subqueries =>
    opens_while subqueries (fun token h => keywordIn_of_keyword (w := "UNION") (by decide) token h)
      (follow_mono (by decide))
  refine (refines_subquery hext).bind (fun first => ?_) fun first => ?_
  · exact (hopens []).bind fun _ => opens_pure _ fun _ h => h
  · refine Lifts.bind (M := Follow afterSelection) ?_ (fun _ => opens_pure _ fun _ h => h) fun _ => .refl _
    exact lifts_while [] (fun h => h) (misses_keyword (by decide)) hopens fun subqueries _ =>
      (refines_subquery hext).bind (fun _ => opens_pure _ fun _ h => h) fun _ => .refl _

private theorem refines_withRecursive : Refines g g' F (withRecursive g) (withRecursive g') := by
  refine (Lifts.refl _).then fun _ => (Lifts.refl _).then fun _ => (refines_identifier hext).then fun _ =>
    (Lifts.refl _).then fun _ => (Lifts.refl _).then fun _ => ?_
  refine Lifts.bind (M := Follow [")"]) ?_ (fun _ => ?_) fun _ => (hext.takes _).then fun _ => .refl _
  · exact refines_separated (B := afterSubquery)
      (fun token h => keywordIn_of_keyword (w := "UNION") (by decide) token h)
      (misses_keyword (by decide)) (by decide) (refines_subquery hext)
  · exact opens_takes (opens_sign (by decide) _)

private theorem refines_createStream : Refines g g' (Follow [";"]) (createStream g) (createStream g') := by
  refine (Lifts.refl _).then fun _ => (refines_declaration hext).then fun _ => ?_
  refine (refines_timer hext).bind (fun _ => ?_) fun _ => ?_
  · refine Opens.bind (M := Follow [";"]) (Opens.sup ?_ (opens_stop_bind (opens_pure _ (follow_mono (by decide)))))
      fun _ => opens_takes (opens_pure _ fun _ h => h)
    exact (fixClause_startsWith _).before (keywordIn_of_keyword (by decide))
  · exact (refines_startFix hext).bind (fun _ => opens_takes (opens_pure _ fun _ h => h))
      fun _ => (hext.takes _).then fun _ => .refl _

omit hext in
/-- The part of a form that the reading does not admit. -/
theorem refines_neither {α : Type} {form : Form} (h : ¬ g.admits form) {p : Str → Bool} {K K' : Unit → Gram Str α} :
    Refines g g' F (stopAt g p >>= fun _ => takes g (some form) >>= K)
      (stopAt g' p >>= fun _ => takes g' (some form) >>= K') := by
  rintro used a rest - ⟨u, b, v, rfl, -, hbot⟩
  rw [takes_bind_eq_bot h] at hbot
  exact hbot.elim

omit hext in
/-- A choice by the word in front refines a choice, if both of its sides do and the form without
either is not admitted. -/
private theorem refines_either {neither : Form} (hneither : ¬ g.admits neither) {s s' t t' : Rule}
    (hs : Refines g g' F s s')
    (ht : Refines g g' F t t') (hstart : t.StartsWith (keyword "TABLE")) :
    Refines g g' F (either g neither s t) (either g' neither s' t') := by
  refine .sup (hs.bind (fun _ => opens_pure _ fun _ h => h) fun _ => .refl _) ?_
  refine refines_stop (M := Next (keyword "TABLE")) (misses_next (keyword_ne (by decide))) ?_ ?_
  · refine (hstart.bind.next fun _ h => h).sup (opens_stop_bind ?_)
    rw [takes_bind_eq_bot hneither]
    exact fun _ _ _ h => h.elim
  · exact .sup (ht.bind (fun _ => opens_pure _ fun _ h => h) fun _ => .refl _) (refines_neither hneither)

private theorem refines_insertSource : Refines g g' (Follow [";"]) (insertSource g) (insertSource g') := by
  refine .sup ?_ (refines_stop (M := Next (keyword "SELECT")) (misses_next (keyword_ne (by decide))) ?_ ?_)
  · exact (Lifts.refl _).then fun _ => (Lifts.refl _).then fun _ =>
      (refines_valueList hext).bind (fun _ => opens_sign (by decide) _) fun _ => .refl _
  · refine ((selection_startsWith g).bind.next fun _ h => h).sup (opens_stop_bind ?_)
    rw [takes_bind_eq_bot (hext.complete _ (by decide))]
    exact fun _ _ _ h => h.elim
  · refine .sup (Lifts.bind ((refines_selection hext).mono (follow_mono (by decide)))
      (fun _ => opens_pure _ fun _ h => h) fun _ => .refl _) (refines_neither (hext.complete _ (by decide)))

private theorem insertSource_startsWith : (insertSource g).StartsWith (keywordIn ["VALUES", "SELECT"]) := by
  rintro used trees rest (h | ⟨u, a, v, rfl, ⟨rfl, -⟩, h⟩)
  · obtain ⟨token, hhead, htoken⟩ := (startsWith_token _).bind used trees rest h
    exact ⟨token, hhead, keywordIn_of_keyword (by decide) token htoken⟩
  rcases h with h | ⟨u, a, w, rfl, -, h⟩
  · obtain ⟨token, hhead, htoken⟩ := (selection_startsWith g).bind v trees rest h
    exact ⟨token, hhead, keywordIn_of_keyword (by decide) token htoken⟩
  · rw [takes_bind_eq_bot (hext.complete _ (by decide))] at h
    exact h.elim

private theorem refines_insert : Refines g g' (Follow [";"]) (insert g) (insert g') := by
  refine (Lifts.refl _).then fun _ => (Lifts.refl _).then fun _ => (refines_identifier hext).then fun _ => ?_
  refine (refines_insertColumns hext).bind (fun _ => (insertSource_startsWith hext).bind.before fun _ h => h)
    fun _ => ?_
  exact (refines_insertSource hext).bind (fun _ => opens_pure _ fun _ h => h) fun _ => .refl _

/-- A query that selects is the same in both grammars up to the semicolon. -/
private theorem refines_selectionQuery : Refines g g' (Follow [";"]) (selectionQuery g) (selectionQuery g') := by
  have hwith : Opens (Follow [";"]) (Follow ["SELECT"]) (selection g >>= fun tree => queryEnd g >>= fun _ =>
      (pure tree : Rule)) := (selection_startsWith g).bind.before (keywordIn_of_keyword (by decide))
  refine Lifts.bind (M := Follow ["WITH", "SELECT"]) ?_ (fun _ => ?_) fun _ => ?_
  · exact refines_optional (misses_keyword (by decide)) (refines_master hext)
  · refine Opens.bind (M := Follow ["SELECT"]) (opens_optional
      ((startsWith_token _).bind.bind.before (keywordIn_of_keyword (by decide))) (follow_mono (by decide))) fun _ => ?_
    exact (selection_startsWith g).bind.before (keywordIn_of_keyword (by decide))
  refine Lifts.bind (M := Follow ["SELECT"]) ?_ (fun _ => ?_) fun _ => ?_
  · exact refines_optional (misses_keyword (by decide)) (refines_withRecursive hext)
  · exact (selection_startsWith g).bind.before (keywordIn_of_keyword (by decide))
  exact ((refines_selection hext).mono (follow_mono (by decide))).bind (fun _ => opens_queryEnd _)
    fun _ => refines_end _

private theorem refines_createQuery : Refines g g' (Follow [";"]) (createQuery g) (createQuery g') :=
  (Lifts.refl _).then fun _ => (refines_either (hext.complete _ (by decide)) (refines_createStream hext)
    (refines_createTable hext) (startsWith_token _).bind).bind (fun _ => opens_queryEnd _) fun _ => refines_end _

private theorem refines_drop (w : String) (s : Symbol) : Refines g g' F (drop g w s) (drop g' w s) :=
  (Lifts.refl _).then fun _ => (refines_identifier hext).then fun _ => .refl _

private theorem refines_dropQuery : Refines g g' (Follow [";"]) (dropQuery g) (dropQuery g') :=
  (Lifts.refl _).then fun _ => (refines_either (hext.complete _ (by decide)) (refines_drop hext _ _)
    (refines_drop hext _ _) (startsWith_token _).bind).bind
    (fun _ => opens_queryEnd _) fun _ => refines_end _

/-- A query read in one way is read in another: always where the other way is
not the longer one, and before `;` and at the end also where it is. -/
theorem refines_query : Refines g g' (Follow [";"]) (query g) (query g') := by
  refine (refines_alternative (A := ["DROP", "UPDATE", "DELETE", "INSERT", "MASTER", "WITH", "SELECT"])
    (by decide) ?_ (refines_createQuery hext) ?_).2
  · exact (startsWith_token _).bind
  refine refines_alternative (by decide) ?_ (refines_dropQuery hext) ?_
  · exact (startsWith_token _).bind
  refine refines_alternative (by decide) ?_ (refines_statement (refines_update hext)) ?_
  · exact (startsWith_token _).bind.bind
  refine refines_alternative (by decide) ?_ (refines_statement (refines_delete hext)) ?_
  · exact (startsWith_token _).bind.bind
  refine refines_alternative (by decide) ?_ (refines_statement (refines_insert hext)) ?_
  · exact (startsWith_token _).bind.bind
  exact ⟨opens_selectionQuery, refines_selectionQuery hext⟩

end Grammar

end IS

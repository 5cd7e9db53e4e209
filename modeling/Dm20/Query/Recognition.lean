import Dm20.Lib.Except
import Dm20.Query.Grammar

namespace IS

open Descent LeafNode QueryParser

namespace Grammar

/-- The longest reading with some of the forms. -/
def longest (forms : Form → Prop) : Reading where
  longest := true
  admits := forms

/-- How the parser reads the grammar. -/
def parsed : Reading :=
  longest fun _ => True

/-- The parser recognizes a rule up to a bound on the tokens. -/
abbrev Recognizes {α : Type} (n : Nat) (p : Parse α) (G : Gram Str α) : Prop :=
  Implements ParseError.outOfFuel n p G

variable {n : Nat}

private theorem leafNode_ne_outOfFuel (token : Str) : leafNode token ≠ .error .outOfFuel := by
  unfold leafNode
  split <;> simp

private theorem checkedLeaf_eq_ok {check : Str → Bool} {refused : Str → ParseError} {token : Str}
    {tree : ParseTreeNode} :
    checkedLeaf check refused token = .ok tree ↔ check token = true ∧ leafNode token = .ok tree := by
  unfold checkedLeaf
  cases leafNode token with
  | error e => simp [bind, Except.bind]
  | ok leaf => by_cases hcheck : check token = true <;> simp [bind, Except.bind, pure, Except.pure, hcheck]

private theorem checkedLeaf_ne_outOfFuel {check : Str → Bool} {refused : Str → ParseError} {token : Str}
    (hrefused : refused token ≠ .outOfFuel) : checkedLeaf check refused token ≠ .error .outOfFuel := by
  have hleaf := leafNode_ne_outOfFuel token
  unfold checkedLeaf
  cases h : leafNode token with
  | error e => simpa [bind, Except.bind, h] using hleaf
  | ok leaf =>
    by_cases hcheck : check token = true <;>
      simp [bind, Except.bind, pure, Except.pure, hcheck, hrefused]

/-- A leaf is read exactly if its token passes the check and is a leaf of a known kind. -/
private theorem textLeaf_eq_ok {check : Str → Bool} {refused : Str → ParseError} {token : Str}
    {result : Str × ParseTreeNode} :
    QueryParser.textLeaf check refused token = .ok result ↔
      token = result.1 ∧ check token = true ∧ leafNode token = .ok result.2 := by
  obtain ⟨text, leaf⟩ := result
  simp only [QueryParser.textLeaf, Except.map_eq_ok_iff, checkedLeaf_eq_ok, Prod.mk.injEq]
  constructor
  · rintro ⟨leaf', ⟨hcheck, hleaf⟩, rfl, rfl⟩
    exact ⟨rfl, hcheck, hleaf⟩
  · rintro ⟨rfl, hcheck, hleaf⟩
    exact ⟨leaf, ⟨hcheck, hleaf⟩, rfl, rfl⟩

private theorem textLeaf_ne_outOfFuel {check : Str → Bool} {refused : Str → ParseError} {token : Str}
    (hrefused : refused token ≠ .outOfFuel) :
    QueryParser.textLeaf check refused token ≠ .error .outOfFuel := fun h =>
  checkedLeaf_ne_outOfFuel hrefused (Except.map_eq_error_iff.mp h)

private theorem parseException_ne_outOfFuel (msg : String) : parseException msg ≠ .outOfFuel := by
  simp [parseException]

private theorem formed_parsed {α : Type} (form : List Str → Option Form) (G : Gram Str α) :
    formed parsed form G = G := by
  funext used result rest
  exact propext ⟨fun h => h.1, fun h => ⟨h, fun _ _ => trivial⟩⟩

private theorem takes_bind {α : Type} (form : Option Form) (K : Unit → Gram Str α) : takes parsed form >>= K = K () :=
  Gram.guard_bind (fun _ _ => trivial) K

private theorem recognizes_formed {α : Type} {form : List Str → Option Form} {p : Parse α} {G : Gram Str α}
    (h : Recognizes n p G) : Recognizes n p (formed parsed form G) := by
  rwa [formed_parsed]

private theorem recognizes_takes {α : Type} {form : Option Form} {p : Parse α} {K : Unit → Gram Str α}
    (h : Recognizes n p (K ())) : Recognizes n p (takes parsed form >>= K) := by
  rwa [takes_bind]

private theorem leaf_eq (check : Str → Bool) (refused : Str → ParseError) :
    leaf check = Gram.lexeme (checkedLeaf check refused) := by
  funext used tree rest
  simp only [leaf, Gram.lexeme, checkedLeaf_eq_ok]

private theorem recognizes_leaf {check : Str → Bool} {refused : Str → ParseError} {empty : ParseError}
    (hempty : empty ≠ .outOfFuel) (hrefused : ∀ token, refused token ≠ .outOfFuel) :
    Recognizes n (Parser.lexeme (checkedLeaf check refused) empty) (leaf check) := by
  rw [leaf_eq check refused]
  exact .lexeme hempty fun token => checkedLeaf_ne_outOfFuel (hrefused token)

private theorem recognizes_leafToken {check : Str → Bool} {empty refused : ParseError}
    (hempty : empty ≠ .outOfFuel) (hrefused : refused ≠ .outOfFuel) :
    Recognizes n (leafToken check empty refused) (leaf check) :=
  recognizes_leaf hempty fun _ => hrefused

private theorem recognizes_identifier : Recognizes n parseIdentifier (identifier parsed) :=
  recognizes_formed (recognizes_leaf (parseException_ne_outOfFuel _) (by simp))

private theorem recognizes_number {empty refused : ParseError} (hempty : empty ≠ .outOfFuel)
    (hrefused : refused ≠ .outOfFuel) :
    Recognizes n (leafToken isNumber empty refused) (number parsed) :=
  recognizes_formed (recognizes_leafToken hempty hrefused)

private theorem recognizes_sign {s : String} {msg : String} :
    Recognizes n (Parser.expect (exactly s) (parseException msg)) (sign s) :=
  .expect (parseException_ne_outOfFuel msg)

private theorem recognizes_symbol {s : Symbol} {msg : String} :
    Recognizes n (Parser.expect (isSymbol s) (parseException msg)) (symbol s) :=
  .expect (parseException_ne_outOfFuel msg)

private theorem recognizes_word {s : String} {msg : String} :
    Recognizes n (Parser.expect (keyword s) (parseException msg)) (word s) :=
  .expect (parseException_ne_outOfFuel msg)

private theorem recognizes_doWhile {separator : Str → Bool} {item : Parse ParseTreeNode} {rule : Rule}
    (h : Recognizes n item rule) :
    Recognizes n (doWhile n separator item) (separated parsed separator rule) :=
  h.bind fun _ => .whileToken rfl
    (fun _ _ => (h.mono (Nat.sub_le n 1)).bind fun _ => .pure _) _

private theorem recognizes_arrayText (token : Str) : Recognizes n (arrayText n token) (array parsed token) :=
  recognizes_formed <| .bind (.whileToken rfl (fun _ _ => .pure _) _) fun _ => recognizes_sign.bind fun _ => .pure _

private theorem recognizes_anyToken {empty : ParseError} (hempty : empty ≠ .outOfFuel) :
    Recognizes n (Parser.lexeme pure empty) anyToken :=
  .lexeme_of_iff hempty (by simp [pure, Except.pure]) (by simp [anyToken, pure, Except.pure])

private theorem recognizes_operandText :
    Recognizes (n + 1) (QueryParser.operandText n) (operandText parsed) := by
  refine .bind_consumes ?_ (recognizes_anyToken (parseException_ne_outOfFuel _)) fun token =>
    .ite (fun _ => recognizes_arrayText token) fun _ => .pure _
  rintro used token rest rfl
  simp

private theorem operandText_consumes (g : Reading) : (operandText g).Consumes := by
  rintro used text rest ⟨u, token, v, rfl, rfl, -⟩
  simp

/-- The loop over the operands of a formula recognizes the rule for them. -/
private theorem recognizes_formulaOperands (ope : Str) (formula : Str × ParseTreeNode) :
    Recognizes n (formulaOperands n ope formula) (operands parsed ope formula) := by
  refine .whileToken rfl (fun formula _ => recognizes_formed <|
    .lexeme_of_iff (by simp) (fun part => textLeaf_ne_outOfFuel (by simp)) ?_) formula
  intro used result rest
  simp only [textLeaf_eq_ok]
  constructor
  · rintro ⟨part, rfl, htext, hformula, hleaf⟩
    exact ⟨part, rfl, htext.symm, htext ▸ hformula, htext ▸ hleaf⟩
  · rintro ⟨part, rfl, htext, hformula, hleaf⟩
    exact ⟨part, rfl, htext.symm, htext ▸ hformula, htext ▸ hleaf⟩

private theorem recognizes_formula (operators : List Str) (result : Str × ParseTreeNode) :
    Recognizes n (parseFormula n operators result) (formula parsed operators result) := by
  induction operators generalizing result with
  | nil => exact .pure result
  | cons ope operators ih => exact .bind (recognizes_formulaOperands ope result) ih

private theorem recognizes_expressionList {p : Parse ParseTreeNode} {e : Rule} (h : Recognizes n p e) :
    Recognizes n (parseExpressionList n p) (expressionList parsed e) :=
  .bind (recognizes_doWhile h) fun _ => .pure _

private theorem recognizes_arguments {p : Parse ParseTreeNode} {e : Rule} (h : Recognizes n p e)
    (functionName : ParseTreeNode) :
    Recognizes n (parseArguments n p functionName) (arguments parsed e functionName) :=
  .accept rfl (.pure _) (.bind (recognizes_expressionList h) fun _ => recognizes_sign.bind fun _ => .pure _)

/-- A function name read again after it was put back. -/
theorem parseFunction_pushed {p : Parse ParseTreeNode} {token : Str} {tree : ParseTreeNode}
    (hidentifier : isIdentifier token = true) (hleaf : leafNode token = .ok tree) :
    (do
      Parser.pushToken "(".toList
      Parser.pushToken token
      parseFunction n p) = parseArguments n p tree := by
  have hname : checkedLeaf isIdentifier (fun token =>
      .parseException ("'".toList ++ token ++ "' is not an identifier".toList)) token = .ok tree :=
    checkedLeaf_eq_ok.mpr ⟨hidentifier, hleaf⟩
  funext ts
  have hparen : exactly "(" "(".toList = true := rfl
  simp only [Parser.bind_apply, Parser.pushToken, parseFunction, parseIdentifier, Parser.lexeme, hname,
    Except.map, Parser.expect, hparen, if_true]

/-- The code for an operand recognizes the rule for it, where the code for expressions does. -/
private theorem recognizes_operand {p : Parse ParseTreeNode} {e : Rule} {token : Str} {tree : ParseTreeNode}
    (h : Recognizes n p e) (hleaf : leafNode token = .ok tree) :
    Recognizes n (parseOperand n p token tree) (operand parsed e token tree) := by
  refine .ite (fun _ => recognizes_takes (.pure _)) fun _ => .ite (fun _ => recognizes_takes ?_) fun _ =>
    .ite (fun _ => .fail (by simp)) fun hid => recognizes_takes ?_
  · refine .bind (recognizes_formed <| .lexeme_of_iff (by simp)
      (fun digits => checkedLeaf_ne_outOfFuel (by simp [parseException])) ?_) fun _ => .pure _
    simp [checkedLeaf_eq_ok]
  · have hidentifier : isIdentifier token = true := by simpa using hid
    have hfunction : ∀ f : ParseTreeNode → Parse ParseTreeNode, (do
        Parser.pushToken "(".toList
        Parser.pushToken token
        let child ← parseFunction n p
        f child) = parseArguments n p tree >>= f := by
      intro f
      rw [← parseFunction_pushed hidentifier hleaf]
      rfl
    rw [hfunction]
    exact .accept rfl (.bind ((recognizes_arguments h tree).mono (Nat.sub_le n 1)) fun _ => .pure _)
      (.bind (recognizes_formula formulaOperators (token, tree)) fun _ => recognizes_takes (.pure _))

/-- The parser of expressions recognises the longest expression, at any bound of its recursion. -/
theorem recognizes_expression : Recognizes n (parseExpression n) (expression parsed) := by
  induction n with
  | zero => exact .outOfFuel
  | succ n ih =>
    rw [expression_eq]
    refine .accept rfl (.bind ih fun _ => recognizes_sign.bind fun _ => .pure _)
      (.bind_consumes (operandText_consumes parsed) recognizes_operandText fun token => ?_)
    exact .bind_lift (leafNode_ne_outOfFuel token) fun tree hleaf => recognizes_operand ih hleaf

private theorem expression_consumes (g : Reading) : (expression g).Consumes := by
  rw [expression_eq]
  exact (Gram.consumes_token _).bind.sup (Gram.Consumes.bind_right fun _ => (operandText_consumes g).bind)

private theorem selectList_consumes (g : Reading) : (selectList g).Consumes :=
  Gram.Consumes.bind (Gram.Consumes.bind (Gram.Consumes.bind (expression_consumes g)))

private theorem recognizes_rename {p : Parse ParseTreeNode} {rule : Rule} (s : Symbol) (h : Recognizes n p rule) :
    Recognizes n (parseRename s p) (rename parsed s rule) :=
  .bind h fun _ => .accept rfl (.bind recognizes_identifier fun _ => .pure _) (.pure _)

private theorem recognizes_selectList : Recognizes n (parseSelectList n) (selectList parsed) :=
  .bind (recognizes_doWhile (recognizes_rename _ recognizes_expression)) fun _ => .pure _

private theorem recognizes_select : Recognizes n (parseSelect n) (select parsed) := by
  refine .bind recognizes_symbol fun _ => .bind (.nonempty (by simp) ?_ ?_) fun _ => .pure _
  · exact (leaf_consumes _).sup (Gram.Consumes.bind_right fun _ => selectList_consumes parsed)
  · exact .peek rfl (leaf_startsWith isAsterisk)
      (recognizes_leafToken (parseException_ne_outOfFuel _) (parseException_ne_outOfFuel _)) recognizes_selectList

private theorem recognizes_anyLeaf {empty : ParseError} {form : List Str → Option Form} (hempty : empty ≠ .outOfFuel) :
    Recognizes n (Parser.lexeme leafNode empty) (formed parsed form (leaf fun _ => true)) := by
  refine recognizes_formed (.lexeme_of_iff hempty leafNode_ne_outOfFuel fun used tree rest => ?_)
  simp [leaf]

private theorem recognizes_partition : Recognizes n (parsePartition n) (optionalPartition parsed) := by
  refine .accept rfl (recognizes_takes <| .bind (recognizes_anyLeaf (by simp)) fun _ => .bind ?_ fun _ => .pure _)
    (.pure _)
  exact recognizes_selectList.mono (Nat.sub_le n 1)

private theorem recognizes_sortWords : Recognizes n parseSortWords (sortWords parsed) := by
  refine recognizes_formed <| .bind (recognizes_anyToken (parseException_ne_outOfFuel _)) fun byToken =>
    .bind (recognizes_anyToken (parseException_ne_outOfFuel _)) fun cost =>
      .bind (recognizes_anyToken (parseException_ne_outOfFuel _)) fun limit =>
        .lift_of_iff (checkedLeaf_ne_outOfFuel (parseException_ne_outOfFuel _)) fun used tree rest => ?_
  rw [checkedLeaf_eq_ok, sortLeaf]

private theorem recognizes_sort : Recognizes n parseSort (sortClause parsed) :=
  .bind recognizes_sortWords fun _ =>
    .bind (recognizes_number (parseException_ne_outOfFuel _) (parseException_ne_outOfFuel _)) fun _ =>
      .bind (recognizes_leafToken (parseException_ne_outOfFuel _) (parseException_ne_outOfFuel _)) fun _ =>
        .bind (recognizes_anyLeaf (parseException_ne_outOfFuel _)) fun _ => .pure _

private theorem recognizes_rows : Recognizes n parseRows (rows parsed) :=
  .bind (recognizes_number (by simp) (parseException_ne_outOfFuel _)) fun _ =>
    .accept rfl (recognizes_takes <| .bind recognizes_sort fun _ => .pure _) (.pure _)

private theorem recognizes_range : Recognizes n parseRange (range parsed) :=
  .bind (recognizes_number (by simp) (parseException_ne_outOfFuel _)) fun _ =>
    .bind (recognizes_leafToken (parseException_ne_outOfFuel _) (parseException_ne_outOfFuel _)) fun _ =>
      .pure _

/-- The code for a leaf recognizes the rule for it, unless it runs out of fuel. -/
private theorem recognizes_textLeaf {check : Str → Bool} {refused : Str → ParseError} {empty : ParseError}
    (hempty : empty ≠ .outOfFuel) (hrefused : ∀ token, refused token ≠ .outOfFuel) :
    Recognizes n (Parser.lexeme (QueryParser.textLeaf check refused) empty) (textLeaf check) := by
  refine .lexeme_of_iff hempty (fun token => textLeaf_ne_outOfFuel (hrefused token)) fun used result rest => ?_
  simp only [textLeaf_eq_ok]
  constructor
  · rintro ⟨rfl, h⟩
    exact ⟨result.1, rfl, rfl, h⟩
  · rintro ⟨token, rfl, rfl, h⟩
    exact ⟨rfl, h⟩

/-- The bounds of a window take one token at least. -/
private theorem windowBounds_consumes (g : Reading) (type : Str) : (windowBounds g type).Consumes := by
  unfold windowBounds
  by_cases hrows : iequals type "ROWS".toList = true
  · rw [if_pos hrows]
    exact (number_consumes g).bind
  rw [if_neg hrows]
  by_cases hrange : iequals type "RANGE".toList = true
  · rw [if_pos hrange]
    exact (number_consumes g).bind
  · rw [if_neg hrange]
    exact fun _ _ _ h => h.elim

private theorem recognizes_window : Recognizes n parseWindow (window parsed) := by
  refine .bind (recognizes_textLeaf (by simp) fun _ => parseException_ne_outOfFuel _) fun type =>
    .bind (.nonempty (parseException_ne_outOfFuel _) (windowBounds_consumes parsed type.1) ?_) fun _ => .pure _
  exact .ite (fun _ => recognizes_rows) fun _ => .ite (fun _ => recognizes_range) fun _ => .fail (by simp)

/-- A token behind `NEARBY` that is no number is put back, and is no part of the hierarchy. -/
theorem recognizes_nearby : Recognizes n parseNearby (nearby parsed) where
  sound := by
    intro ts result rest h
    cases ts with
    | nil => cases h
    | cons token ts =>
      obtain ⟨tree, hleaf, h⟩ := Except.bind_eq_ok_iff.mp h
      by_cases hnumber : isNumber token = true
      · rw [if_pos hnumber] at h
        cases h
        exact ⟨[token], rfl, Or.inl ⟨[token], tree, [], rfl, ⟨⟨token, rfl, hnumber, hleaf⟩, fun _ _ => trivial⟩,
          rfl, rfl⟩⟩
      · rw [if_neg hnumber] at h
        cases h
        exact ⟨[], rfl, Or.inr ⟨rfl, rfl, fun _ => ⟨token, by simp, by simpa using hnumber, tree, hleaf⟩⟩⟩
  complete := by
    rintro used result rest (⟨u, tree, v, rfl, ⟨⟨token, rfl, hnumber, hleaf⟩, -⟩, rfl, rfl⟩ | ⟨rfl, rfl, hnext⟩) _
    · simp [parseNearby, hleaf, hnumber, bind, Except.bind]
    · obtain ⟨token, htoken, hnumber, tree, hleaf⟩ := hnext rfl
      cases rest with
      | nil => simp at htoken
      | cons token' rest =>
        obtain rfl : token' = token := by simpa using htoken
        simp [parseNearby, hleaf, hnumber, bind, Except.bind]
  total := by
    intro ts _ h
    cases ts with
    | nil => cases h
    | cons token ts =>
      rcases Except.bind_eq_error_iff.mp h with h | ⟨tree, -, h⟩
      · exact leafNode_ne_outOfFuel token h
      · split at h <;> cases h

private theorem recognizes_hierarchy : Recognizes n parseHierarchy (hierarchy parsed) :=
  .bind (recognizes_formed (recognizes_textLeaf (parseException_ne_outOfFuel _) fun _ => parseException_ne_outOfFuel _))
    fun _ => .ite (fun _ => .bind recognizes_nearby fun _ => .pure _) fun _ => .pure _

private theorem recognizes_tableWindow (tablename : ParseTreeNode) :
    Recognizes n (parseTableWindow n tablename) (tableWindow parsed tablename) := by
  refine .bind recognizes_partition fun partition => .bind recognizes_window fun windowTree => recognizes_takes ?_
  exact .bind (.accept rfl (.bind recognizes_hierarchy fun _ => .pure _) (.pure _)) fun _ =>
    recognizes_sign.bind fun _ => .pure _

private theorem tableWindow_consumes (g : Reading) (tablename : ParseTreeNode) :
    (tableWindow g tablename).Consumes :=
  Gram.Consumes.bind_right fun _ => Gram.Consumes.bind (Gram.Consumes.bind fun used type rest h => by
    obtain ⟨rfl, -⟩ := h
    simp)

private theorem recognizes_identifierOr {msg : String} :
    Recognizes n (Parser.nonempty (parseException msg) parseIdentifier) (identifier parsed) :=
  .nonempty (parseException_ne_outOfFuel msg) (identifier_consumes parsed) recognizes_identifier

private theorem recognizes_table {p : Parse ParseTreeNode} {rule : Rule} (h : Recognizes (n - 1) p rule) :
    Recognizes n (parseTable n p) (table parsed rule) := by
  refine .accept rfl (.bind h fun _ => recognizes_sign.bind fun _ => .pure _)
    (.bind recognizes_identifierOr fun tablename => .accept rfl ?_ (.pure _))
  exact .nonempty (parseException_ne_outOfFuel _) (tableWindow_consumes parsed tablename)
    ((recognizes_tableWindow tablename).mono (Nat.sub_le n 1))

private theorem recognizes_from {p : Parse ParseTreeNode} {rule : Rule} (h : Recognizes (n - 1) p rule) :
    Recognizes n (parseFrom n p) (fromClause parsed rule) :=
  .bind recognizes_symbol fun _ =>
    .bind (.bind (recognizes_doWhile (recognizes_rename _ (recognizes_table h))) fun _ => .pure _) fun _ => .pure _

private theorem recognizes_predicate : Recognizes n (parsePredicate n) (predicate parsed) :=
  .bind recognizes_expression fun _ =>
    .bind (recognizes_leaf (parseException_ne_outOfFuel _) (by simp)) fun _ =>
      .bind recognizes_expression fun _ => .pure _

private theorem recognizes_where : Recognizes n (parseWhere n) (whereClause parsed) :=
  .bind recognizes_symbol fun _ =>
    .bind (.bind (recognizes_doWhile recognizes_predicate) fun _ => .pure _) fun _ => .pure _

private theorem recognizes_optional {p : Parse ParseTreeNode} {rule : Rule} {start : Str → Bool}
    (hstart : rule.StartsWith start) (h : Recognizes n p rule) :
    Recognizes n (Parser.peek start >>= fun found => if found then p >>= fun tree => pure [tree] else pure [])
      (optional parsed start rule) :=
  .peek rfl hstart.bind (.bind h fun _ => .pure _) (.pure _)

theorem whereClause_startsWith (g : Reading) : (whereClause g).StartsWith (keyword "WHERE") :=
  (Gram.startsWith_token _).bind

private theorem recognizes_optionalWhere : Recognizes n (parseOptionalWhere n) (optionalWhere parsed) :=
  recognizes_optional (whereClause_startsWith parsed) recognizes_where

/-- The parser of subqueries recognises the longest subquery, at any bound of its recursion. -/
theorem recognizes_subquery : Recognizes n (parseSubquery n) (subquery parsed) := by
  induction n with
  | zero => exact .outOfFuel
  | succ n ih =>
    rw [subquery_eq]
    exact .bind recognizes_select fun _ => .bind (recognizes_from ih) fun _ =>
      .bind recognizes_optionalWhere fun _ => .pure _

private theorem recognizes_selection : Recognizes n (parseSelection n) (selection parsed) :=
  .bind recognizes_subquery fun _ => .bind
    (.whileToken rfl (fun _ _ => .bind (recognizes_subquery.mono (Nat.sub_le n 1)) fun _ => .pure _) _) fun _ =>
      .pure _

private theorem recognizes_identifierList (s : Symbol) :
    Recognizes n (doWhile n (exactly ",") parseIdentifier >>= fun identifiers => pure (.node s identifiers))
      (identifierList parsed s) :=
  .bind (recognizes_doWhile recognizes_identifier) fun _ => .pure _

private theorem recognizes_master : Recognizes n (parseMaster n) (master parsed) :=
  .bind recognizes_symbol fun _ => .bind (recognizes_identifierList .MASTER_LIST) fun _ => .pure _

private theorem recognizes_withRecursive : Recognizes n (parseWithRecursive n) (withRecursive parsed) := by
  refine .bind recognizes_word fun _ => .bind recognizes_word fun _ => .bind recognizes_identifierOr fun name =>
    .bind recognizes_word fun _ => .bind recognizes_sign fun _ =>
      .bind (recognizes_doWhile recognizes_subquery) fun subqueries => recognizes_takes ?_
  exact .bind recognizes_sign fun _ => .pure _

private theorem recognizes_value : Recognizes n parseValueAttr (value parsed) :=
  recognizes_formed (recognizes_leaf (parseException_ne_outOfFuel _) (by simp))

private theorem recognizes_valueList : Recognizes n (parseValueAttrList n) (valueList parsed) :=
  .bind (recognizes_doWhile recognizes_value) fun _ => .pure _

private theorem recognizes_tableAttr : Recognizes n parseTableAttr (tableAttr parsed) :=
  .bind recognizes_identifier fun _ => .bind recognizes_identifier fun _ =>
    .bind (recognizes_optional (Gram.startsWith_token _).bind
      (.bind recognizes_word fun _ => .bind recognizes_value fun _ => .pure _)) fun _ => .pure _

private theorem recognizes_declaration : Recognizes n (parseDeclaration n) (declaration parsed) :=
  .bind recognizes_identifierOr fun _ => .bind recognizes_sign fun _ =>
    .bind (.bind (recognizes_doWhile recognizes_tableAttr) fun _ => .pure _) fun _ =>
      .bind recognizes_sign fun _ => .pure _

/-- A clause that the parser enters at a keyword and reads as an identifier. -/
theorem recognizes_bracketed {α β : Type} {p : Parse α} {G : Gram Str α} (h : Recognizes n p G)
    (k : ParseTreeNode → α → β) :
    Recognizes n (do
        let word ← parseIdentifier
        Parser.expect (exactly "[") (parseException "'[' is expected")
        let part ← p
        Parser.expect (exactly "]") (parseException "']' is expected")
        pure (k word part))
      (do
        let wordTree ← identifier parsed
        sign "["
        let part ← G
        sign "]"
        pure (k wordTree part)) :=
  .bind recognizes_identifier fun _ => .bind recognizes_sign fun _ => .bind h fun _ =>
    .bind recognizes_sign fun _ => .pure _

private theorem recognizes_fix (name : String) {p : Parse (List ParseTreeNode)} {G : RuleList} (h : Recognizes n p G) :
    Recognizes n (Parser.peek (keyword name) >>= fun found => if found then parseFix else p)
      (fixClause parsed name ⊔ (stopAt parsed (keyword name) >>= fun _ => G)) :=
  .peek_starting rfl (identifier_consumes parsed).bind
    (recognizes_bracketed (recognizes_number (by simp) (parseException_ne_outOfFuel _)) fun word number =>
      [word, number]) h

private theorem recognizes_dateParts (k : Nat) : Recognizes n (parseDateParts k) (dateParts parsed k) := by
  induction k with
  | zero => exact .pure _
  | succ k ih =>
    exact .bind (recognizes_formed (recognizes_leafToken (parseException_ne_outOfFuel _)
      (parseException_ne_outOfFuel _))) fun _ => .bind ih fun _ => .pure _

private theorem recognizes_timer : Recognizes n parseTimer (timer parsed) :=
  recognizes_fix _ (.peek_starting rfl (identifier_consumes parsed).bind
    (recognizes_bracketed (.bind (recognizes_dateParts 5) fun _ => .pure _) fun word date => [word, date])
    (.pure _))

private theorem recognizes_start : Recognizes n parseStart (startFix parsed) :=
  recognizes_fix _ (.pure _)

private theorem recognizes_createStream : Recognizes n (parseCreateStream n) (createStream parsed) := by
  refine .bind recognizes_word fun _ => .bind recognizes_declaration fun _ => .bind recognizes_timer fun _ =>
    .bind recognizes_start fun _ => recognizes_takes ?_
  exact .pure _

private theorem recognizes_createTable : Recognizes n (parseCreateTable n) (createTable parsed) :=
  .bind recognizes_word fun _ => .bind recognizes_declaration fun _ => .pure _

/-- The choice by the word in front recognizes the choice of the rules. -/
private theorem recognizes_either {p q : Parse ParseTreeNode} {G H : Rule} (neither : Form)
    (hG : G.StartsWith (keyword "STREAM")) (hH : H.StartsWith (keyword "TABLE"))
    (hp : Recognizes n p G) (hq : Recognizes n q H) :
    Recognizes n (Parser.peek (keyword "STREAM") >>= fun found =>
        if found then p >>= fun tree => pure [tree] else
        Parser.peek (keyword "TABLE") >>= fun found =>
          if found then q >>= fun tree => pure [tree] else pure [])
      (either parsed neither G H) :=
  .peek rfl hG.bind (.bind hp fun _ => .pure _)
    (.peek rfl hH.bind (.bind hq fun _ => .pure _) (recognizes_takes (.pure _)))

private theorem recognizes_setAttr : Recognizes n (parseSetAttr n) (setAttr parsed) :=
  .bind recognizes_identifierOr fun _ => .bind recognizes_sign fun _ =>
    .bind (.nonempty (parseException_ne_outOfFuel _) (expression_consumes _) recognizes_expression) fun _ =>
      .pure _

private theorem recognizes_update : Recognizes n (parseUpdateTable n) (update parsed) :=
  .bind recognizes_word fun _ => recognizes_takes <| .bind recognizes_identifierOr fun _ =>
    .bind recognizes_word fun _ => .bind (.bind (recognizes_doWhile recognizes_setAttr) fun _ => .pure _) fun _ =>
      .bind recognizes_optionalWhere fun _ => .pure _

private theorem recognizes_delete : Recognizes n (parseDeleteTable n) (delete parsed) :=
  .bind recognizes_word fun _ => .bind recognizes_word fun _ => .bind recognizes_identifierOr fun _ =>
    .bind recognizes_optionalWhere fun _ => .pure _

private theorem recognizes_insertColumns : Recognizes n (parseInsertColumns n) (insertColumns parsed) :=
  .accept rfl (recognizes_takes <| .bind ((recognizes_identifierList .COLUMN_LIST).mono (Nat.sub_le n 1)) fun _ =>
    .bind recognizes_sign fun _ => .pure _) (.pure _)

private theorem recognizes_insertSource : Recognizes n (parseInsertSource n) (insertSource parsed) := by
  have hsource : (selection parsed).StartsWith fun _ => true := fun used tree rest h =>
    let ⟨token, htoken, _⟩ := selection_startsWith parsed used tree rest h
    ⟨token, htoken, rfl⟩
  refine .accept rfl (.bind recognizes_sign fun _ => .bind (recognizes_valueList.mono (Nat.sub_le n 1)) fun _ =>
    .bind recognizes_sign fun _ => .pure _) ?_
  exact .peek rfl hsource.bind (.bind recognizes_selection fun _ => .pure _) (recognizes_takes (.pure _))

private theorem recognizes_insert : Recognizes n (parseInsertInto n) (insert parsed) :=
  .bind recognizes_word fun _ => .bind recognizes_word fun _ => .bind recognizes_identifierOr fun _ =>
    .bind recognizes_insertColumns fun _ => .bind recognizes_insertSource fun _ => .pure _

private theorem recognizes_drop {name : String} {s : Symbol} {e : ParseError} (he : e ≠ .outOfFuel) :
    Recognizes n (do
        Parser.expect (keyword name) e
        let identifier ← Parser.nonempty (parseException "next token does not exist") parseIdentifier
        pure (.node s [identifier]))
      (drop parsed name s) :=
  .bind (.expect he) fun _ => .bind recognizes_identifierOr fun _ => .pure _

private theorem recognizes_end : Recognizes n checkEnd (queryEnd parsed) :=
  .refuse rfl (parseException_ne_outOfFuel _)

/-- The parser of the queries computes the grammar in its longest reading with every form. -/
theorem recognizes_query : Recognizes n (parseQueryTokens n) (query parsed) := by
  have hcreate :
      Recognizes n (parseCreate n) (either parsed .createNothing (createStream parsed) (createTable parsed)) :=
    recognizes_either _ (Gram.startsWith_token _).bind (Gram.startsWith_token _).bind recognizes_createStream
      recognizes_createTable
  have hdrop : Recognizes n parseDrop (either parsed .dropNothing (drop parsed "STREAM" .DROP_STREAM)
      (drop parsed "TABLE" .DROP_TABLE)) :=
    recognizes_either _ (Gram.startsWith_token _).bind (Gram.startsWith_token _).bind
      (recognizes_drop (parseException_ne_outOfFuel _)) (recognizes_drop (parseException_ne_outOfFuel _))
  have hmaster : Recognizes n (parseOptional "MASTER" (parseMaster n))
      (optional parsed (keyword "MASTER") (master parsed)) :=
    recognizes_optional (Gram.startsWith_token _).bind recognizes_master
  have hwith : Recognizes n (parseOptional "WITH" (parseWithRecursive n))
      (optional parsed (keyword "WITH") (withRecursive parsed)) :=
    recognizes_optional (Gram.startsWith_token _).bind recognizes_withRecursive
  refine .accept rfl ?_ (.accept rfl ?_ (.peek rfl ?_ ?_ (.peek rfl ?_ ?_ (.peek rfl ?_ ?_ ?_))))
  · exact .bind (hcreate.mono (Nat.sub_le n 1)) fun _ => .bind recognizes_end fun _ => .pure _
  · exact .bind (hdrop.mono (Nat.sub_le n 1)) fun _ => .bind recognizes_end fun _ => .pure _
  · exact (Gram.startsWith_token _).bind.bind
  · exact .bind recognizes_update fun _ => .pure _
  · exact (Gram.startsWith_token _).bind.bind
  · exact .bind recognizes_delete fun _ => .pure _
  · exact (Gram.startsWith_token _).bind.bind
  · exact .bind recognizes_insert fun _ => .pure _
  · exact .bind hmaster fun _ => .bind hwith fun _ => .bind recognizes_selection fun _ =>
      .bind recognizes_end fun _ => .pure _

end Grammar

end IS

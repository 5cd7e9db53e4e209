import Dm20.Query.Parser

namespace IS

open Descent LeafNode
open QueryParser (keyword isSymbol exactly iequals to_lower_copy isUnit isHierarchy isSortText formulaOperators)

/-- The forms of a query that the rules of the grammar do not have. The first eight are planned:
the comments of the parser or the kinds of tokens name them. The others pass for want of a check. -/
inductive Form where
  /-- a name with a `_` at its front or a `.` in it -/
  | name
  /-- operators behind a name -/
  | formula
  /-- a number with a sign as an expression -/
  | sign
  /-- an array of numbers or of strings as an expression -/
  | array
  /-- `UPDATE` without `TABLE` -/
  | update
  /-- the names of the columns of an `INSERT` -/
  | columns
  /-- the partition of a window by a select list -/
  | partition
  /-- the sort clause of a window -/
  | sort
  /-- `CREATE` of neither a stream nor a table -/
  | createNothing
  /-- `DROP` of neither a stream nor a table -/
  | dropNothing
  /-- `INSERT` without values and without a selection -/
  | insertNothing
  /-- `PARTITION` with another word than `BY` behind it -/
  | partitionBy
  /-- a partition before `RANGE` -/
  | partitionRange
  /-- `SEED` with another token than a number behind it -/
  | seed
  /-- `START_FIX` without `TIMER_FIX` -/
  | startFix
  /-- a recursive clause of one subquery -/
  | recursion
  /-- in the place of a number, a token that only begins like one of the standard library -/
  | number
  /-- in the place of a string, a quote alone -/
  | quote
  /-- in the place of an array, brackets around other tokens -/
  | brackets
  /-- in a formula, an operand that is neither a name nor a number -/
  | operand
  /-- the words behind `sort`, cut into other tokens -/
  | sortWords
deriving DecidableEq

def Form.planned : Form → Bool
  | .name | .formula | .sign | .array | .update | .columns | .partition | .sort => true
  | _ => false

/-- A way of reading the grammar. In the longest reading each optional or repeated
part is taken where it can be, as the parser does; otherwise the grammar is context
free. Beyond the rules it has the forms it admits. -/
structure Reading where
  longest : Bool
  admits : Form → Prop

namespace Grammar

/-- Digits with at most one point among them, and an exponent of digits. -/
def isNumeral (token : Str) : Bool :=
  let inMantissa := fun c : Char => c.isDigit || decide (c = '.')
  let mantissa := token.takeWhile inMantissa
  let exponent := token.dropWhile inMantissa
  mantissa.any Char.isDigit && decide (mantissa.count '.' ≤ 1) &&
    (exponent.isEmpty || decide (exponent.head?.map Char.toLower = some 'e') && !exponent.tail.isEmpty &&
      exponent.tail.all Char.isDigit)

/-- Two quotes of one kind and no quote between them. -/
def isQuoted (token : Str) : Bool :=
  isString token && decide (2 ≤ token.length) && token.tail.dropLast.all fun c => !Tokenizer.isStringSymbol c

/-- A letter, and behind it letters, digits and `_`. -/
def isPlainName : Str → Bool
  | [] => false
  | c :: s => c.isAlpha && s.all fun d => d.isAlphanum || decide (d = '_')

def numberForm (token : Str) : Option Form :=
  if isNumeral token then none else some .number

def stringForm (token : Str) : Option Form :=
  if isQuoted token then none else some .quote

def nameForm (token : Str) : Option Form :=
  if isPlainName token then none else some .name

def valueForm (token : Str) : Option Form :=
  if isNumber token then numberForm token else if isString token then stringForm token else none

/-- A name that the parser reads as a number, such as `info`, is a name all the same. -/
def literalForm (token : Str) : Option Form :=
  if isIdentifier token then nameForm token else valueForm token

def dateForm (token : Str) : Option Form :=
  if isAsterisk token then none else numberForm token

def seedForm (token : Str) : Option Form :=
  if isNumber token then numberForm token else some .seed

def partitionForm (token : Str) : Option Form :=
  if keyword "BY" token then none else some .partitionBy

/-- The form of an operand behind an operator. -/
def operandForm (token : Str) : Option Form :=
  if isIdentifier token then nameForm token else if isNumeral token then none else some .operand

def formulaForm (name text : Str) : Option Form :=
  if text = name then none else some .formula

/-- Tokens of a kind with commas between them. -/
def isListOf (check : Str → Bool) : List Str → Bool
  | [] => false
  | [token] => check token
  | token :: comma :: tokens => check token && exactly "," comma && isListOf check tokens

/-- The form of an array by its tokens behind the opening bracket. -/
def arrayForm (used : List Str) : Option Form :=
  if isListOf isNumeral used.dropLast || isListOf isQuoted used.dropLast then some .array else some .brackets

/-- The form of the tokens behind `sort`. -/
def sortForm : List Str → Option Form
  | [byToken, cost, limit] =>
    if keyword "BY" byToken && keyword "DISTANCE_COST" cost && keyword "LIMIT" limit then none else some .sortWords
  | _ => some .sortWords

/-- The form of a single token. -/
def ofToken (form : Str → Option Form) (used : List Str) : Option Form :=
  used.head?.bind form

/-- A derivation of a tree. -/
abbrev Rule := Gram Str ParseTreeNode

abbrev RuleList := Gram Str (List ParseTreeNode)

/-- One token that passes a check, as a leaf. -/
def leaf (check : Str → Bool) : Rule :=
  fun used tree _ => ∃ token, used = [token] ∧ check token = true ∧ leafNode token = .ok tree

/-- One token that passes a check, as its text and its leaf. -/
def textLeaf (check : Str → Bool) : Gram Str (Str × ParseTreeNode) :=
  fun used result _ => used = [result.1] ∧ check result.1 = true ∧ leafNode result.1 = .ok result.2

def anyToken : Gram Str Str :=
  fun used token _ => used = [token]

def word (name : String) : Gram Str Unit :=
  Gram.token (keyword name)

def symbol (s : Symbol) : Gram Str Unit :=
  Gram.token (isSymbol s)

def sign (s : String) : Gram Str Unit :=
  Gram.token (exactly s)

variable (g : Reading)

/-- The next token is not of a kind. -/
def stopAt (p : Str → Bool) : Gram Str Unit :=
  Gram.stop (g.longest = true) p

/-- No token, where a form that shows here is one the reading admits. -/
def takes (form : Option Form) : Gram Str Unit :=
  Gram.guard (∀ f ∈ form, g.admits f)

/-- The derivations from tokens of forms that the reading admits. -/
def formed {α : Type} (form : List Str → Option Form) (G : Gram Str α) : Gram Str α :=
  fun used result rest => G used result rest ∧ ∀ f ∈ form used, g.admits f

/-- One or more items with separators between them. -/
def separated (separator : Str → Bool) (item : Rule) : RuleList := do
  let first ← item
  Gram.While (g.longest = true) separator (fun items _ => do
    let next ← item
    pure (items ++ [next])) [first]

/-- A clause that may be left out; it starts with a token of the kind. -/
def optional (start : Str → Bool) (clause : Rule) : RuleList :=
  (clause >>= fun tree => pure [tree]) ⊔ (stopAt g start >>= fun _ => pure [])

def identifier : Rule :=
  formed g (ofToken nameForm) (leaf isIdentifier)

def number : Rule :=
  formed g (ofToken numberForm) (leaf isNumber)

/-- The tokens up to the closing bracket and it, as one text. -/
def bracketed (token : Str) : Gram Str Str := do
  let text ← Gram.While (g.longest = true) (fun part => !exactly "]" part)
    (fun text part => pure (text ++ part)) token
  sign "]"
  pure (text ++ "]".toList)

/-- An array behind its opening bracket. -/
def array (token : Str) : Gram Str Str :=
  formed g arrayForm (bracketed g token)

/-- The text of a formula with one operand more. -/
def operandOf (ope : Str) (formula : Str × ParseTreeNode) : Gram Str (Str × ParseTreeNode) :=
  fun used result _ =>
    ∃ part, used = [part] ∧ result.1 = formula.1 ++ ope ++ part ∧ isFormula result.1 = true ∧
      leafNode result.1 = .ok result.2

/-- The operands of one operator of a formula. -/
def operands (ope : Str) (formula : Str × ParseTreeNode) : Gram Str (Str × ParseTreeNode) :=
  Gram.While (g.longest = true) (fun token => decide (token = ope))
    (fun formula _ => formed g (ofToken operandForm) (operandOf ope formula)) formula

/-- A formula: operands behind the operators, which stand in a fixed order. -/
def formula : List Str → Str × ParseTreeNode → Gram Str (Str × ParseTreeNode)
  | [], result => pure result
  | ope :: operators, result => operands g ope result >>= formula operators

def expressionList (expression : Rule) : Rule := do
  let expressions ← separated g (exactly ",") expression
  pure (.node .EXPRESSION_LIST expressions)

/-- `<EXPRESSION_LIST>? ")"` -/
def arguments (expression : Rule) (functionName : ParseTreeNode) : Rule :=
  (sign ")" >>= fun _ => pure (.node .FUNCTION [functionName, .node .EXPRESSION_LIST []])) ⊔
    (stopAt g (exactly ")") >>= fun _ => do
      let argumentList ← expressionList g expression
      sign ")"
      pure (.node .FUNCTION [functionName, argumentList]))

/-- The token of an operand, or the text of an array. -/
def operandText : Gram Str Str := do
  let token ← anyToken
  if exactly "[" token then array g token else pure token

/-- The number behind a sign, with it. -/
def signed (token : Str) : Rule :=
  formed g (ofToken numberForm) fun used tree _ =>
    ∃ digits, used = [digits] ∧ isNumber (token ++ digits) = true ∧ leafNode (token ++ digits) = .ok tree

/-- An expression that starts with a token or an array: a literal, a number with
a sign, a function, or an identifier with a formula behind it. A token that
reads as a number is one. -/
def operand (expression : Rule) (token : Str) (tree : ParseTreeNode) : Rule :=
  if isNumber token || isString token || isNumberArray token || isStringArray token then do
    takes g (literalForm token)
    pure (.node .EXPRESSION [tree])
  else if isSign token then do
    takes g (some .sign)
    let value ← signed g token
    pure (.node .EXPRESSION [value])
  else if !isIdentifier token then ⊥
  else do
    takes g (nameForm token)
    (sign "(" >>= fun _ => do
      let child ← arguments g expression tree
      pure (.node .EXPRESSION [child])) ⊔
    (stopAt g (exactly "(") >>= fun _ => do
      let result ← formula g formulaOperators (token, tree)
      takes g (formulaForm token result.1)
      pure (.node .EXPRESSION [result.2]))

/-- `"(" <EXPRESSION> ")"` or an operand. -/
def expressionRule (expression : Rule) : Rule :=
  (sign "(" >>= fun _ => do
    let child ← expression
    sign ")"
    pure (.node .EXPRESSION [child])) ⊔
  (stopAt g (exactly "(") >>= fun _ => do
    let token ← operandText g
    let tree ← Gram.lift (leafNode token)
    operand g expression token tree)

private theorem separated_mono {item item' : Rule} (separator : Str → Bool) (h : item ≤ item') :
    separated g separator item ≤ separated g separator item' :=
  Gram.bind_mono h fun _ => Gram.While.mono (fun _ _ => Gram.bind_mono h fun _ => le_rfl) _

/-- An operand derives more where the rule for expressions does. -/
private theorem operand_mono {e e' : Rule} (h : e ≤ e') (token : Str) (tree : ParseTreeNode) :
    operand g e token tree ≤ operand g e' token tree := by
  have hlist : expressionList g e ≤ expressionList g e' :=
    Gram.bind_mono (separated_mono g _ h) fun _ => le_rfl
  have harguments : arguments g e tree ≤ arguments g e' tree :=
    sup_le_sup le_rfl (Gram.bind_mono le_rfl fun _ => Gram.bind_mono hlist fun _ => le_rfl)
  unfold operand
  split
  · exact le_rfl
  split
  · exact le_rfl
  split
  · exact le_rfl
  refine Gram.bind_mono le_rfl fun _ => ?_
  exact sup_le_sup (Gram.bind_mono le_rfl fun _ => Gram.bind_mono harguments fun _ => le_rfl) le_rfl

/-- More expressions inside of brackets and arguments make more expressions. -/
theorem expressionRule_mono : Monotone (expressionRule g) := by
  intro e e' h
  refine sup_le_sup (Gram.bind_mono le_rfl fun _ => Gram.bind_mono h fun _ => le_rfl) ?_
  exact Gram.bind_mono le_rfl fun _ => Gram.bind_mono le_rfl fun token =>
    Gram.bind_mono le_rfl fun tree => operand_mono g h token tree

/-- The expressions: the least solution of their rule. -/
def expression : Rule :=
  OrderHom.lfp ⟨expressionRule g, expressionRule_mono g⟩

/-- An expression is what the rule makes of expressions. -/
theorem expression_eq : expression g = expressionRule g (expression g) :=
  (OrderHom.map_lfp ⟨expressionRule g, expressionRule_mono g⟩).symm

def rename (s : Symbol) (item : Rule) : Rule := do
  let old ← item
  (symbol .AS >>= fun _ => do
    let newname ← identifier g
    pure (.node s [newname, old])) ⊔
  (stopAt g (isSymbol .AS) >>= fun _ => pure old)

def selectList : Rule := do
  let items ← separated g (exactly ",") (rename g .EXPRESSION_RENAME (expression g))
  pure (.node .SELECT_LIST items)

/-- `"SELECT" ( "*" | <SELECT_LIST> )` -/
def select : Rule := do
  symbol .SELECT
  let list ← leaf isAsterisk ⊔ (stopAt g (exactly "*") >>= fun _ => selectList g)
  pure (.node .SELECT [list])

def isPartition (token : Str) : Bool :=
  exactly "PARTITION" token || exactly "partition" token

/-- `"PARTITION" "BY"` and a select list, or nothing. -/
def optionalPartition : Gram Str (Option ParseTreeNode) :=
  (Gram.token isPartition >>= fun _ => do
    takes g (some .partition)
    let byWord ← formed g (ofToken partitionForm) (leaf fun _ => true)
    let list ← selectList g
    pure (some (.node .PARTITION [byWord, list]))) ⊔
  (stopAt g isPartition >>= fun _ => pure none)

def isSort (token : Str) : Bool :=
  exactly "sort" token || exactly "SORT" token

/-- The leaf of the words behind `sort`, whose texts are joined. -/
def sortLeaf (byToken cost limit : Str) : Rule :=
  fun used tree _ => used = [] ∧ isSortText ("sort".toList ++ byToken ++ cost ++ limit) = true ∧
    leafNode ("sort".toList ++ byToken ++ cost ++ limit) = .ok tree

def sortTokens : Rule := do
  let byToken ← anyToken
  let cost ← anyToken
  let limit ← anyToken
  sortLeaf byToken cost limit

/-- The words behind `sort`, which only count together. -/
def sortWords : Rule :=
  formed g sortForm sortTokens

/-- `"BY" "DISTANCE_COST" "LIMIT" <NUMBER> "SEED" <NUMBER>` -/
def sortClause : RuleList := do
  let sort ← sortWords g
  let limit ← number g
  let seed ← leaf fun token => decide (to_lower_copy token = "seed".toList)
  let seedNumber ← formed g (ofToken seedForm) (leaf fun _ => true)
  pure [sort, limit, seed, seedNumber]

def rows : RuleList := do
  let size ← number g
  (Gram.token isSort >>= fun _ => do
    takes g (some .sort)
    let sort ← sortClause g
    pure (size :: sort)) ⊔
  (stopAt g isSort >>= fun _ => pure [size])

def range : RuleList := do
  let size ← number g
  let unit ← leaf isUnit
  pure [size, unit]

def windowBounds (type : Str) : RuleList :=
  if iequals type "ROWS".toList then rows g else if iequals type "RANGE".toList then range g else ⊥

/-- `"ROWS" …` or `"RANGE" …` -/
def window : Rule := do
  let type ← textLeaf isIdentifier
  let bounds ← windowBounds g type.1
  pure (.node .WINDOW (type.2 :: bounds))

/-- Whether the first leaf of a list is a word. -/
def startsWithWord (name : String) : List ParseTreeNode → Bool
  | .leaf _ value :: _ => keyword name value
  | _ => false

def isRows : ParseTreeNode → Bool
  | .node .WINDOW values => startsWithWord "ROWS" values
  | _ => false

/-- No number behind `NEARBY`, but another token. -/
def noNumber : RuleList :=
  fun used result rest => used = [] ∧ result = [] ∧
    (g.longest = true → ∃ token ∈ rest.head?, isNumber token = false ∧ ∃ tree, leafNode token = .ok tree)

/-- The number behind `NEARBY`, or another token behind it. -/
def nearby : RuleList :=
  (number g >>= fun size => pure [size]) ⊔ noNumber g

/-- `"OWN" | "NEARBY" <NUMBER>? | "ALL" | <NUMBER>` -/
def hierarchy : Rule := do
  let level ← formed g (ofToken valueForm) (textLeaf isHierarchy)
  if keyword "NEARBY" level.1 then do
    let size ← nearby g
    pure (.node .HIERARCHY (level.2 :: size))
  else pure (.node .HIERARCHY [level.2])

/-- The window of a table behind its opening bracket. -/
def tableWindow (tablename : ParseTreeNode) : Rule := do
  let partition ← optionalPartition g
  let windowTree ← window g
  takes g (if partition.isSome && !isRows windowTree then some .partitionRange else none)
  let level ← (sign "," >>= fun _ => hierarchy g >>= fun tree => pure [tree]) ⊔
    (stopAt g (exactly ",") >>= fun _ => pure [])
  sign "]"
  pure (.node .TABLE ([tablename] ++ partition.toList ++ [windowTree] ++ level))

/-- A table with or without a window, or a subquery in parentheses. -/
def table (subquery : Rule) : Rule :=
  (sign "(" >>= fun _ => do
    let child ← subquery
    sign ")"
    pure (.node .TABLE [child])) ⊔
  (stopAt g (exactly "(") >>= fun _ => do
    let tablename ← identifier g
    (sign "[" >>= fun _ => tableWindow g tablename) ⊔
      (stopAt g (exactly "[") >>= fun _ => pure (.node .TABLE [tablename])))

def fromList (subquery : Rule) : Rule := do
  let tables ← separated g (exactly ",") (rename g .TABLE_RENAME (table g subquery))
  pure (.node .FROM_LIST tables)

def fromClause (subquery : Rule) : Rule := do
  symbol .FROM
  let list ← fromList g subquery
  pure (.node .FROM [list])

/-- `<EXPRESSION> <COMPARATOR> <EXPRESSION>` -/
def predicate : Rule := do
  let left ← expression g
  let comparator ← leaf isComparator
  let right ← expression g
  pure (.node .PREDICATE [left, comparator, right])

/-- `<PREDICATE> ( "AND" <PREDICATE> )*` -/
def predicateList : Rule := do
  let predicates ← separated g (isSymbol .AND) (predicate g)
  pure (.node .PREDICATE_LIST predicates)

def whereClause : Rule := do
  symbol .WHERE
  let list ← predicateList g
  pure (.node .WHERE [list])

def optionalWhere : RuleList :=
  optional g (keyword "WHERE") (whereClause g)

/-- `<SELECT> <FROM> <WHERE>?` -/
def subqueryRule (subquery : Rule) : Rule := do
  let selectTree ← select g
  let fromTree ← fromClause g subquery
  let wh ← optionalWhere g
  pure (.node .SUBQUERY ([selectTree, fromTree] ++ wh))

/-- More subqueries as tables make more subqueries. -/
theorem subqueryRule_mono : Monotone (subqueryRule g) := by
  intro s s' h
  have htable : table g s ≤ table g s' :=
    sup_le_sup (Gram.bind_mono le_rfl fun _ => Gram.bind_mono h fun _ => le_rfl) le_rfl
  have hrename : rename g .TABLE_RENAME (table g s) ≤ rename g .TABLE_RENAME (table g s') :=
    Gram.bind_mono htable fun _ => le_rfl
  have hlist : fromList g s ≤ fromList g s' :=
    Gram.bind_mono (separated_mono g _ hrename) fun _ => le_rfl
  have hfrom : fromClause g s ≤ fromClause g s' :=
    Gram.bind_mono le_rfl fun _ => Gram.bind_mono hlist fun _ => le_rfl
  exact Gram.bind_mono le_rfl fun _ => Gram.bind_mono hfrom fun _ => le_rfl

/-- The subqueries: the least solution of their rule. -/
def subquery : Rule :=
  OrderHom.lfp ⟨subqueryRule g, subqueryRule_mono g⟩

/-- A subquery is what the rule makes of subqueries. -/
theorem subquery_eq : subquery g = subqueryRule g (subquery g) :=
  (OrderHom.map_lfp ⟨subqueryRule g, subqueryRule_mono g⟩).symm

/-- `<SUBQUERY> ( "UNION" <SUBQUERY> )*` -/
def selection : Rule := do
  let first ← subquery g
  let more ← Gram.While (g.longest = true) (isSymbol .UNION) (fun subqueries _ => do
    let next ← subquery g
    pure (subqueries ++ [next])) []
  pure (if more = [] then first else .node .UNION (first :: more))

def identifierList (s : Symbol) : Rule := do
  let identifiers ← separated g (exactly ",") (identifier g)
  pure (.node s identifiers)

def master : Rule := do
  symbol .MASTER
  let list ← identifierList g .MASTER_LIST
  pure (.node .MASTER [list])

/-- `"WITH" "RECURSIVE" <IDENTIFIER> "AS" "(" <UNION> ")"`, where a union has two subqueries. -/
def withRecursive : Rule := do
  word "WITH"
  word "RECURSIVE"
  let name ← identifier g
  word "AS"
  sign "("
  let subqueries ← separated g (isSymbol .UNION) (subquery g)
  takes g (if 2 ≤ subqueries.length then none else some .recursion)
  sign ")"
  pure (.node .WITH_RECURSIVE [name, .node .UNION subqueries])

def value : Rule :=
  formed g (ofToken valueForm) (leaf isValues)

def valueList : Rule := do
  let values ← separated g (exactly ",") (value g)
  pure (.node .VALUE_ATTR_LIST values)

def defaultClause : Rule := do
  word "DEFAULT"
  let tree ← value g
  pure (.node .DEFAULT [tree])

/-- `<IDENTIFIER> <IDENTIFIER> ( "DEFAULT" <VALUE_ATTR> )?` -/
def tableAttr : Rule := do
  let name ← identifier g
  let type ← identifier g
  let default ← optional g (keyword "DEFAULT") (defaultClause g)
  pure (.node .TABLE_ATTR ([name, type] ++ default))

def tableAttrList : Rule := do
  let attrs ← separated g (exactly ",") (tableAttr g)
  pure (.node .TABLE_ATTR_LIST attrs)

/-- `<IDENTIFIER> "(" <TABLE_ATTR_LIST> ")"` -/
def declaration : RuleList := do
  let name ← identifier g
  sign "("
  let attrs ← tableAttrList g
  sign ")"
  pure [name, attrs]

/-- A word with a number in brackets behind it. -/
def fixClause (name : String) : RuleList :=
  Gram.starting (keyword name) (do
    let wordTree ← identifier g
    sign "["
    let time ← number g
    sign "]"
    pure [wordTree, time])

def dateParts : Nat → RuleList
  | 0 => pure []
  | k + 1 => do
    let part ← formed g (ofToken dateForm) (leaf fun token => isNumber token || isAsterisk token)
    let parts ← dateParts k
    pure (part :: parts)

def datePattern : Rule := do
  let parts ← dateParts g 5
  pure (.node .DATE_PATTERN parts)

/-- `"TIMER_CRON" "[" <DATE_PATTERN> "]"` -/
def cronClause : RuleList :=
  Gram.starting (keyword "TIMER_CRON") (do
    let wordTree ← identifier g
    sign "["
    let date ← datePattern g
    sign "]"
    pure [wordTree, date])

/-- The timer of a stream. -/
def timer : RuleList :=
  fixClause g "TIMER_FIX" ⊔
  (stopAt g (keyword "TIMER_FIX") >>= fun _ =>
    cronClause g ⊔ (stopAt g (keyword "TIMER_CRON") >>= fun _ => pure []))

def startFix : RuleList :=
  fixClause g "START_FIX" ⊔ (stopAt g (keyword "START_FIX") >>= fun _ => pure [])

/-- `"STREAM"`, a declaration, a timer, and a start behind a fixed timer. -/
def createStream : Rule := do
  word "STREAM"
  let trees ← declaration g
  let timerTrees ← timer g
  let startTrees ← startFix g
  takes g (if startTrees.isEmpty || startsWithWord "TIMER_FIX" timerTrees then none else some .startFix)
  pure (.node .CREATE_STREAM (trees ++ timerTrees ++ startTrees))

def createTable : Rule := do
  word "TABLE"
  let trees ← declaration g
  pure (.node .CREATE_TABLE trees)

def drop (name : String) (s : Symbol) : Rule := do
  word name
  let tree ← identifier g
  pure (.node s [tree])

/-- One of two rules behind `CREATE` or `DROP`, or neither of them. -/
def either (neither : Form) (streamRule tableRule : Rule) : RuleList :=
  (streamRule >>= fun tree => pure [tree]) ⊔
  (stopAt g (keyword "STREAM") >>= fun _ =>
    (tableRule >>= fun tree => pure [tree]) ⊔
    (stopAt g (keyword "TABLE") >>= fun _ => do
      takes g (some neither)
      pure []))

/-- `<IDENTIFIER> "=" <EXPRESSION>` -/
def setAttr : Rule := do
  let name ← identifier g
  sign "="
  let tree ← expression g
  pure (.node .SET_ATTR [name, tree])

def setAttrList : Rule := do
  let attrs ← separated g (exactly ",") (setAttr g)
  pure (.node .SET_ATTR_LIST attrs)

def update : Rule := do
  word "UPDATE"
  takes g (some .update)
  let name ← identifier g
  word "SET"
  let attrs ← setAttrList g
  let wh ← optionalWhere g
  pure (.node .UPDATE ([name, attrs] ++ wh))

def delete : Rule := do
  word "DELETE"
  word "FROM"
  let name ← identifier g
  let wh ← optionalWhere g
  pure (.node .DELETE (name :: wh))

def insertColumns : RuleList :=
  (word "(" >>= fun _ => do
    takes g (some .columns)
    let columns ← identifierList g .COLUMN_LIST
    sign ")"
    pure [columns]) ⊔
  (stopAt g (keyword "(") >>= fun _ => pure [])

/-- Values or a selection, or neither at the end of the tokens. -/
def insertSource : RuleList :=
  (word "VALUES" >>= fun _ => do
    sign "("
    let values ← valueList g
    sign ")"
    pure [values]) ⊔
  (stopAt g (keyword "VALUES") >>= fun _ =>
    (selection g >>= fun tree => pure [tree]) ⊔
    (stopAt g (fun _ => true) >>= fun _ => do
      takes g (some .insertNothing)
      pure []))

def insert : Rule := do
  word "INSERT"
  word "INTO"
  let name ← identifier g
  let columns ← insertColumns g
  let source ← insertSource g
  pure (.node .INSERT_INTO (name :: columns ++ source))

/-- No token with the name of the symbol for `;` behind the query. -/
def queryEnd : Gram Str Unit :=
  stopAt g (isSymbol .SEMICOLON)

/-- A selection with a master and a recursive clause in front of it. -/
def selectionQuery : Rule := do
  let masterTrees ← optional g (keyword "MASTER") (master g)
  let withTrees ← optional g (keyword "WITH") (withRecursive g)
  let tree ← selection g
  queryEnd g
  pure (.node .QUERY (masterTrees ++ withTrees ++ [tree]))

def createQuery : Rule := do
  word "CREATE"
  let created ← either g .createNothing (createStream g) (createTable g)
  queryEnd g
  pure (.node .QUERY created)

def dropQuery : Rule := do
  word "DROP"
  let dropped ← either g .dropNothing (drop g "STREAM" .DROP_STREAM) (drop g "TABLE" .DROP_TABLE)
  queryEnd g
  pure (.node .QUERY dropped)

/-- A statement that changes a table; its end is not looked at. -/
def statement (rule : Rule) : Rule := do
  let tree ← rule
  pure (.node .QUERY [tree])

/-- One of the statements, told apart by their first words, or a selection. -/
def query : Rule :=
  createQuery g ⊔ (stopAt g (keyword "CREATE") >>= fun _ =>
    dropQuery g ⊔ (stopAt g (keyword "DROP") >>= fun _ =>
      statement (update g) ⊔ (stopAt g (keyword "UPDATE") >>= fun _ =>
        statement (delete g) ⊔ (stopAt g (keyword "DELETE") >>= fun _ =>
          statement (insert g) ⊔ (stopAt g (keyword "INSERT") >>= fun _ => selectionQuery g)))))

theorem leaf_startsWith (check : Str → Bool) : (leaf check).StartsWith check := by
  rintro used tree rest ⟨token, rfl, hcheck, -⟩
  exact ⟨token, by simp, hcheck⟩

theorem leaf_consumes (check : Str → Bool) : (leaf check).Consumes :=
  (leaf_startsWith check).consumes

private theorem formed_startsWith {α : Type} {p : Str → Bool} {form : List Str → Option Form} {G : Gram Str α}
    (hG : G.StartsWith p) : (formed g form G).StartsWith p :=
  fun used result rest h => hG used result rest h.1

/-- A name is one token, which is an identifier. -/
theorem identifier_startsWith : (identifier g).StartsWith isIdentifier :=
  formed_startsWith g (leaf_startsWith isIdentifier)

theorem identifier_consumes : (identifier g).Consumes :=
  (identifier_startsWith g).consumes

theorem number_consumes : (number g).Consumes :=
  (formed_startsWith g (leaf_startsWith isNumber)).consumes

private theorem subquery_startsWith : (subquery g).StartsWith (isSymbol .SELECT) := by
  rw [subquery_eq]
  exact (Gram.startsWith_token _).bind.bind

/-- A selection begins with the keyword of its first subquery. -/
theorem selection_startsWith : (selection g).StartsWith (isSymbol .SELECT) :=
  (subquery_startsWith g).bind

end Grammar

end IS

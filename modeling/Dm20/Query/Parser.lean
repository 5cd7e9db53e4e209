import Dm20.Lib.Descent
import Dm20.Query.Tokenizer

namespace IS

open Descent Descent.Parser LeafNode

/-- A parser function of the source: it works on the token queue. -/
abbrev Parse (α : Type) := Parser Str ParseError α

namespace QueryParser

/-- Equality without regard to case. -/
def iequals (left right : Str) : Bool :=
  decide (left.map Char.toUpper = right.map Char.toUpper)

def to_lower_copy (value : Str) : Str :=
  value.map Char.toLower

def parseException (msg : String) : ParseError :=
  .parseException msg.toList

/-- A keyword, without regard to case. -/
def keyword (name : String) (token : Str) : Bool :=
  iequals token name.toList

/-- The keyword of a symbol. -/
def isSymbol (s : Symbol) (token : Str) : Bool :=
  iequals token (convertSymbolToString s)

/-- A token of a structure, as it stands. -/
def exactly (s : String) (token : Str) : Bool :=
  decide (token = s.toList)

/-- The leaf of a token that passes a check. -/
def checkedLeaf (check : Str → Bool) (refused : Str → ParseError) (token : Str) :
    Except ParseError ParseTreeNode := do
  let leaf ← leafNode token
  if check token then pure leaf else .error (refused token)

/-- A checked leaf together with its text. -/
def textLeaf (check : Str → Bool) (refused : Str → ParseError) (token : Str) :
    Except ParseError (Str × ParseTreeNode) :=
  (checkedLeaf check refused token).map fun leaf => (token, leaf)

/-- Takes a token, makes a leaf of it and checks it. -/
def leafToken (check : Str → Bool) (empty refused : ParseError) : Parse ParseTreeNode :=
  lexeme (checkedLeaf check fun _ => refused) empty

def parseIdentifier : Parse ParseTreeNode :=
  lexeme
    (checkedLeaf isIdentifier fun token =>
      .parseException ("'".toList ++ token ++ "' is not an identifier".toList))
    (parseException "identfier is expected, but no next token exists")

/-- The list a `do … while` loop over a separator collects. -/
def doWhile (n : Nat) (separator : Str → Bool) (item : Parse ParseTreeNode) :
    Parse (List ParseTreeNode) := do
  let first ← item
  whileToken .outOfFuel separator (fun items _ => do
    let next ← item
    pure (items ++ [next])) n [first]

/-- The tokens of an array up to its closing bracket, joined. -/
def arrayText (n : Nat) (token : Str) : Parse Str := do
  let text ← whileToken .outOfFuel (fun part => !exactly "]" part)
    (fun text part => pure (text ++ part)) n token
  expect (exactly "]") (parseException "']' is expected, but not found")
  pure (text ++ "]".toList)

/-- The text of an operand: its first token, or the whole array it starts. -/
def operandText (n : Nat) : Parse Str := do
  let token ← lexeme pure (parseException "no token exists")
  if exactly "[" token then arrayText n token else pure token

/-- A formula with one more operand. -/
def formulaStep (ope formula part : Str) : Except ParseError (Str × ParseTreeNode) :=
  textLeaf isFormula (fun token =>
    .parseException ("This symbol '".toList ++ token ++ "' is not allowed By Formula".toList))
    (formula ++ ope ++ part)

/-- The operands behind one operator of a formula, joined to the text before them. -/
def formulaOperands (n : Nat) (ope : Str) (formula : Str × ParseTreeNode) :
    Parse (Str × ParseTreeNode) :=
  whileToken .outOfFuel (fun token => decide (token = ope))
    (fun formula _ => lexeme (formulaStep ope formula.1)
      (.parseException (ope ++ " is expected, but not next found".toList)))
    n formula

/-- The operators of a formula, each taken as often as it follows. -/
def formulaOperators : List Str :=
  ["+".toList, "-".toList, "*".toList, "/".toList, "%".toList]

def parseFormula (n : Nat) : List Str → Str × ParseTreeNode → Parse (Str × ParseTreeNode)
  | [], formula => pure formula
  | ope :: operators, formula => formulaOperands n ope formula >>= parseFormula n operators

/-- `parseExpressionList` over the parser of the expressions inside; likewise
`parseFunction`. -/
def parseExpressionList (n : Nat) (expression : Parse ParseTreeNode) : Parse ParseTreeNode := do
  let expressions ← doWhile n (exactly ",") expression
  pure (.node .EXPRESSION_LIST expressions)

def parseArguments (n : Nat) (expression : Parse ParseTreeNode) (functionName : ParseTreeNode) :
    Parse ParseTreeNode := do
  if ← accept (exactly ")") then
    pure (.node .FUNCTION [functionName, .node .EXPRESSION_LIST []])
  else
    let argumentList ← parseExpressionList n expression
    expect (exactly ")") (parseException "')' is expected, but not found")
    pure (.node .FUNCTION [functionName, argumentList])

def parseFunction (n : Nat) (expression : Parse ParseTreeNode) : Parse ParseTreeNode := do
  let functionName ← parseIdentifier
  expect (exactly "(") (parseException "'(' is expected, but not found")
  parseArguments n expression functionName

/-- An expression that starts with a token, given with its leaf. -/
def parseOperand (n : Nat) (expression : Parse ParseTreeNode) (token : Str) (leaf : ParseTreeNode) :
    Parse ParseTreeNode := do
  if isNumber token || isString token || isNumberArray token || isStringArray token then
    pure (.node .EXPRESSION [leaf])
  else if isSign token then
    let next ← lexeme (fun number =>
      checkedLeaf isNumber (fun _ => parseException "A number is expected here") (token ++ number))
      .undefined
    pure (.node .EXPRESSION [next])
  else if !isIdentifier token then
    fail (.parseException ("This symbol '".toList ++ token ++ "' is not allowed here".toList))
  else if ← accept (exactly "(") then
    pushToken "(".toList
    pushToken token
    let child ← parseFunction n expression
    pure (.node .EXPRESSION [child])
  else
    let formula ← parseFormula n formulaOperators (token, leaf)
    pure (.node .EXPRESSION [formula.2])

def parseExpression : Nat → Parse ParseTreeNode
  | 0 => fail .outOfFuel
  | n + 1 => do
    if ← accept (exactly "(") then
      let child ← parseExpression n
      expect (exactly ")") (parseException "')' is expected, but not found")
      pure (.node .EXPRESSION [child])
    else
      let token ← operandText n
      let leaf ← lift (leafNode token)
      parseOperand n (parseExpression n) token leaf

/-- An item of a list with `AS` and a new name behind it, if there is one. -/
def parseRename (symbol : Symbol) (item : Parse ParseTreeNode) : Parse ParseTreeNode := do
  let old ← item
  if ← accept (isSymbol .AS) then
    let newname ← parseIdentifier
    pure (.node symbol [newname, old])
  else pure old

def parseSelectList (n : Nat) : Parse ParseTreeNode := do
  let items ← doWhile n (exactly ",") (parseRename .EXPRESSION_RENAME (parseExpression n))
  pure (.node .SELECT_LIST items)

def parseAsterisk : Parse ParseTreeNode :=
  leafToken isAsterisk (parseException "* is expected, but no next token exists")
    (parseException "* is expected")

def parseSelect (n : Nat) : Parse ParseTreeNode := do
  expect (isSymbol .SELECT) (parseException "SELECT-clause must start with \"SELECT\"")
  let list ← nonempty .undefined (peek (exactly "*") >>= fun asterisk =>
    if asterisk then parseAsterisk else parseSelectList n)
  pure (.node .SELECT [list])

def parsePartition (n : Nat) : Parse (Option ParseTreeNode) := do
  if ← accept (fun token => exactly "PARTITION" token || exactly "partition" token) then
    let partition ← lexeme leafNode .undefined
    let column_list ← parseSelectList n
    pure (some (.node .PARTITION [partition, column_list]))
  else pure none

def isSortText (text : Str) : Bool :=
  decide (to_lower_copy text = "sortbydistance_costlimit".toList)

/-- The words behind `sort`, joined and compared together. -/
def parseSortWords : Parse ParseTreeNode := do
  let byToken ← lexeme pure (parseException "the 'by' token in window is missing after 'sort'")
  let cost ← lexeme pure (parseException "the 'DISTANCE_COST' token in window is missing")
  let limit ← lexeme pure (parseException "the 'LIMIT' token in window is missing")
  lift (checkedLeaf isSortText
    (fun _ => parseException "word after 'rows num',  must be 'sort by distance_cost limit'")
    ("sort".toList ++ byToken ++ cost ++ limit))

/-- The `sort` clause of a window, behind its first word. -/
def parseSort : Parse (List ParseTreeNode) := do
  let sort ← parseSortWords
  let number ← leafToken isNumber (parseException "the LIMIT's next token is missing")
    (parseException "the 'LIMIT' token in window must be a number")
  let seed ← leafToken (fun text => decide (to_lower_copy text = "seed".toList))
    (parseException "the 'SEED' token in window is missing")
    (parseException "the 'SEED' token is missing")
  -- the check behind this token looks at the number of LIMIT again
  let seed_number ← lexeme leafNode (parseException "the SEED's next token is missing")
  pure [sort, number, seed, seed_number]

def parseRows : Parse (List ParseTreeNode) := do
  let number ← leafToken isNumber .undefined
    (parseException "the second token in window must be a number")
  if ← accept (fun token => exactly "sort" token || exactly "SORT" token) then
    let sort ← parseSort
    pure (number :: sort)
  else pure [number]

/-- The units of a range window. -/
def isUnit (token : Str) : Bool :=
  ["now".toList, "msec".toList, "sec".toList, "min".toList, "hour".toList, "day".toList].contains
    (to_lower_copy token)

def parseRange : Parse (List ParseTreeNode) := do
  let number ← leafToken isNumber .undefined
    (parseException "the first token in window must be a number")
  let unit ← leafToken isUnit (parseException "There is no next token")
    (parseException "unit size of window must be now|msec|sec|min|hour|day")
  pure [number, unit]

def parseWindow : Parse ParseTreeNode := do
  let type ← lexeme (textLeaf isIdentifier
    (fun _ => parseException "the first token in window must be ROWS or RANGE")) .undefined
  let bounds ← nonempty (parseException "There is no next token")
    (if iequals type.1 "ROWS".toList then parseRows
    else if iequals type.1 "RANGE".toList then parseRange
    else fail (.parseException ("Unknown window type: ".toList ++ type.1)))
  pure (.node .WINDOW (type.2 :: bounds))

def isHierarchy (token : Str) : Bool :=
  keyword "OWN" token || keyword "NEARBY" token || keyword "ALL" token || isNumber token

/-- The number behind `NEARBY`; another token is read, made a leaf and put back. -/
def parseNearby : Parse (List ParseTreeNode)
  | [] => .error .undefined
  | token :: ts => do
    let leaf ← leafNode token
    if isNumber token then .ok ([leaf], ts) else .ok ([], token :: ts)

def parseHierarchy : Parse ParseTreeNode := do
  let hierarchy ← lexeme (textLeaf isHierarchy
    (fun _ => parseException "Hierarchy should be OWN or NEARBY or ALL or number"))
    (parseException "There is no next token")
  if keyword "NEARBY" hierarchy.1 then
    let number ← parseNearby
    pure (.node .HIERARCHY (hierarchy.2 :: number))
  else pure (.node .HIERARCHY [hierarchy.2])

/-- The window of a table, behind its opening bracket. -/
def parseTableWindow (n : Nat) (tablename : ParseTreeNode) : Parse ParseTreeNode := do
  let partition ← parsePartition n
  let window ← parseWindow
  let hierarchy ← accept (exactly ",") >>= fun comma =>
    if comma then parseHierarchy >>= fun hierarchy => pure [hierarchy] else pure []
  expect (exactly "]") (parseException "']' is expected")
  pure (.node .TABLE ([tablename] ++ partition.toList ++ [window] ++ hierarchy))

/-- A table of the FROM clause, over the parser of the subqueries inside. -/
def parseTable (n : Nat) (subquery : Parse ParseTreeNode) : Parse ParseTreeNode := do
  if ← accept (exactly "(") then
    let child ← subquery
    expect (exactly ")") (parseException "')' is expected, but not found")
    pure (.node .TABLE [child])
  else
    let tablename ← nonempty (parseException "there is not next token") parseIdentifier
    if ← accept (exactly "[") then
      nonempty (parseException "There is no next token") (parseTableWindow n tablename)
    else pure (.node .TABLE [tablename])

def parseFromList (n : Nat) (subquery : Parse ParseTreeNode) : Parse ParseTreeNode := do
  let tables ← doWhile n (exactly ",") (parseRename .TABLE_RENAME (parseTable n subquery))
  pure (.node .FROM_LIST tables)

def parseFrom (n : Nat) (subquery : Parse ParseTreeNode) : Parse ParseTreeNode := do
  expect (isSymbol .FROM) (parseException "FROM-clause must start with \"FROM\"")
  let list ← parseFromList n subquery
  pure (.node .FROM [list])

def parseComparator : Parse ParseTreeNode :=
  lexeme
    (checkedLeaf isComparator fun token =>
      .parseException ("'".toList ++ token ++ "' is not a comparator".toList))
    (parseException "comparator is expected, but no next token exists")

def parsePredicate (n : Nat) : Parse ParseTreeNode := do
  let left ← parseExpression n
  let comparator ← parseComparator
  let right ← parseExpression n
  pure (.node .PREDICATE [left, comparator, right])

def parsePredicateList (n : Nat) : Parse ParseTreeNode := do
  let predicates ← doWhile n (isSymbol .AND) (parsePredicate n)
  pure (.node .PREDICATE_LIST predicates)

def parseWhere (n : Nat) : Parse ParseTreeNode := do
  expect (isSymbol .WHERE) (parseException "WHERE-clause must start with \"WHERE\"")
  let list ← parsePredicateList n
  pure (.node .WHERE [list])

/-- The WHERE clause, if there is one. -/
def parseOptionalWhere (n : Nat) : Parse (List ParseTreeNode) := do
  if ← peek (keyword "WHERE") then
    let wh ← parseWhere n
    pure [wh]
  else pure []

def parseSubquery : Nat → Parse ParseTreeNode
  | 0 => fail .outOfFuel
  | n + 1 => do
    let select ← parseSelect (n + 1)
    let fromNode ← parseFrom (n + 1) (parseSubquery n)
    let wh ← parseOptionalWhere (n + 1)
    pure (.node .SUBQUERY ([select, fromNode] ++ wh))

/-- A subquery, or the union of all that follow each other behind `UNION`. -/
def parseSelection (n : Nat) : Parse ParseTreeNode := do
  let subquery ← parseSubquery n
  let more ← whileToken .outOfFuel (isSymbol .UNION) (fun subqueries _ => do
    let next ← parseSubquery n
    pure (subqueries ++ [next])) n []
  pure (if more = [] then subquery else .node .UNION (subquery :: more))

def parseMasterList (n : Nat) : Parse ParseTreeNode := do
  let identifiers ← doWhile n (exactly ",") parseIdentifier
  pure (.node .MASTER_LIST identifiers)

def parseMaster (n : Nat) : Parse ParseTreeNode := do
  expect (isSymbol .MASTER) (parseException "MASTER-clause must start with \"MASTER\"")
  let list ← parseMasterList n
  pure (.node .MASTER [list])

def parseColumnList (n : Nat) : Parse ParseTreeNode := do
  let identifiers ← doWhile n (exactly ",") parseIdentifier
  pure (.node .COLUMN_LIST identifiers)

def parseWithRecursive (n : Nat) : Parse ParseTreeNode := do
  expect (keyword "WITH") (parseException "\"WITH\" is expected, but not found")
  expect (keyword "RECURSIVE") (parseException "\"RECURSIVE\" is expected, but not found")
  let identifier ← nonempty (parseException "next token does not exist") parseIdentifier
  expect (keyword "AS") (parseException "\"AS\" is expected, but not found")
  expect (exactly "(") (parseException "\"(\" is expected, but not found")
  let subqueries ← doWhile n (isSymbol .UNION) (parseSubquery n)
  expect (exactly ")") (parseException "\")\" is expected, but not found")
  pure (.node .WITH_RECURSIVE [identifier, .node .UNION subqueries])

def parseValueAttr : Parse ParseTreeNode :=
  lexeme
    (checkedLeaf isValues fun token =>
      .parseException ("'".toList ++ token ++ "' is not a value".toList))
    (parseException "valueAttr is expected, but no next token exists")

def parseValueAttrList (n : Nat) : Parse ParseTreeNode := do
  let values ← doWhile n (exactly ",") parseValueAttr
  pure (.node .VALUE_ATTR_LIST values)

def parseDefault : Parse ParseTreeNode := do
  expect (keyword "DEFAULT") (parseException "DEFAULT-clause must start with \"DEFAULT\"")
  let value ← parseValueAttr
  pure (.node .DEFAULT [value])

def parseTableAttr : Parse ParseTreeNode := do
  let identifier ← parseIdentifier
  let type ← parseIdentifier
  let default_node ← peek (keyword "DEFAULT") >>= fun found =>
    if found then parseDefault >>= fun node => pure [node] else pure []
  pure (.node .TABLE_ATTR ([identifier, type] ++ default_node))

def parseTableAttrList (n : Nat) : Parse ParseTreeNode := do
  let attrs ← doWhile n (exactly ",") parseTableAttr
  pure (.node .TABLE_ATTR_LIST attrs)

/-- A name and an attribute list in parentheses, as `CREATE` has them. -/
def parseDeclaration (n : Nat) : Parse (List ParseTreeNode) := do
  let identifier ← nonempty (parseException "next token does not exist") parseIdentifier
  expect (exactly "(") (parseException "'(' is expected")
  let table_attr_list ← parseTableAttrList n
  expect (exactly ")") (parseException "')' is expected")
  pure [identifier, table_attr_list]

/-- A word with a number in brackets: `TIMER_FIX` or `START_FIX`. -/
def parseFix : Parse (List ParseTreeNode) := do
  let word ← parseIdentifier
  expect (exactly "[") (parseException "'[' is expected")
  let number ← leafToken isNumber .undefined (parseException "the token should be number")
  expect (exactly "]") (parseException "']' is expected")
  pure [word, number]

/-- The parts of a date pattern. -/
def parseDateParts : Nat → Parse (List ParseTreeNode)
  | 0 => pure []
  | k + 1 => do
    let part ← leafToken (fun token => isNumber token || isAsterisk token)
      (parseException "no token exists") (parseException "the token should be number or *")
    let parts ← parseDateParts k
    pure (part :: parts)

def parseDatePattern : Parse ParseTreeNode := do
  let parts ← parseDateParts 5
  pure (.node .DATE_PATTERN parts)

def parseCron : Parse (List ParseTreeNode) := do
  let word ← parseIdentifier
  expect (exactly "[") (parseException "'[' is expected")
  let date ← parseDatePattern
  expect (exactly "]") (parseException "']' is expected")
  pure [word, date]

/-- The timer clause of a stream, if there is one. -/
def parseTimer : Parse (List ParseTreeNode) := do
  if ← peek (keyword "TIMER_FIX") then parseFix
  else if ← peek (keyword "TIMER_CRON") then parseCron
  else pure []

/-- The start clause of a stream, if there is one. -/
def parseStart : Parse (List ParseTreeNode) := do
  if ← peek (keyword "START_FIX") then parseFix else pure []

def parseCreateStream (n : Nat) : Parse ParseTreeNode := do
  expect (keyword "STREAM") (parseException "\"STREAM\" is expected, but not found")
  let declaration ← parseDeclaration n
  let timer ← parseTimer
  let start ← parseStart
  pure (.node .CREATE_STREAM (declaration ++ timer ++ start))

def parseCreateTable (n : Nat) : Parse ParseTreeNode := do
  expect (keyword "TABLE") (parseException "\"TABLE\" is expected, but not found")
  let declaration ← parseDeclaration n
  pure (.node .CREATE_TABLE declaration)

def parseDropStream : Parse ParseTreeNode := do
  expect (keyword "STREAM") (parseException "\"STREAM\" is expected, but not found")
  let identifier ← nonempty (parseException "next token does not exist") parseIdentifier
  pure (.node .DROP_STREAM [identifier])

def parseDropTable : Parse ParseTreeNode := do
  expect (keyword "TABLE") (parseException "\"TABLE\" is expected, but not found")
  let identifier ← nonempty (parseException "next token does not exist") parseIdentifier
  pure (.node .DROP_TABLE [identifier])

def parseSetAttr (n : Nat) : Parse ParseTreeNode := do
  let identifier ← nonempty (parseException "next token does not exist") parseIdentifier
  expect (exactly "=") (parseException "'=' is expected")
  let expression ← nonempty (parseException "next token does not exist") (parseExpression n)
  pure (.node .SET_ATTR [identifier, expression])

def parseSetAttrList (n : Nat) : Parse ParseTreeNode := do
  let attrs ← doWhile n (exactly ",") (parseSetAttr n)
  pure (.node .SET_ATTR_LIST attrs)

def parseUpdateTable (n : Nat) : Parse ParseTreeNode := do
  expect (keyword "UPDATE") (parseException "\"UPDATE\" is expected, but not found")
  let identifier ← nonempty (parseException "next token does not exist") parseIdentifier
  expect (keyword "SET") (parseException "\"SET\" is expected, but not found")
  let set_attr_list ← parseSetAttrList n
  let wh ← parseOptionalWhere n
  pure (.node .UPDATE ([identifier, set_attr_list] ++ wh))

def parseDeleteTable (n : Nat) : Parse ParseTreeNode := do
  expect (keyword "DELETE") (parseException "\"DELETE\" is expected, but not found")
  expect (keyword "FROM") (parseException "\"FROM\" is expected, but not found")
  let identifier ← nonempty (parseException "next token does not exist") parseIdentifier
  let wh ← parseOptionalWhere n
  pure (.node .DELETE (identifier :: wh))

/-- The column list of an insertion, if there is one. -/
def parseInsertColumns (n : Nat) : Parse (List ParseTreeNode) := do
  if ← accept (keyword "(") then
    let column_list ← parseColumnList n
    expect (exactly ")") (parseException "')' is expected")
    pure [column_list]
  else pure []

/-- What is inserted: values, a selection, or nothing at the end of the tokens. -/
def parseInsertSource (n : Nat) : Parse (List ParseTreeNode) := do
  if ← accept (keyword "VALUES") then
    expect (exactly "(") (parseException "'(' is expected")
    let valueAttrList ← parseValueAttrList n
    expect (exactly ")") (parseException "')' is expected")
    pure [valueAttrList]
  else if ← peek (fun _ => true) then
    let selection ← parseSelection n
    pure [selection]
  else pure []

def parseInsertInto (n : Nat) : Parse ParseTreeNode := do
  expect (keyword "INSERT") (parseException "\"INSERT\" is expected, but not found")
  expect (keyword "INTO") (parseException "\"INTO\" is expected, but not found")
  let identifier ← nonempty (parseException "next token does not exist") parseIdentifier
  let columns ← parseInsertColumns n
  let source ← parseInsertSource n
  pure (.node .INSERT_INTO (identifier :: columns ++ source))

/-- The check behind `CREATE`, `DROP` and a selection. It compares the next token
with the name of the symbol, not with its text `;`. -/
def checkEnd : Parse Unit := do
  if ← accept (isSymbol .SEMICOLON) then fail (parseException "There are remaining tokens")
  else pure ()

/-- What `CREATE` creates; nothing where neither word follows. -/
def parseCreate (n : Nat) : Parse (List ParseTreeNode) := do
  if ← peek (keyword "STREAM") then
    let create_stream ← parseCreateStream n
    pure [create_stream]
  else if ← peek (keyword "TABLE") then
    let create_table ← parseCreateTable n
    pure [create_table]
  else pure []

def parseDrop : Parse (List ParseTreeNode) := do
  if ← peek (keyword "STREAM") then
    let drop_stream ← parseDropStream
    pure [drop_stream]
  else if ← peek (keyword "TABLE") then
    let drop_table ← parseDropTable
    pure [drop_table]
  else pure []

/-- A clause in front of a selection, if its keyword is there. -/
def parseOptional (name : String) (clause : Parse ParseTreeNode) : Parse (List ParseTreeNode) := do
  if ← peek (keyword name) then
    let node ← clause
    pure [node]
  else pure []

/-- A query over the token queue. -/
def parseQueryTokens (n : Nat) : Parse ParseTreeNode := do
  if ← accept (keyword "CREATE") then
    let created ← parseCreate n
    checkEnd
    pure (.node .QUERY created)
  else if ← accept (keyword "DROP") then
    let dropped ← parseDrop
    checkEnd
    pure (.node .QUERY dropped)
  else if ← peek (keyword "UPDATE") then
    let update ← parseUpdateTable n
    pure (.node .QUERY [update])
  else if ← peek (keyword "DELETE") then
    let deleteTable ← parseDeleteTable n
    pure (.node .QUERY [deleteTable])
  else if ← peek (keyword "INSERT") then
    let insertInto ← parseInsertInto n
    pure (.node .QUERY [insertInto])
  else
    let master ← parseOptional "MASTER" (parseMaster n)
    let wth ← parseOptional "WITH" (parseWithRecursive n)
    let selection ← parseSelection n
    checkEnd
    pure (.node .QUERY (master ++ wth ++ [selection]))

/-- The tree of a query text. The tokens left in the queue are not looked at.
The bound is one that no text reaches. -/
def parseQuery (str : Str) : Except ParseError ParseTreeNode := do
  let tokens ← Tokenizer.tokenize str
  let result ← parseQueryTokens (tokens.length + 1) tokens
  pure result.1

end QueryParser

end IS

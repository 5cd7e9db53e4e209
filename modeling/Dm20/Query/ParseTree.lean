import Dm20.TupleLib.Value

namespace IS

/-- The symbols of the grammar that nodes of a tree carry or the printer knows. -/
inductive Symbol where
  | QUERY
  | CREATE_STREAM
  | TABLE_ATTR_LIST
  | TABLE_ATTR
  | SET_ATTR_LIST
  | SET_ATTR
  | VALUE_ATTR_LIST
  | DATE_PATTERN
  | DROP_STREAM
  | DROP_TABLE
  | MASTER
  | MASTER_LIST
  | IDENTIFIER
  | WITH_RECURSIVE
  | SUBQUERY
  | UNION
  | SELECT
  | ASTERISK
  | SELECT_LIST
  | EXPRESSION_LIST
  | EXPRESSION
  | EXPRESSION_RENAME
  | FUNCTION
  | FROM
  | FROM_LIST
  | TABLE
  | TABLE_RENAME
  | AS
  | WINDOW
  | PARTITION
  | HIERARCHY
  | WHERE
  | PREDICATE_LIST
  | AND
  | PREDICATE
  | COMPARATOR
  | CREATE_TABLE
  | INSERT_INTO
  | VALUES
  | UPDATE
  | DELETE
  | DEFAULT
  | COLUMN_LIST
  | NULL_VALUE
  | BOOL_VALUE
  | NUMBER
  | SIGN
  | STRING
  | SEMICOLON
  | NUMBER_ARRAY
  | STRING_ARRAY
  | UNKNOWN
deriving DecidableEq, Repr

/-- The exceptions of the tokenizer and the parser. `outOfRange` is the exception
of the standard library, `undefined` reads the front of an empty token queue,
`outOfFuel` belongs to the model. -/
inductive ParseError where
  | parseException (msg : Str)
  | outOfRange
  | undefined
  | outOfFuel
deriving DecidableEq, Repr

/-- A node of the parse tree: a leaf with its text or an inner node. -/
inductive ParseTreeNode where
  | leaf (symbol : Symbol) (value : Str)
  | node (symbol : Symbol) (values : List ParseTreeNode)

instance : Inhabited ParseTreeNode := ⟨.node .UNKNOWN []⟩

def convertSymbolToString : Symbol → Str
  | .QUERY => "QUERY".toList
  | .CREATE_STREAM => "CREATE_STREAM".toList
  | .CREATE_TABLE => "CREATE_TABLE".toList
  | .TABLE_ATTR_LIST => "TABLE_ATTR_LIST".toList
  | .TABLE_ATTR => "TABLE_ATTR".toList
  | .DATE_PATTERN => "DATE_PATTERN".toList
  | .DROP_STREAM => "DROP_STREAM".toList
  | .DROP_TABLE => "DROP_TABLE".toList
  | .MASTER => "MASTER".toList
  | .MASTER_LIST => "MASTER_LIST".toList
  | .IDENTIFIER => "IDENTIFIER".toList
  | .WITH_RECURSIVE => "WITH_RECURSIVE".toList
  | .SUBQUERY => "SUBQUERY".toList
  | .UNION => "UNION".toList
  | .SELECT => "SELECT".toList
  | .ASTERISK => "ASTERISK".toList
  | .SELECT_LIST => "SELECT_LIST".toList
  | .EXPRESSION_LIST => "EXPRESSION_LIST".toList
  | .EXPRESSION => "EXPRESSION".toList
  | .EXPRESSION_RENAME => "EXPRESSION_RENAME".toList
  | .FUNCTION => "FUNCTION".toList
  | .FROM => "FROM".toList
  | .FROM_LIST => "FROM_LIST".toList
  | .TABLE => "TABLE".toList
  | .TABLE_RENAME => "TABLE_RENAME".toList
  | .AS => "AS".toList
  | .WINDOW => "WINDOW".toList
  | .PARTITION => "PARTITION".toList
  | .HIERARCHY => "HIERARCHY".toList
  | .WHERE => "WHERE".toList
  | .PREDICATE_LIST => "PREDICATE_LIST".toList
  | .AND => "AND".toList
  | .PREDICATE => "PREDICATE".toList
  | .COMPARATOR => "COMPARATOR".toList
  | .NUMBER => "NUMBER".toList
  | .SIGN => "SIGN".toList
  | .STRING => "STRING".toList
  | .SEMICOLON => "SEMICOLON".toList
  | .NULL_VALUE => "NULL".toList
  | .BOOL_VALUE => "BOOL".toList
  | _ => "UNKNOWN".toList

namespace LeafNode

def isNumber (value : Str) : Bool :=
  match stod value with
  | .ok _ => true
  | .error _ => false

def isNull (value : Str) : Bool :=
  StringUtil.equalsNoCase value "null".toList

def isBoolen (value : Str) : Bool :=
  StringUtil.equalsNoCase value "true".toList || StringUtil.equalsNoCase value "false".toList

def isString (value : Str) : Bool :=
  (decide (value.head? = some '\'') && decide (value.getLast? = some '\'')) ||
    (decide (value.head? = some '"') && decide (value.getLast? = some '"'))

def isValues (value : Str) : Bool :=
  isNumber value || isString value || isBoolen value || isNull value

/-- The comparators, without `!=`. -/
def isComparator (value : Str) : Bool :=
  ["<".toList, ">".toList, ">=".toList, "<=".toList, "=".toList, "<>".toList].contains value

def isSign (value : Str) : Bool :=
  decide (value = "+".toList) || decide (value = "-".toList)

def isAsterisk (value : Str) : Bool :=
  decide (value = "*".toList)

def isIdentifier : Str → Bool
  | [] => false
  | c :: s => (c.isAlpha || decide (c = '_')) &&
      s.all fun d => d.isAlphanum || decide (d = '_') || decide (d = '.')

def isFormula : Str → Bool
  | [] => false
  | c :: s => (c.isAlpha || decide (c = '_')) &&
      s.all fun d => d.isAlphanum || "_.+-*/%".toList.contains d

def isNumberArray (value : Str) : Bool :=
  decide (2 ≤ value.length) && decide (value.head? = some '[') && decide (value.getLast? = some ']') &&
    value.tail.dropLast.all fun c => c.isAlphanum || decide (c = ',')

def isStringArray (value : Str) : Bool :=
  decide (2 ≤ value.length) && decide (value.head? = some '[') && decide (value.getLast? = some ']')

def isSemicolon (value : Str) : Bool :=
  decide (value = ";".toList)

end LeafNode

open LeafNode

/-- A leaf for a token. Its symbol is that of the first kind the token is of,
and a number out of the range of a double is an exception. -/
def leafNode (value : Str) : Except ParseError ParseTreeNode :=
  match stod value with
  | .ok _ => .ok (.leaf .NUMBER value)
  | .error .out_of_range => .error .outOfRange
  | .error .invalid_argument =>
    .ok (.leaf (if isComparator value then .COMPARATOR
      else if isSign value then .SIGN
      else if isString value then .STRING
      else if isAsterisk value then .ASTERISK
      else if isIdentifier value then .IDENTIFIER
      else if isSemicolon value then .SEMICOLON
      else if isValues value then .VALUES
      else if isNumberArray value then .NUMBER_ARRAY
      else if isStringArray value then .STRING_ARRAY
      else .UNKNOWN) value)

namespace ParseTreeNode

def getSymbol : ParseTreeNode → Symbol
  | leaf symbol _ => symbol
  | node symbol _ => symbol

end ParseTreeNode

end IS

import Dm20.Query.ParseTree

namespace IS

/-- What ends an analysis of a tree: an exception, or the use of a child or an
operator node that does not exist. -/
inductive TreeError where
  | parseException (msg : Str)
  | nullNode
deriving DecidableEq, Repr

namespace ParseTreeNode

mutual

/-- The tree as an S-expression. -/
def toText : ParseTreeNode → Str
  | .leaf symbol value => "( ".toList ++ convertSymbolToString symbol ++ " ".toList ++ value ++ " )".toList
  | .node symbol values => "( ".toList ++ convertSymbolToString symbol ++ " ".toList ++ toTexts values ++ ")".toList

def toTexts : List ParseTreeNode → Str
  | [] => []
  | value :: values => toText value ++ " ".toList ++ toTexts values

end

/-- The text of a leaf; of an inner node its S-expression. -/
def getValue : ParseTreeNode → Str
  | .leaf _ value => value
  | .node symbol values => toText (.node symbol values)

/-- The number of children; a leaf counts as one. -/
def getSize : ParseTreeNode → Nat
  | .leaf _ _ => 1
  | .node _ values => values.length

def children : ParseTreeNode → List ParseTreeNode
  | .leaf _ _ => []
  | .node _ values => values

/-- A child that is used. -/
def getChildNode (t : ParseTreeNode) (index : Nat) : Except TreeError ParseTreeNode :=
  match t.children[index]? with
  | some child => .ok child
  | none => .error .nullNode

def isLeafNode : ParseTreeNode → Bool
  | .leaf _ _ => true
  | .node _ _ => false

end ParseTreeNode

namespace SQLString

open ParseTreeNode

/-- A text of the printer, or why there is none. -/
abbrev Text := Except TreeError Str

def text (s : String) : Text :=
  .ok s.toList

/-- The texts one after the other; the first that fails decides. -/
def concat : List Text → Text
  | [] => .ok []
  | t :: ts => do
    let first ← t
    let rest ← concat ts
    return first ++ rest

/-- The texts with a separator between them. -/
def concatChildNodes (separator : String) (sql : List Text) : Text :=
  concat (sql.intersperse (text separator))

/-- The text of a child by its index. -/
def sqlOf (sql : List Text) (index : Nat) : Text :=
  (sql[index]?).getD (.error .nullNode)

def valueOf (values : List ParseTreeNode) (index : Nat) : Text :=
  match values[index]? with
  | some child => .ok child.getValue
  | none => .error .nullNode

/-- The items of an insertion behind the table name. -/
def insertItems : List ParseTreeNode → List Text → List Text
  | value :: values, t :: ts =>
    (match value.getSymbol with
      | .COLUMN_LIST => [text " ( ", t, text " ) "]
      | .VALUE_ATTR_LIST => [text " VALUES ( ", t, text " ) "]
      | _ => [text " ", t]) ++ insertItems values ts
  | _, _ => []

/-- A table that is renamed; one whose first child is neither an identifier nor a
subquery is printed like it. -/
def renamedTable (sql : List Text) : Text :=
  concat [sqlOf sql 1, text " AS ", sqlOf sql 0]

/-- The text of an inner node, from its children and their texts. -/
def nodeText (symbol : Symbol) (values : List ParseTreeNode) (sql : List Text) : Text :=
  match symbol with
  | .QUERY => concatChildNodes " " sql
  | .CREATE_STREAM =>
    let declaration := [text "CREATE STREAM ", valueOf values 0, text " ( ", sqlOf sql 1, text " ) "]
    let timer := [valueOf values 2, text " [", sqlOf sql 3, text "]"]
    let start := [valueOf values 4, text " [", sqlOf sql 5, text "]"]
    if values.length = 2 then concat declaration
    else if values.length = 4 then concat (declaration ++ timer)
    else concat (declaration ++ timer ++ start)
  | .CREATE_TABLE => concat [text "CREATE TABLE ", valueOf values 0, text " ( ", sqlOf sql 1, text " ) "]
  | .TABLE_ATTR_LIST => concatChildNodes ", " sql
  | .TABLE_ATTR => concatChildNodes " " sql
  | .DATE_PATTERN => concatChildNodes " " sql
  | .DROP_STREAM => concat [text "DROP STREAM ", valueOf values 0]
  | .DROP_TABLE => concat [text "DROP TABLE ", valueOf values 0]
  | .UPDATE =>
    let update := [text "UPDATE ", valueOf values 0, text " SET ", sqlOf sql 1]
    if values.length = 2 then concat update else concat (update ++ [sqlOf sql 2])
  | .DELETE =>
    let delete := [text "DELETE FROM ", valueOf values 0]
    if values.length = 1 then concat delete else concat (delete ++ [text " ", sqlOf sql 1])
  | .MASTER => concat [text "MASTER ", sqlOf sql 0]
  | .MASTER_LIST => concatChildNodes " , " sql
  | .COLUMN_LIST => concatChildNodes " , " sql
  | .SET_ATTR_LIST => concatChildNodes " , " sql
  | .SET_ATTR => concat [valueOf values 0, text " = ", sqlOf sql 1]
  | .WITH_RECURSIVE => concat [text "WITH RECURSIVE ", sqlOf sql 0, text " AS ( ", sqlOf sql 1, text " )"]
  | .SUBQUERY => concatChildNodes " " sql
  | .UNION => concatChildNodes " UNION " sql
  | .SELECT => concat [text "SELECT ", sqlOf sql 0]
  | .SELECT_LIST => concatChildNodes " , " sql
  | .EXPRESSION_LIST => concatChildNodes " , " sql
  | .EXPRESSION => sqlOf sql 0
  | .EXPRESSION_RENAME => concat [sqlOf sql 1, text " AS ", valueOf values 0]
  | .FUNCTION => concat [sqlOf sql 0, text "(", sqlOf sql 1, text ")"]
  | .FROM => concat [text "FROM ", sqlOf sql 0]
  | .FROM_LIST => concatChildNodes " , " sql
  | .INSERT_INTO =>
    concat ([text "INSERT INTO ", valueOf values 0] ++ insertItems values.tail sql.tail)
  | .VALUE_ATTR_LIST => concatChildNodes " , " sql
  | .TABLE =>
    match values with
    | [] => .error .nullNode
    | first :: _ =>
      if first.getSymbol = .IDENTIFIER then
        if values.length = 1 then sqlOf sql 0
        else if values.length = 2 then concat [sqlOf sql 0, text "[", sqlOf sql 1, text "]"]
        else concat [sqlOf sql 0, text "[", sqlOf sql 1, text ", ", sqlOf sql 2, text "]"]
      else if first.getSymbol = .SUBQUERY then concat [text "( ", sqlOf sql 0, text " )"]
      else renamedTable sql
  | .TABLE_RENAME => renamedTable sql
  | .DEFAULT => concat [text "DEFAULT ", sqlOf sql 0]
  | .WINDOW => concatChildNodes " " sql
  | .PARTITION => concatChildNodes "PARTITION BY" sql
  | .HIERARCHY => valueOf values 0
  | .WHERE => concat [text " WHERE ", sqlOf sql 0]
  | .PREDICATE_LIST => concatChildNodes " AND " sql
  | .PREDICATE => concatChildNodes " " sql
  | _ => text ""

/-- The text of a leaf. Symbols the printer does not know print as nothing. -/
def leafText (symbol : Symbol) (value : Str) : Text :=
  match symbol with
  | .IDENTIFIER | .COMPARATOR | .NUMBER | .SIGN | .STRING | .BOOL_VALUE => .ok value
  | .ASTERISK => text "*"
  | .AS => text "AS"
  | .AND => text "AND"
  | .SEMICOLON => text ";"
  | .NULL_VALUE => text "NULL"
  | _ => text ""

end SQLString

namespace ParseTreeNode

open SQLString

mutual

/-- The tree as an SQL text. -/
def toSQLString : ParseTreeNode → Text
  | .leaf symbol value => leafText symbol value
  | .node symbol values => nodeText symbol values (toSQLStrings values)

def toSQLStrings : List ParseTreeNode → List Text
  | [] => []
  | value :: values => toSQLString value :: toSQLStrings values

end

end ParseTreeNode

end IS

import Dm20.Lib.AssocList
import Dm20.Query.SQLString
import Dm20.Query.Parser

namespace IS

open ParseTreeNode
open QueryParser (iequals)

/-- The parameters of an operator by their names. -/
abbrev DataStore := List (Str × Str)

/-- An operator; its id is the letter `n` with the number. -/
structure Node where
  id : Nat
  store : DataStore

def Node.getID (n : Node) : Str :=
  "n".toList ++ to_string_nat n.id

/-- The value of a parameter; the empty text where it is not set. -/
def Node.data (n : Node) (key : String) : Str :=
  (n.store.lookup key.toList).getD []

def Node.setData (n : Node) (key : String) (value : Str) : Node :=
  { n with store := AssocList.set n.store key.toList value }

/-- An edge from the operator that hands tuples on to the one that takes them. -/
structure Edge where
  id : Nat
  source : Nat
  target : Nat
deriving DecidableEq

/-- A graph of operators. Nodes and edges are added behind those that are there. -/
structure Graph where
  id : Nat
  nodes : List Node := []
  edges : List Edge := []

def Graph.addNode (g : Graph) (n : Node) : Graph :=
  { g with nodes := g.nodes ++ [n.setData "nid" n.getID] }

def Graph.addEdge (g : Graph) (e : Edge) : Graph :=
  { g with edges := g.edges ++ [e] }

namespace OperatorTreeGenerator

/-- The members of the generator. -/
structure State where
  ncount : Nat := 0
  ecount : Nat := 0
  gcount : Nat := 1
  master : Str := []
  secondNodeSymbol : Option Symbol := none
  graph : Graph := { id := 0 }
  graphList : List Graph := []

abbrev Gen := StateT State (Except TreeError)

/-- A pointer to an operator node, which may be null. -/
abbrev NodePtr := Option Nat

def throwParse {α : Type} (msg : String) : Gen α :=
  throw (.parseException msg.toList)

def nullNode {α : Type} : Gen α :=
  throw .nullNode

/-- A new operator, which is in no graph yet. -/
def newNode (store : DataStore) : Gen Node :=
  fun s => .ok ({ id := s.ncount, store }, { s with ncount := s.ncount + 1 })

def addNode (n : Node) : Gen Unit :=
  modify fun s => { s with graph := s.graph.addNode n }

def getMaster : Gen Str :=
  fun s => .ok (s.master, s)

/-- A new operator of the graph with its type, its parameter and the masters. -/
def operator (operator_type : String) (parameter : Str) : Gen Nat := do
  let master ← getMaster
  let n ← newNode [("operator_type".toList, operator_type.toList), ("parameter".toList, parameter),
    ("master".toList, master)]
  addNode n
  return n.id

/-- Notes the target of an edge in the parameter of a recursive operator. -/
def noteTarget (source target : Nat) (n : Node) : Node :=
  if n.id = source ∧ n.data "operator_type" = "recursive".toList then
    n.setData "parameter" (n.data "parameter" ++ ",".toList ++ "n".toList ++ to_string_nat target)
  else n

def createEdge (source : NodePtr) (target : Nat) : Gen Unit :=
  match source with
  | none => nullNode
  | some source => modify fun s =>
    { s with
      ecount := s.ecount + 1
      graph :=
        { s.graph with
          nodes :=
            if s.secondNodeSymbol = some .WITH_RECURSIVE then s.graph.nodes.map (noteTarget source target)
            else s.graph.nodes
          edges := s.graph.edges ++ [{ id := s.ecount, source, target }] } }

mutual

/-- The masters of the lists in a tree, with commas between them. -/
def analyzeMaster : ParseTreeNode → Str
  | .leaf _ _ => []
  | .node symbol values => if symbol = .MASTER_LIST then masterNames values else analyzeMasters values

def analyzeMasters : List ParseTreeNode → Str
  | [] => []
  | value :: values => analyzeMaster value ++ analyzeMasters values

def masterNames : List ParseTreeNode → Str
  | [] => []
  | value :: values =>
    (if value.getSymbol = .IDENTIFIER then
      value.getValue ++ (if values.isEmpty then [] else ",".toList)
    else []) ++ masterNames values

end

mutual

/-- The text of an expression. -/
def analyzeExpression : ParseTreeNode → Except TreeError Str
  | .node .EXPRESSION (child :: _) =>
    if child.getSymbol = .EXPRESSION then analyzeExpression child
    else if child.getSymbol = .FUNCTION then analyzeFunction child
    else .ok (if child.isLeafNode then child.getValue else [])
  | .node .EXPRESSION [] => .error .nullNode
  | _ => .error (.parseException "input node is not EXPRESSION".toList)

def analyzeFunction : ParseTreeNode → Except TreeError Str
  | .node .FUNCTION (name :: arguments :: _) =>
    (analyzeExpressionList arguments).map fun text => name.getValue ++ "(".toList ++ text ++ ")".toList
  | .node .FUNCTION _ => .error .nullNode
  | _ => .error (.parseException "input node is not FUNCTION".toList)

def analyzeExpressionList : ParseTreeNode → Except TreeError Str
  | .node .EXPRESSION_LIST values => (analyzeExpressions values).map fun texts => ",".toList.intercalate texts
  | _ => .error (.parseException "input node is not EXPRESSION_LIST".toList)

def analyzeExpressions : List ParseTreeNode → Except TreeError (List Str)
  | [] => .ok []
  | value :: values => do
    let text ← analyzeExpression value
    let texts ← analyzeExpressions values
    return text :: texts

end

/-- The text of an item of a select list or an argument list. -/
def columnText (item : ParseTreeNode) : Except TreeError Str :=
  if item.getSymbol = .EXPRESSION then analyzeExpression item
  else if item.getSymbol = .EXPRESSION_RENAME then item.getChildNode 1 >>= analyzeExpression
  else .ok []

def findColumns (list : ParseTreeNode) : Except TreeError Str :=
  if list.getSymbol = .SELECT_LIST ∨ list.getSymbol = .EXPRESSION_LIST then
    (list.children.mapM columnText).map fun texts => ",".toList.intercalate texts
  else .error (.parseException "input node is not SELECT_LIST, EXPRESSION_LIST".toList)

mutual

/-- The operators of the functions in an item of the select list, behind an
operator. An item the function does not know gives a null pointer. -/
def analyzeSelectListExpression : ParseTreeNode → NodePtr → Gen NodePtr
  | .node .EXPRESSION [child], input =>
    if child.getSymbol = .IDENTIFIER ∨ child.getSymbol = .NUMBER ∨ child.getSymbol = .STRING then pure input
    else if child.getSymbol = .FUNCTION then selectListFunction child input
    else pure none
  | .node .EXPRESSION _, _ => throwParse "input node is not EXPRESSION"
  | _, _ => throwParse "input node is not EXPRESSION"

def selectListFunction : ParseTreeNode → NodePtr → Gen NodePtr
  | .node .FUNCTION [name, arguments], input => do
    let input ← selectListArguments arguments input
    let columns ← (findColumns arguments : Except TreeError Str)
    let eval ← operator "eval" (name.getValue ++ "(".toList ++ columns ++ ")".toList)
    createEdge input eval
    return some eval
  | _, _ => throwParse "The size of children of FUNCTION  must be 2"

def selectListArguments : ParseTreeNode → NodePtr → Gen NodePtr
  | .node _ values, input => selectListItems values input
  | .leaf _ _, _ => nullNode

def selectListItems : List ParseTreeNode → NodePtr → Gen NodePtr
  | [], input => pure input
  | value :: values, input => analyzeSelectListExpression value input >>= selectListItems values

end

mutual

/-- The text of an expression, with an operator for each function in it behind
the top one. -/
def analyzeTopExpression : ParseTreeNode → NodePtr → Gen (Str × NodePtr)
  | .node .EXPRESSION (child :: _), topNode =>
    if child.getSymbol = .EXPRESSION then analyzeTopExpression child topNode
    else if child.getSymbol = .FUNCTION then analyzeTopFunction child topNode
    else pure (if child.isLeafNode then child.getValue else [], topNode)
  | .node .EXPRESSION [], _ => nullNode
  | _, _ => throwParse "input node is not EXPRESSION"

def analyzeTopFunction : ParseTreeNode → NodePtr → Gen (Str × NodePtr)
  | .node .FUNCTION (name :: arguments :: _), topNode => do
    let (text, topNode) ← analyzeTopExpressionList arguments topNode
    let rval := name.getValue ++ "(".toList ++ text ++ ")".toList
    let eval ← operator "eval" rval
    createEdge topNode eval
    return (rval, some eval)
  | .node .FUNCTION _, _ => nullNode
  | _, _ => throwParse "input node is not FUNCTION"

def analyzeTopExpressionList : ParseTreeNode → NodePtr → Gen (Str × NodePtr)
  | .node .EXPRESSION_LIST values, topNode => do
    let (texts, topNode) ← analyzeTopExpressions values topNode
    return (",".toList.intercalate texts, topNode)
  | _, _ => throwParse "input node is not EXPRESSION_LIST"

def analyzeTopExpressions : List ParseTreeNode → NodePtr → Gen (List Str × NodePtr)
  | [], topNode => pure ([], topNode)
  | value :: values, topNode => do
    let (text, topNode) ← analyzeTopExpression value topNode
    let (texts, topNode) ← analyzeTopExpressions values topNode
    return (text :: texts, topNode)

end

def analyzeComparator (comparator : ParseTreeNode) : Gen Str :=
  if comparator.getSymbol = .COMPARATOR then pure comparator.getValue
  else throwParse "input node is not COMPARATOR"

def analyzePredicate (predicate : ParseTreeNode) (topNode : NodePtr) : Gen (Str × NodePtr) := do
  if predicate.getSymbol ≠ .PREDICATE then throwParse "input node is not PREDICATE"
  else
    let left ← (predicate.getChildNode 0 : Except TreeError ParseTreeNode)
    let (leftText, topNode) ← analyzeTopExpression left topNode
    let comparator ← (predicate.getChildNode 1 : Except TreeError ParseTreeNode)
    let comparatorText ← analyzeComparator comparator
    let right ← (predicate.getChildNode 2 : Except TreeError ParseTreeNode)
    let (rightText, topNode) ← analyzeTopExpression right topNode
    return (leftText ++ comparatorText ++ rightText, topNode)

def analyzePredicates : List ParseTreeNode → NodePtr → Gen (List Str × NodePtr)
  | [], topNode => pure ([], topNode)
  | value :: values, topNode => do
    let (text, topNode) ← analyzePredicate value topNode
    let (texts, topNode) ← analyzePredicates values topNode
    return (text :: texts, topNode)

def analyzePredicateList (list : ParseTreeNode) (topNode : NodePtr) : Gen (Str × NodePtr) := do
  if list.getSymbol ≠ .PREDICATE_LIST then throwParse "input node is not PREDICATE_LIST"
  else
    let (texts, topNode) ← analyzePredicates list.children topNode
    return (" AND ".toList.intercalate texts, topNode)

/-- The operators of a WHERE clause behind those of the FROM clause. -/
def analyzeWhere (analyzeFrom : Gen NodePtr) (rest : List ParseTreeNode) : Gen NodePtr := do
  let source ← analyzeFrom
  match rest with
  | [whereNode] =>
    let list ← (whereNode.getChildNode 0 : Except TreeError ParseTreeNode)
    let (param, topNode) ← analyzePredicateList list source
    let selection ← operator "selection" param
    createEdge topNode selection
    return some selection
  | _ => return source

/-- The operators of the functions in the items of a select list. -/
def selectItems : List ParseTreeNode → NodePtr → Gen NodePtr
  | [], input => pure input
  | item :: items, input => do
    let output ←
      if item.getSymbol = .EXPRESSION_RENAME then do
        let expression ← (item.getChildNode 1 : Except TreeError ParseTreeNode)
        analyzeSelectListExpression expression input
      else if item.getSymbol = .EXPRESSION then analyzeSelectListExpression item input
      else pure input
    selectItems items output

/-- The operators that rename columns, each behind the one before. -/
def renameColumns : List ParseTreeNode → Nat → Gen Nat
  | [], out => pure out
  | item :: items, out => do
    let renamed ←
      if item.getSymbol = .EXPRESSION_RENAME then do
        let old ← (item.getChildNode 1 : Except TreeError ParseTreeNode)
        let oldname ← (analyzeExpression old : Except TreeError Str)
        let newname ← (item.getChildNode 0 : Except TreeError ParseTreeNode)
        let rename ← operator "renameColumn" (oldname ++ " as ".toList ++ newname.getValue)
        createEdge (some out) rename
        pure rename
      else pure out
    renameColumns items renamed

/-- The operators of the items of a select list; none for `*`. -/
def analyzeSelect (select : ParseTreeNode) (analyzeWhere : Gen NodePtr) : Gen NodePtr := do
  let input ← analyzeWhere
  let list ← (select.getChildNode 0 : Except TreeError ParseTreeNode)
  if select.getSize = 1 ∧ list.getSymbol = .ASTERISK then return input
  else if list.isLeafNode then nullNode
  else
    let input ← selectItems list.children input
    let columns ← (findColumns list : Except TreeError Str)
    let projection ← operator "projection" columns
    createEdge input projection
    let out ← renameColumns list.children projection
    return some out

mutual

/-- The names of the tables in a tree. -/
def findTableNames : ParseTreeNode → List Str
  | .leaf _ _ => []
  | .node symbol values =>
    if (symbol = .TABLE ∨ symbol = .TABLE_RENAME) ∧ (values.head?.map isLeafNode).getD false then
      (values.head?.map getValue).toList
    else mergeTableNames [] values

/-- The lists of names of the trees merged one after the other. -/
def mergeTableNames (rval : List Str) : List ParseTreeNode → List Str
  | [] => rval
  | value :: values => mergeTableNames (rval.merge (findTableNames value) fun a b => decide (¬ b < a)) values

end

/-- The size of a window as a parameter of its operator. The clause `sort` of a
window of rows is only looked at in a table without hierarchy. -/
def windowParameters (window : ParseTreeNode) (sort : Bool) (rval : Node) : Except TreeError Node := do
  let wtype ← window.getChildNode 0
  if iequals wtype.getValue "ROWS".toList then
    let number ← window.getChildNode 1
    let rval := rval.setData "range_window" number.getValue
    if sort ∧ window.getSize = 6 then
      let limit_number ← window.getChildNode 3
      let seed_number ← window.getChildNode 5
      return (rval.setData "limit" limit_number.getValue).setData "seed" seed_number.getValue
    else return rval
  else if iequals wtype.getValue "RANGE".toList then
    let number ← window.getChildNode 1
    let unit ← window.getChildNode 2
    return rval.setData "time_window" (number.getValue ++ " ".toList ++ unit.getValue)
  else return rval

def Graph.getID (g : Graph) : Str :=
  "g".toList ++ to_string_nat g.id

def newGraph : Gen Graph :=
  fun s => .ok ({ id := s.gcount }, { s with gcount := s.gcount + 1 })

def newEdge (source target : Nat) : Gen Edge :=
  fun s => .ok ({ id := s.ecount, source, target }, { s with ecount := s.ecount + 1 })

/-- The stream an operator reads is its master where the query names none. -/
def setMaster (stream : Str) : Gen Unit :=
  modify fun s => { s with master := if s.master = [] then stream else s.master }

/-- The number behind `NEARBY` as a part of the parameter of a request. -/
def requestRange (hierarchy level : ParseTreeNode) : Except TreeError Str :=
  if iequals level.getValue "NEARBY".toList ∧ 1 < hierarchy.getSize then
    (hierarchy.getChildNode 1).map fun number => ",".toList ++ number.getValue
  else .ok []

/-- The operators of a table with a hierarchy other than `OWN`: the window, which
reads a stream filled by another graph, and the request for that graph. -/
def requestOperators (hierarchy : ParseTreeNode) (rval : Node) : Gen NodePtr := do
  let graphX ← newGraph
  let master ← getMaster
  let transfer ← newNode []
  let tempStream := "temp_MNGID_".toList ++ Graph.getID graphX ++ "_".toList ++ transfer.getID
  let transfer := ((transfer.setData "operator_type" "transfer".toList).setData "parameter"
    ("own,".toList ++ tempStream)).setData "master" master
  let input ← newNode [("operator_type".toList, "in".toList), ("parameter".toList, rval.data "parameter"),
    ("range_window".toList, "1".toList), ("master".toList, rval.data "parameter")]
  setMaster tempStream
  let rval := rval.setData "parameter" (tempStream ++ ",".toList ++ rval.data "parameter")
  let edge ← newEdge input.id transfer.id
  let graphX := ((graphX.addNode transfer).addNode input).addEdge edge
  let level ← (hierarchy.getChildNode 0 : Except TreeError ParseTreeNode)
  let range ← (requestRange hierarchy level : Except TreeError Str)
  let request ← newNode [("operator_type".toList, "request".toList),
    ("parameter".toList, level.getValue ++ ",".toList ++ Graph.getID graphX ++ range)]
  addNode rval
  addNode request
  modify fun s => { s with graphList := s.graphList ++ [graphX] }
  return some rval.id

/-- The operators of a table that is not a subquery, from its name and what
follows it. The symbol of the second child is looked at first. -/
def tableOperators (tablename : ParseTreeNode) (rest : List ParseTreeNode) : Gen NodePtr := do
  let master ← getMaster
  let rval ← newNode [("operator_type".toList, "in".toList), ("master".toList, master),
    ("parameter".toList, tablename.getValue)]
  match rest with
  | [] => nullNode
  | second :: behind =>
    if second.getSymbol = .PARTITION then
      match behind with
      | [] => nullNode
      | window :: _ =>
        let rval ← (windowParameters window true rval : Except TreeError Node)
        let list ← (second.getChildNode 1 : Except TreeError ParseTreeNode)
        let columns ← (findColumns list : Except TreeError Str)
        addNode (rval.setData "partition" columns)
        return some rval.id
    else
      match behind with
      | [] =>
        let rval ← (windowParameters second true rval : Except TreeError Node)
        addNode rval
        return some rval.id
      | [hierarchy] =>
        let rval ← (windowParameters second false rval : Except TreeError Node)
        let level ← (hierarchy.getChildNode 0 : Except TreeError ParseTreeNode)
        if iequals level.getValue "OWN".toList then
          addNode rval
          return some rval.id
        else requestOperators hierarchy rval
      | _ => return some rval.id

/-- The operators that rename tables, each behind the one before; a null pointer
where there is no name. -/
def renameTables (newname : Str) : List Str → NodePtr → NodePtr → Gen NodePtr
  | [], _, renamed => pure renamed
  | oldname :: oldnames, input, _ => do
    let rename ← operator "renameTable" (oldname ++ " as ".toList ++ newname)
    createEdge input rename
    renameTables newname oldnames (some rename) (some rename)

mutual

def analyzeSubQuery : ParseTreeNode → Gen NodePtr
  | .node .SUBQUERY (select :: fromNode :: rest) => analyzeSelect select (analyzeWhere (analyzeFrom fromNode) rest)
  | .node .SUBQUERY _ => nullNode
  | _ => throwParse "input node is not SUBQUERY"

def analyzeFrom : ParseTreeNode → Gen NodePtr
  | .node .FROM (list :: _) => analyzeFromList list
  | .node .FROM [] => nullNode
  | _ => throwParse "input node is not FROM"

def analyzeFromList : ParseTreeNode → Gen NodePtr
  | .node .FROM_LIST (first :: rest) => do
    let lnode ← if first.getSymbol = .TABLE then analyzeTable first else analyzeTableRename first
    joinTables rest lnode
  | .node .FROM_LIST [] => throwParse "the size of FROM_LIST's children is less than 1"
  | _ => throwParse "input node is not FROM_LIST"

/-- The joins of the further tables, each with what is there so far. -/
def joinTables : List ParseTreeNode → NodePtr → Gen NodePtr
  | [], lnode => pure lnode
  | rchild :: rest, lnode => do
    let rnode ← if rchild.getSymbol = .TABLE_RENAME then analyzeTableRename rchild else analyzeTable rchild
    let join ← operator "join" []
    createEdge lnode join
    createEdge rnode join
    joinTables rest (some join)

def analyzeTableRename : ParseTreeNode → Gen NodePtr
  | .node .TABLE_RENAME (newname :: table :: _) => do
    let input ← analyzeTable table
    renameTables newname.getValue (findTableNames table) input none
  | .node .TABLE_RENAME _ => throwParse "the size of TABLE_RENAME's children is less than 2"
  | _ => throwParse "input node is not TABLE_RENAME"

def analyzeTable : ParseTreeNode → Gen NodePtr
  | .node .TABLE (first :: rest) =>
    if first.getSymbol = .SUBQUERY then analyzeSubQuery first else tableOperators first rest
  | .node .TABLE [] => throwParse "the size of TABLE's children is less than 1"
  | _ => throwParse "input node is not TABLE"

end

def unionChild (child : ParseTreeNode) : Gen NodePtr :=
  if child.getSymbol = .SUBQUERY then analyzeSubQuery child
  else throwParse "child of UNION must be SUBQUERY"

/-- The unions of the further subqueries, each with what is there so far. The
operator of the next union is made behind the edges of the one before. -/
def unionSubqueries : List ParseTreeNode → NodePtr → Nat → Gen NodePtr
  | [], _, uni => pure (some uni)
  | rightChild :: rest, leftNode, uni => do
    let rightNode ← unionChild rightChild
    createEdge leftNode uni
    createEdge rightNode uni
    if rest.isEmpty then return some uni
    else
      let next ← operator "union" []
      unionSubqueries rest (some uni) next

def analyzeUnion : ParseTreeNode → Gen NodePtr
  | .node .UNION (leftChild :: second :: rest) => do
    let leftNode ← unionChild leftChild
    let uni ← operator "union" []
    unionSubqueries (second :: rest) leftNode uni
  | .node .UNION _ => throwParse "the size of UNION's children is less than 2"
  | _ => throwParse "input node is not UNION"

/-- A word of a stream and the text behind it as two parameters. -/
def setClause (subtree : ParseTreeNode) (index : Nat) (wordKey textKey : String) (create : Node) :
    Except TreeError Node := do
  let word ← subtree.getChildNode index
  let text ← subtree.getChildNode (index + 1) >>= toSQLString
  return (create.setData wordKey word.getValue).setData textKey text

def setTimer (subtree : ParseTreeNode) (create : Node) : Except TreeError Node :=
  if 4 ≤ subtree.getSize then setClause subtree 2 "stream_class" "val" create else .ok create

def setStart (subtree : ParseTreeNode) (create : Node) : Except TreeError Node :=
  if subtree.getSize = 6 then setClause subtree 4 "stream_fix" "val_fix" create else .ok create

def analyzeCreateStream (subtree : ParseTreeNode) : Gen Nat := do
  if subtree.getSymbol ≠ .CREATE_STREAM then throwParse "input node is not CREATE_STREAM"
  else if subtree.getSize < 2 then throwParse "the size of CREATE_STREAM's children is less than 2"
  else
    let stream ← (subtree.getChildNode 0 : Except TreeError ParseTreeNode)
    let attrs ← (subtree.getChildNode 1 >>= toSQLString : Except TreeError Str)
    let create ← newNode [("operator_type".toList, "create".toList), ("stream_name".toList, stream.getValue),
      ("parameter".toList, attrs)]
    let create ← (setTimer subtree create >>= setStart subtree : Except TreeError Node)
    let master ← getMaster
    addNode (create.setData "master" master)
    return create.id

def analyzeDropStream (subtree : ParseTreeNode) : Gen Nat := do
  if subtree.getSymbol ≠ .DROP_STREAM then throwParse "input node is not DROP_STREAM"
  else if subtree.getSize ≠ 1 then throwParse "the size of DROP_STREAM's children is not 1"
  else
    let identifier ← (subtree.getChildNode 0 : Except TreeError ParseTreeNode)
    let master ← getMaster
    let drop ← newNode [("operator_type".toList, "drop".toList), ("stream_name".toList, identifier.getValue),
      ("master".toList, master)]
    addNode drop
    return drop.id

def analyzeRecursive (subtree : ParseTreeNode) : Gen Nat := do
  if subtree.getSymbol ≠ .WITH_RECURSIVE then throwParse "input node is not WITH_RECURSIVE"
  else if subtree.getSize ≠ 2 then throwParse "The size of WITH_RECURSIVE must be 2"
  else
    let tableName ← (subtree.getChildNode 0 : Except TreeError ParseTreeNode)
    let recursive ← operator "recursive" tableName.getValue
    let subquery ← (subtree.getChildNode 1 : Except TreeError ParseTreeNode)
    let input ←
      if subquery.getSymbol = .UNION then analyzeUnion subquery
      else if subquery.getSymbol = .SUBQUERY then analyzeSubQuery subquery
      else throwParse "The child of WITH_RECURSIVE is inappropriate"
    createEdge input recursive
    return recursive

/-- The operators of a clause of a query, with the edge to the output. -/
def analyzeClause (out : Nat) (child : ParseTreeNode) : Gen Unit := do
  modify fun s => { s with secondNodeSymbol := some child.getSymbol }
  match child.getSymbol with
  | .SUBQUERY => do
    let sub ← analyzeSubQuery child
    createEdge sub out
  | .UNION => do
    let uni ← analyzeUnion child
    createEdge uni out
  | .CREATE_STREAM => do
    let create ← analyzeCreateStream child
    createEdge (some create) out
  | .DROP_STREAM => do
    let drop ← analyzeDropStream child
    createEdge (some drop) out
  | .WITH_RECURSIVE => do
    let _ ← analyzeRecursive child
    pure ()
  | _ => pure ()

def analyzeClauses (out : Nat) : List ParseTreeNode → Gen Unit
  | [] => pure ()
  | child :: rest => do
    analyzeClause out child
    analyzeClauses out rest

mutual

/-- Whether a tree reads tables of the database only: no table has a window, and
no stream is created or dropped. -/
def isRDB : ParseTreeNode → Except TreeError Bool
  | .leaf _ _ => .ok true
  | .node symbol values =>
    match symbol, values with
    | .TABLE, [] => .error .nullNode
    | .TABLE, first :: rest =>
      if first.getSymbol = .IDENTIFIER then .ok rest.isEmpty else areRDB (first :: rest)
    | .DROP_STREAM, _ => .ok false
    | .CREATE_STREAM, _ => .ok false
    | _, values => areRDB values

def areRDB : List ParseTreeNode → Except TreeError Bool
  | [] => .ok true
  | value :: values => do
    let flag ← isRDB value
    let flags ← areRDB values
    return flag && flags

end

/-- The operators of a query; a query on the database alone is one operator with
its SQL text. -/
def analyzeQuery (subtree : ParseTreeNode) : Gen Nat := do
  if subtree.getSymbol ≠ .QUERY then throwParse "input node is not QUERY"
  else
    let out ← operator "out" []
    if ← (isRDB subtree : Except TreeError Bool) then
      let sql ← (subtree.toSQLString : Except TreeError Str)
      let rdb ← operator "RDB" sql
      createEdge (some rdb) out
    else analyzeClauses out subtree.children
    return out

/-- The graphs of a query tree, the first one in front. -/
def generate (root : ParseTreeNode) : Except TreeError State :=
  ((analyzeQuery root).run { master := analyzeMaster root }).map Prod.snd

end OperatorTreeGenerator

end IS

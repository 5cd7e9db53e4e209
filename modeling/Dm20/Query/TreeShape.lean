import Dm20.Query.Recognition
import Dm20.Query.SQLString

namespace IS

open Descent LeafNode SQLString
open QueryParser (keyword iequals isUnit isHierarchy)

/-- The symbols a leaf made of a token can have. -/
def Symbol.isLeaf : Symbol → Bool
  | .NUMBER | .COMPARATOR | .SIGN | .STRING | .ASTERISK | .IDENTIFIER | .SEMICOLON | .VALUES
  | .NUMBER_ARRAY | .STRING_ARRAY | .UNKNOWN => true
  | _ => false

/-- A token that becomes a leaf is the text of the leaf. -/
theorem leafNode_eq_ok {token : Str} {tree : ParseTreeNode} (h : leafNode token = .ok tree) :
    ∃ symbol : Symbol, tree = .leaf symbol token ∧ symbol.isLeaf = true := by
  unfold leafNode at h
  split at h
  · cases h
    exact ⟨_, rfl, rfl⟩
  · cases h
  · cases h
    refine ⟨_, rfl, ?_⟩
    repeat' split
    all_goals rfl

/-- A token that reads as a number becomes a number, whatever else it is. -/
theorem leafNode_number {token : Str} {tree : ParseTreeNode} (hnumber : isNumber token = true)
    (h : leafNode token = .ok tree) : tree = .leaf .NUMBER token := by
  unfold isNumber at hnumber
  unfold leafNode at h
  split at h <;> simp_all

namespace ParseTreeNode

mutual

/-- Every inner node of a tree has a property. -/
def everyNode (p : ParseTreeNode → Bool) : ParseTreeNode → Bool
  | .leaf _ _ => true
  | .node symbol values => p (.node symbol values) && everyNodes p values

def everyNodes (p : ParseTreeNode → Bool) : List ParseTreeNode → Bool
  | [] => true
  | value :: values => everyNode p value && everyNodes p values

end

private theorem everyNodes_eq_all (p : ParseTreeNode → Bool) (values : List ParseTreeNode) :
    everyNodes p values = values.all (everyNode p) := by
  induction values with
  | nil => rfl
  | cons value values ih => rw [everyNodes, ih, List.all_cons]

@[simp] theorem everyNode_leaf (p : ParseTreeNode → Bool) (symbol : Symbol) (value : Str) :
    everyNode p (.leaf symbol value) = true := rfl

@[simp] theorem everyNode_node (p : ParseTreeNode → Bool) (symbol : Symbol) (values : List ParseTreeNode) :
    everyNode p (.node symbol values) = (p (.node symbol values) && values.all (everyNode p)) := by
  rw [everyNode, everyNodes_eq_all]

mutual

theorem everyNode_mono {p q : ParseTreeNode → Bool} (hpq : ∀ t, p t = true → q t = true) :
    ∀ t, everyNode p t = true → everyNode q t = true
  | .leaf _ _, _ => rfl
  | .node symbol values, h => by
    rw [everyNode, Bool.and_eq_true] at h ⊢
    exact ⟨hpq _ h.1, everyNodes_mono hpq values h.2⟩

theorem everyNodes_mono {p q : ParseTreeNode → Bool} (hpq : ∀ t, p t = true → q t = true) :
    ∀ values, everyNodes p values = true → everyNodes q values = true
  | [], _ => rfl
  | value :: values, h => by
    rw [everyNodes, Bool.and_eq_true] at h ⊢
    exact ⟨everyNode_mono hpq value h.1, everyNodes_mono hpq values h.2⟩

end

theorem toSQLStrings_eq_map (values : List ParseTreeNode) : toSQLStrings values = values.map toSQLString := by
  induction values with
  | nil => rfl
  | cons value values ih => rw [toSQLStrings, ih, List.map_cons]

end ParseTreeNode

open ParseTreeNode

/-- The symbols of the clauses the operators of a query depend on. -/
def Symbol.isClause : Symbol → Bool
  | .TABLE | .SELECT | .CREATE_STREAM | .DROP_STREAM => true
  | _ => false

/-- A tree that has a text and no clause of an operator in it. -/
structure IsPlain (t : ParseTreeNode) : Prop where
  prints : t.toSQLString.isOk = true
  clauses : t.everyNode (fun node => !node.getSymbol.isClause) = true

/-- The trees of expressions: a leaf, an expression in parentheses or a function. -/
inductive IsExpression : ParseTreeNode → Prop where
  | operand {symbol : Symbol} {value : Str} (hsymbol : symbol.isLeaf = true) :
      IsExpression (.node .EXPRESSION [.leaf symbol value])
  | parenthesised {e : ParseTreeNode} (he : IsExpression e) : IsExpression (.node .EXPRESSION [e])
  | function {symbol : Symbol} {name : Str} {arguments : List ParseTreeNode}
      (harguments : ∀ a ∈ arguments, IsExpression a) :
      IsExpression (.node .EXPRESSION
        [.node .FUNCTION [.leaf symbol name, .node .EXPRESSION_LIST arguments]])

/-- An item of a select list: an expression, with a new name or without. -/
inductive IsSelectItem : ParseTreeNode → Prop where
  | expression {e : ParseTreeNode} (he : IsExpression e) : IsSelectItem e
  | renamed {symbol : Symbol} {name : Str} {e : ParseTreeNode} (he : IsExpression e) :
      IsSelectItem (.node .EXPRESSION_RENAME [.leaf symbol name, e])

inductive IsSelectList : ParseTreeNode → Prop where
  | items {items : List ParseTreeNode} (hne : items ≠ []) (hitems : ∀ i ∈ items, IsSelectItem i) :
      IsSelectList (.node .SELECT_LIST items)

inductive IsSelect : ParseTreeNode → Prop where
  | asterisk {value : Str} : IsSelect (.node .SELECT [.leaf .ASTERISK value])
  | list {list : ParseTreeNode} (hlist : IsSelectList list) : IsSelect (.node .SELECT [list])

inductive IsPredicate : ParseTreeNode → Prop where
  | compare {left right : ParseTreeNode} {comparator : Str} (hleft : IsExpression left)
      (hright : IsExpression right) : IsPredicate (.node .PREDICATE [left, .leaf .COMPARATOR comparator, right])

/-- A WHERE clause, or none. -/
inductive IsWhere : List ParseTreeNode → Prop where
  | none : IsWhere []
  | predicates {predicates : List ParseTreeNode} (hpredicates : ∀ p ∈ predicates, IsPredicate p) :
      IsWhere [.node .WHERE [.node .PREDICATE_LIST predicates]]

/-- A PARTITION clause, or none. -/
inductive IsPartition : List ParseTreeNode → Prop where
  | none : IsPartition []
  | columns {symbol : Symbol} {byWord : Str} {list : ParseTreeNode} (hlist : IsSelectList list) :
      IsPartition [.node .PARTITION [.leaf symbol byWord, list]]

inductive IsWindow : ParseTreeNode → Prop where
  | rows {symbol : Symbol} {type number : Str} (htype : iequals type "ROWS".toList = true)
      (hnumber : isNumber number = true) :
      IsWindow (.node .WINDOW [.leaf symbol type, .leaf .NUMBER number])
  | sorted {symbol sortSymbol seedSymbol numberSymbol : Symbol} {type number sort limit seed seedNumber : Str}
      (htype : iequals type "ROWS".toList = true) (hnumber : isNumber number = true)
      (hlimit : isNumber limit = true) :
      IsWindow (.node .WINDOW [.leaf symbol type, .leaf .NUMBER number, .leaf sortSymbol sort,
        .leaf .NUMBER limit, .leaf seedSymbol seed, .leaf numberSymbol seedNumber])
  | range {symbol unitSymbol : Symbol} {type number unit : Str} (htype : iequals type "RANGE".toList = true)
      (hnumber : isNumber number = true) (hunit : isUnit unit = true) :
      IsWindow (.node .WINDOW [.leaf symbol type, .leaf .NUMBER number, .leaf unitSymbol unit])

/-- A HIERARCHY clause, or none. -/
inductive IsHierarchy : List ParseTreeNode → Prop where
  | none : IsHierarchy []
  | level {symbol : Symbol} {level : Str} (hlevel : isHierarchy level = true) :
      IsHierarchy [.node .HIERARCHY [.leaf symbol level]]
  | nearby {symbol : Symbol} {level number : Str} (hlevel : keyword "NEARBY" level = true) :
      IsHierarchy [.node .HIERARCHY [.leaf symbol level, .leaf .NUMBER number]]

/-- What a FROM clause reads: a table by its name, with a window or without, a
subquery, or one of them with a new name; and the subqueries themselves. -/
inductive IsRelation : ParseTreeNode → Prop where
  | name {symbol : Symbol} {name : Str} (hsymbol : symbol = .IDENTIFIER ∨ symbol = .NUMBER) :
      IsRelation (.node .TABLE [.leaf symbol name])
  | window {symbol : Symbol} {name : Str} {partition level : List ParseTreeNode} {window : ParseTreeNode}
      (hsymbol : symbol = .IDENTIFIER ∨ symbol = .NUMBER) (hpartition : IsPartition partition)
      (hwindow : IsWindow window) (hlevel : IsHierarchy level) :
      IsRelation (.node .TABLE ([.leaf symbol name] ++ partition ++ [window] ++ level))
  | nested {t : ParseTreeNode} (ht : IsRelation t) (hsymbol : t.getSymbol = .SUBQUERY) :
      IsRelation (.node .TABLE [t])
  | renamed {symbol : Symbol} {name : Str} {t : ParseTreeNode} (ht : IsRelation t)
      (hsymbol : t.getSymbol = .TABLE) : IsRelation (.node .TABLE_RENAME [.leaf symbol name, t])
  | subquery {select : ParseTreeNode} {tables wh : List ParseTreeNode} (hselect : IsSelect select)
      (hne : tables ≠ []) (htables : ∀ t ∈ tables, IsRelation t)
      (hsymbols : ∀ t ∈ tables, t.getSymbol = .TABLE ∨ t.getSymbol = .TABLE_RENAME) (hwh : IsWhere wh) :
      IsRelation (.node .SUBQUERY ([select, .node .FROM [.node .FROM_LIST tables]] ++ wh))

def IsSubquery (t : ParseTreeNode) : Prop :=
  IsRelation t ∧ t.getSymbol = .SUBQUERY

/-- A subquery or a union of two or more. -/
inductive IsSelection : ParseTreeNode → Prop where
  | subquery {t : ParseTreeNode} (ht : IsSubquery t) : IsSelection t
  | union {first second : ParseTreeNode} {rest : List ParseTreeNode}
      (hsubqueries : ∀ t ∈ first :: second :: rest, IsSubquery t) :
      IsSelection (.node .UNION (first :: second :: rest))

/-- A MASTER clause, or none. -/
inductive IsMaster : List ParseTreeNode → Prop where
  | none : IsMaster []
  | names {names : List ParseTreeNode} (hne : names ≠ [])
      (hnames : ∀ t ∈ names, ∃ symbol name, t = .leaf symbol name ∧ (symbol = .IDENTIFIER ∨ symbol = .NUMBER) ∧
        name ≠ []) :
      IsMaster [.node .MASTER [.node .MASTER_LIST names]]

/-- A recursive clause, or none. -/
inductive IsRecursive : List ParseTreeNode → Prop where
  | none : IsRecursive []
  | union {symbol : Symbol} {name : Str} {subqueries : List ParseTreeNode} (hne : subqueries ≠ [])
      (hsubqueries : ∀ t ∈ subqueries, IsSubquery t) :
      IsRecursive [.node .WITH_RECURSIVE [.leaf symbol name, .node .UNION subqueries]]

/-- The trees of queries. -/
inductive IsQuery : ParseTreeNode → Prop where
  | plain {values : List ParseTreeNode} (hvalues : ∀ t ∈ values, IsPlain t) : IsQuery (.node .QUERY values)
  | createStream {values : List ParseTreeNode}
      (hlength : values.length = 2 ∨ values.length = 4 ∨ values.length = 6)
      (hvalues : ∀ t ∈ values, IsPlain t) : IsQuery (.node .QUERY [.node .CREATE_STREAM values])
  | dropStream {symbol : Symbol} {name : Str} :
      IsQuery (.node .QUERY [.node .DROP_STREAM [.leaf symbol name]])
  | insert {symbol : Symbol} {name : Str} {columns : List ParseTreeNode} {selection : ParseTreeNode}
      (hcolumns : ∀ t ∈ columns, IsPlain t) (hselection : IsSelection selection) :
      IsQuery (.node .QUERY [.node .INSERT_INTO (.leaf symbol name :: columns ++ [selection])])
  | selection {master wth : List ParseTreeNode} {selection : ParseTreeNode} (hmaster : IsMaster master)
      (hwith : IsRecursive wth) (hselection : IsSelection selection) :
      IsQuery (.node .QUERY (master ++ wth ++ [selection]))

/-- A text put together is printed just if each of its parts is. -/
theorem concat_isOk (ts : List Text) : (concat ts).isOk = ts.all Except.isOk := by
  induction ts with
  | nil => rfl
  | cons t ts ih =>
    rw [List.all_cons, ← ih]
    cases t with
    | error e => rfl
    | ok first => cases h : concat ts <;> simp [concat, h, bind, Except.bind, pure, Except.pure]

@[simp] theorem text_isOk (s : String) : (text s).isOk = true := rfl

theorem concatChildNodes_isOk (separator : String) (sql : List Text) :
    (concatChildNodes separator sql).isOk = sql.all Except.isOk := by
  rw [concatChildNodes, concat_isOk]
  induction sql with
  | nil => rfl
  | cons t ts ih =>
    cases ts with
    | nil => rfl
    | cons t' ts => simp [List.intersperse, ← ih]

theorem insertItems_isOk (values : List ParseTreeNode) :
    (insertItems values (values.map toSQLString)).all Except.isOk = (values.map toSQLString).all Except.isOk := by
  induction values with
  | nil => rfl
  | cons value values ih =>
    rw [List.map_cons, insertItems, List.all_append, ih, List.all_cons]
    congr 1
    split <;> simp

namespace IsPlain

theorem leaf (symbol : Symbol) (value : Str) : IsPlain (.leaf symbol value) where
  prints := by cases symbol <;> rfl
  clauses := rfl

theorem node {symbol : Symbol} {values : List ParseTreeNode} (hsymbol : symbol.isClause = false)
    (hvalues : ∀ t ∈ values, IsPlain t) (htext : (nodeText symbol values (values.map toSQLString)).isOk = true) :
    IsPlain (.node symbol values) where
  prints := by rwa [toSQLString, toSQLStrings_eq_map]
  clauses := by
    rw [everyNode_node, Bool.and_eq_true, List.all_eq_true]
    exact ⟨by simp [getSymbol, hsymbol], fun t ht => (hvalues t ht).clauses⟩

/-- What holds of each node without a clause holds of all nodes of a plain tree. -/
theorem everyNode {p : ParseTreeNode → Bool} (hp : ∀ t : ParseTreeNode, t.getSymbol.isClause = false → p t = true)
    {t : ParseTreeNode} (ht : IsPlain t) : t.everyNode p = true :=
  everyNode_mono (fun node hnode => hp node (by simpa using hnode)) t ht.clauses

theorem all_everyNode {p : ParseTreeNode → Bool}
    (hp : ∀ t : ParseTreeNode, t.getSymbol.isClause = false → p t = true) {values : List ParseTreeNode}
    (hvalues : ∀ t ∈ values, IsPlain t) : values.all (ParseTreeNode.everyNode p) = true :=
  List.all_eq_true.mpr fun t ht => (hvalues t ht).everyNode hp

theorem all_prints {values : List ParseTreeNode} (hvalues : ∀ t ∈ values, IsPlain t) :
    (values.map toSQLString).all Except.isOk = true := by
  rw [List.all_map, List.all_eq_true]
  exact fun t ht => (hvalues t ht).prints

/-- A list of trees with separators between them. -/
theorem list {symbol : Symbol} {separator : String} {values : List ParseTreeNode} (hsymbol : symbol.isClause = false)
    (htext : ∀ sql, nodeText symbol values sql = concatChildNodes separator sql)
    (hvalues : ∀ t ∈ values, IsPlain t) : IsPlain (.node symbol values) := by
  refine node hsymbol hvalues ?_
  rw [htext, concatChildNodes_isOk]
  exact all_prints hvalues

private theorem expression {t : ParseTreeNode} (ht : IsPlain t) : IsPlain (.node .EXPRESSION [t]) :=
  node rfl (by simpa using ht) (by simpa [nodeText, sqlOf] using ht.prints)

private theorem function {name list : ParseTreeNode} (hname : IsPlain name) (hlist : IsPlain list) :
    IsPlain (.node .FUNCTION [name, list]) :=
  node rfl (by simp [hname, hlist]) (by simp [nodeText, sqlOf, concat_isOk, hname.prints, hlist.prints])

private theorem rename {name t : ParseTreeNode} (hname : IsPlain name) (ht : IsPlain t) :
    IsPlain (.node .EXPRESSION_RENAME [name, t]) :=
  node rfl (by simp [hname, ht]) (by simp [nodeText, sqlOf, valueOf, concat_isOk, ht.prints])

end IsPlain

theorem IsExpression.symbol {t : ParseTreeNode} (h : IsExpression t) : t.getSymbol = .EXPRESSION := by
  cases h <;> rfl

/-- An expression is plain: no clause is in it. -/
theorem IsExpression.plain {t : ParseTreeNode} (h : IsExpression t) : IsPlain t := by
  induction h with
  | operand _ => exact .expression (.leaf _ _)
  | parenthesised _ ih => exact .expression ih
  | function _ ih => exact .expression (.function (.leaf _ _) (.list rfl (fun _ => rfl) ih))

theorem IsSelectItem.plain {t : ParseTreeNode} (h : IsSelectItem t) : IsPlain t := by
  cases h with
  | expression he => exact he.plain
  | renamed he => exact .rename (.leaf _ _) he.plain

theorem IsSelectList.plain {t : ParseTreeNode} (h : IsSelectList t) : IsPlain t := by
  obtain ⟨-, hitems⟩ := h
  exact .list rfl (fun _ => rfl) fun t ht => (hitems t ht).plain

theorem IsPredicate.plain {t : ParseTreeNode} (h : IsPredicate t) : IsPlain t := by
  obtain ⟨hleft, hright⟩ := h
  refine .list rfl (fun _ => rfl) ?_
  simp [hleft.plain, hright.plain, IsPlain.leaf]

/-- A condition is plain. -/
theorem IsWhere.plain {wh : List ParseTreeNode} (h : IsWhere wh) : ∀ t ∈ wh, IsPlain t := by
  cases h with
  | none => simp
  | predicates hpredicates =>
    have hlist : IsPlain (.node .PREDICATE_LIST _) :=
      .list rfl (fun _ => rfl) fun t ht => (hpredicates t ht).plain
    simp only [List.mem_singleton, forall_eq]
    exact .node rfl (by simpa using hlist) (by simpa [nodeText, sqlOf, concat_isOk] using hlist.prints)

/-- A window is plain. -/
theorem IsWindow.plain {window : ParseTreeNode} (h : IsWindow window) : IsPlain window := by
  cases h <;> exact .list rfl (fun _ => rfl) (by simp [IsPlain.leaf])

theorem IsPartition.plain {partition : List ParseTreeNode} (h : IsPartition partition) : ∀ t ∈ partition, IsPlain t := by
  cases h with
  | none => simp
  | columns hlist =>
    simp only [List.mem_singleton, forall_eq]
    exact .list rfl (fun _ => rfl) (by simp [IsPlain.leaf, hlist.plain])

theorem IsHierarchy.plain {level : List ParseTreeNode} (h : IsHierarchy level) : ∀ t ∈ level, IsPlain t := by
  cases h with
  | none => simp
  | level _ =>
    simp only [List.mem_singleton, forall_eq]
    exact .node rfl (by simp [IsPlain.leaf]) rfl
  | nearby _ =>
    simp only [List.mem_singleton, forall_eq]
    exact .node rfl (by simp [IsPlain.leaf]) rfl

/-- The parts of a table with a window. -/
theorem IsWindow.table_plain {partition level : List ParseTreeNode} {window : ParseTreeNode}
    (hwindow : IsWindow window) (hpartition : IsPartition partition) (hlevel : IsHierarchy level) (symbol : Symbol)
    (name : Str) : ∀ t ∈ [.leaf symbol name] ++ partition ++ [window] ++ level, IsPlain t := by
  simp only [List.mem_append, List.mem_singleton]
  rintro t (((rfl | ht) | rfl) | ht)
  · exact .leaf _ _
  · exact hpartition.plain t ht
  · exact hwindow.plain
  · exact hlevel.plain t ht

end IS

import Dm20.Lib.Stateful
import Dm20.Query.AcceptedTrees
import Dm20.Query.OperatorTree

namespace IS

open ParseTreeNode Stateful SQLString

namespace OperatorTreeGenerator

mutual

/-- An item of a select list the generator knows: a name, a number or a string,
or a function of such items. -/
def knownExpression : ParseTreeNode → Bool
  | .node .EXPRESSION [child] => knownOperand child
  | _ => false

def knownOperand : ParseTreeNode → Bool
  | .leaf symbol _ => symbol = .IDENTIFIER ∨ symbol = .NUMBER ∨ symbol = .STRING
  | .node .FUNCTION [_, arguments] => knownArguments arguments
  | .node _ _ => false

def knownArguments : ParseTreeNode → Bool
  | .node _ values => knownExpressions values
  | .leaf _ _ => false

def knownExpressions : List ParseTreeNode → Bool
  | [] => true
  | value :: values => knownExpression value && knownExpressions values

end

def knownItem : ParseTreeNode → Bool
  | .node .EXPRESSION_RENAME [_, e] => knownExpression e
  | e => knownExpression e

/-- A table has a window or is a subquery; the items of a select list are known. -/
def knownClause : ParseTreeNode → Bool
  | .node .TABLE [.leaf _ _] => false
  | .node .SELECT [.node .SELECT_LIST items] => items.all knownItem
  | _ => true

/-- A table without a window is a subquery or has a name that is not read as a number. -/
def namedTable : ParseTreeNode → Bool
  | .node .TABLE [.leaf symbol _] => symbol = .IDENTIFIER
  | _ => true

def isInsert : ParseTreeNode → Bool
  | .node .QUERY [.node .INSERT_INTO _] => true
  | _ => false

/-- The recursive clause of a query has one subquery only. -/
def singleRecursion : ParseTreeNode → Bool
  | .node .QUERY values => values.any fun value =>
    match value with
    | .node .WITH_RECURSIVE [_, .node .UNION [_]] => true
    | _ => false
  | _ => false

/-- What the generator can turn into operators: each part it looks at has the
children it looks for. -/
def Analysable (tree : ParseTreeNode) : Prop :=
  if isRDB tree = .ok true then tree.everyNode namedTable = true
  else isInsert tree = true ∨ singleRecursion tree = true ∨ tree.everyNode knownClause = true

instance (tree : ParseTreeNode) : Decidable (Analysable tree) :=
  inferInstanceAs (Decidable (if isRDB tree = .ok true then tree.everyNode namedTable = true
    else isInsert tree = true ∨ singleRecursion tree = true ∨ tree.everyNode knownClause = true))

/-- A computation ends with a property if the flag is set; otherwise it stops at
a null node. -/
def Settles {α : Type} (flag : Bool) (x : Gen α) (P : α → Prop) : Prop :=
  if flag then Returns x P else Fails .nullNode x

/-- The result is a node if the flag is set. -/
abbrev Supplies (flag : Bool) (x : Gen NodePtr) : Prop :=
  Settles flag x fun r => r.isSome = true

/-- The result is a node if the flag is set; otherwise it is null, or the
computation stops at a null node. -/
def Follows (flag : Bool) (x : Gen NodePtr) : Prop :=
  if flag then Returns x fun r => r.isSome = true else ReturnsOr .nullNode x fun r => r = none

/-- A node is always added. -/
theorem operator_returns (type : String) (parameter : Str) : Returns (operator type parameter) fun _ => True :=
  fun _ => ⟨_, _, rfl, trivial⟩

/-- An edge from a node that exists is always added. -/
theorem createEdge_returns (source target : Nat) : Returns (createEdge (some source) target) fun _ => True :=
  fun _ => ⟨_, _, rfl, trivial⟩

private theorem createEdge_fails (target : Nat) : Fails .nullNode (createEdge none target) :=
  fun _ => rfl

/-- Two steps in a row fail by a null node just if one of them does. -/
theorem Settles.bind {α β : Type} {flag flag' : Bool} {x : Gen α} {k : α → Gen β} {P : α → Prop} {Q : β → Prop}
    (hx : Settles flag x P) (hk : ∀ a, P a → Settles flag' (k a) Q) : Settles (flag && flag') (x >>= k) Q := by
  cases flag with
  | false => exact Fails.bind hx
  | true =>
    cases flag' with
    | false => exact Returns.bind_fails hx hk
    | true => exact Returns.bind hx hk

/-- A part that always ends leaves the flag to what follows it. -/
theorem Settles.after {α β : Type} {flag : Bool} {x : Gen α} {k : α → Gen β} {P : α → Prop} {Q : β → Prop}
    (hx : Returns x P) (hk : ∀ a, P a → Settles flag (k a) Q) : Settles flag (x >>= k) Q := by
  have hsettles : Settles true x P := hx
  exact hsettles.bind hk

/-- A part behind one that has the flag always ends. -/
theorem Settles.before {α β : Type} {flag : Bool} {x : Gen α} {k : α → Gen β} {P : α → Prop} {Q : β → Prop}
    (hx : Settles flag x P) (hk : ∀ a, P a → Returns (k a) Q) : Settles flag (x >>= k) Q := by
  have hsettles : ∀ a, P a → Settles true (k a) Q := hk
  have h := hx.bind hsettles
  rwa [Bool.and_true] at h

/-- A part of the graph with a node at its end follows its own flag. -/
theorem Supplies.follows {flag : Bool} {x : Gen NodePtr} (hx : Supplies flag x) : Follows flag x := by
  cases flag with
  | false => exact Fails.or hx
  | true => exact hx

theorem Follows.null : Follows false (pure none : Gen NodePtr) :=
  Returns.or (Returns.pure rfl)

/-- A node that is given is passed on as it is. -/
theorem Follows.pure (input : NodePtr) : Follows input.isSome (Pure.pure input : Gen NodePtr) := by
  cases input with
  | none => exact Follows.null
  | some source => exact Returns.pure rfl

/-- In a row of parts each gets the node of the one before it, or none. -/
theorem Follows.bind {flag flag' : Bool} {x : Gen NodePtr} {k : NodePtr → Gen NodePtr} (hx : Follows flag x)
    (hk : ∀ r, Follows (r.isSome && flag') (k r)) : Follows (flag && flag') (x >>= k) := by
  cases flag with
  | false =>
    refine ReturnsOr.bind hx ?_
    rintro r rfl
    exact hk none
  | true =>
    have hsome : ∀ r : NodePtr, r.isSome = true → Follows flag' (k r) := fun r hr => by simpa [hr] using hk r
    cases flag' with
    | false => exact ReturnsOr.bind (Returns.or hx) hsome
    | true => exact Returns.bind hx hsome

/-- An edge from the result shows whether it is null. -/
theorem Follows.edge {flag : Bool} {x : Gen NodePtr} {k : NodePtr → Gen NodePtr} (hx : Follows flag x)
    (hsome : ∀ source, Returns (k (some source)) fun r => r.isSome = true) (hnone : Fails .nullNode (k none)) :
    Supplies flag (x >>= k) := by
  cases flag with
  | false =>
    refine ReturnsOr.bind_fails hx ?_
    rintro r rfl
    exact hnone
  | true =>
    refine Returns.bind hx fun r hr => ?_
    obtain ⟨source, rfl⟩ := Option.isSome_iff_exists.mp hr
    exact hsome source

private theorem analyzeExpressions_ok {values : List ParseTreeNode}
    (h : ∀ t ∈ values, ∃ text, analyzeExpression t = .ok text) :
    ∃ texts, analyzeExpressions values = .ok texts := by
  induction values with
  | nil => exact ⟨[], rfl⟩
  | cons value values ih =>
    obtain ⟨text, htext⟩ := h value (by simp)
    obtain ⟨texts, htexts⟩ := ih fun t ht => h t (by simp [ht])
    exact ⟨text :: texts, by simp [analyzeExpressions, htext, htexts, bind, Except.bind, pure, Except.pure]⟩

private theorem analyzeExpression_ok {t : ParseTreeNode} (h : IsExpression t) :
    ∃ text, analyzeExpression t = .ok text := by
  induction h with
  | @operand symbol value hsymbol => cases symbol <;> cases hsymbol <;> exact ⟨_, rfl⟩
  | parenthesised he ih =>
    cases he <;> exact ih
  | @function symbol name arguments _ ih =>
    obtain ⟨texts, htexts⟩ := analyzeExpressions_ok ih
    simp [analyzeExpression, getSymbol, analyzeFunction, analyzeExpressionList, htexts, Except.map]

private theorem columnText_ok {t : ParseTreeNode} (h : IsSelectItem t) : ∃ text, columnText t = .ok text := by
  cases h with
  | expression he =>
    rw [columnText, if_pos he.symbol]
    exact analyzeExpression_ok he
  | renamed he => exact analyzeExpression_ok he

/-- The columns of a select list or of arguments are always found. -/
theorem findColumns_ok {symbol : Symbol} {items : List ParseTreeNode}
    (hsymbol : symbol = .SELECT_LIST ∨ symbol = .EXPRESSION_LIST) (h : ∀ t ∈ items, IsSelectItem t) :
    ∃ text, findColumns (.node symbol items) = .ok text := by
  obtain ⟨texts, htexts⟩ := Except.exists_mapM_eq_ok fun t ht => columnText_ok (h t ht)
  exact ⟨_, by rw [findColumns, if_pos (by exact hsymbol), children, htexts]; rfl⟩

private theorem selectListItems_follows {values : List ParseTreeNode}
    (h : ∀ t ∈ values, ∀ input : NodePtr, Follows (input.isSome && knownExpression t) (analyzeSelectListExpression t input))
    (input : NodePtr) : Follows (input.isSome && knownExpressions values) (selectListItems values input) := by
  induction values generalizing input with
  | nil => simpa [knownExpressions, selectListItems] using Follows.pure input
  | cons value values ih =>
    rw [knownExpressions, ← Bool.and_assoc, selectListItems]
    exact (h value (by simp) input).bind fun r => ih (fun t ht => h t (by simp [ht])) r

/-- A column or a function makes a node if it is of a known kind and follows one, and otherwise
fails without a null node. -/
private theorem analyzeSelectListExpression_follows {t : ParseTreeNode} (h : IsExpression t) (input : NodePtr) :
    Follows (input.isSome && knownExpression t) (analyzeSelectListExpression t input) := by
  induction h generalizing input with
  | @operand symbol value hsymbol =>
    rw [knownExpression, knownOperand]
    by_cases hknown : symbol = .IDENTIFIER ∨ symbol = .NUMBER ∨ symbol = .STRING
    · have heq : analyzeSelectListExpression (.node .EXPRESSION [.leaf symbol value]) input = pure input := by
        rw [analyzeSelectListExpression]
        exact if_pos hknown
      rw [heq, decide_eq_true hknown, Bool.and_true]
      exact Follows.pure input
    · have hfunction : symbol ≠ .FUNCTION := by
        rintro rfl
        cases hsymbol
      have heq : analyzeSelectListExpression (.node .EXPRESSION [.leaf symbol value]) input = pure none := by
        rw [analyzeSelectListExpression]
        exact (if_neg hknown).trans (if_neg hfunction)
      rw [heq, decide_eq_false hknown, Bool.and_false]
      exact Follows.null
  | @parenthesised e he ih =>
    obtain ⟨values, rfl⟩ : ∃ values, e = .node .EXPRESSION values := by
      cases he <;> exact ⟨_, rfl⟩
    simpa [analyzeSelectListExpression, getSymbol, knownExpression, knownOperand] using Follows.null
  | @function symbol name arguments harguments ih =>
    obtain ⟨columns, hcolumns⟩ := findColumns_ok (.inr rfl) fun t ht => .expression (harguments t ht)
    simp only [analyzeSelectListExpression, getSymbol, knownExpression, knownOperand, knownArguments, selectListFunction,
      selectListArguments]
    refine ((selectListItems_follows ih input).edge (fun source => ?_) ?_).follows
    · exact (Returns.lift hcolumns).bind fun _ _ => (operator_returns _ _).bind fun eval _ =>
        (createEdge_returns source eval).bind fun _ _ => .pure rfl
    · exact (Returns.lift hcolumns).bind_fails fun _ _ => (operator_returns _ _).bind_fails fun eval _ =>
        (createEdge_fails eval).bind

theorem selectItems_expression {e : ParseTreeNode} (he : IsExpression e) (items : List ParseTreeNode) (input : NodePtr) :
    selectItems (e :: items) input = analyzeSelectListExpression e input >>= selectItems items := by
  cases he <;> rfl

theorem renameColumns_expression {e : ParseTreeNode} (he : IsExpression e) (items : List ParseTreeNode) (out : Nat) :
    renameColumns (e :: items) out = renameColumns items out := by
  cases he <;> rfl

theorem renameColumns_renamed (name e : ParseTreeNode) (items : List ParseTreeNode) (out : Nat) :
    renameColumns (.node .EXPRESSION_RENAME [name, e] :: items) out = (do
      let oldname ← (analyzeExpression e : Except TreeError Str)
      let rename ← operator "renameColumn" (oldname ++ " as ".toList ++ name.getValue)
      createEdge (some out) rename
      renameColumns items rename) := rfl

theorem analyzeSelect_asterisk (value : Str) (wh : Gen NodePtr) :
    analyzeSelect (.node .SELECT [.leaf .ASTERISK value]) wh = wh := by
  funext s
  cases h : wh s with
  | error e => exact bind_of_error h
  | ok r => exact bind_of_ok h

theorem analyzeSelect_list (items : List ParseTreeNode) (wh : Gen NodePtr) :
    analyzeSelect (.node .SELECT [.node .SELECT_LIST items]) wh = (do
      let input ← wh
      let input ← selectItems items input
      let columns ← (findColumns (.node .SELECT_LIST items) : Except TreeError Str)
      let projection ← operator "projection" columns
      createEdge input projection
      let out ← renameColumns items projection
      return some out) := rfl

theorem analyzePredicate_compare (left right : ParseTreeNode) (comparator : Str) (topNode : NodePtr) :
    analyzePredicate (.node .PREDICATE [left, .leaf .COMPARATOR comparator, right]) topNode = (do
      let leftTop ← analyzeTopExpression left topNode
      let rightTop ← analyzeTopExpression right leftTop.2
      return (leftTop.1 ++ comparator ++ rightTop.1, rightTop.2)) := rfl

theorem analyzeWhere_none (analyzeFrom : Gen NodePtr) : analyzeWhere analyzeFrom [] = analyzeFrom := by
  funext s
  cases h : analyzeFrom s with
  | error e => exact bind_of_error h
  | ok r => exact bind_of_ok h

theorem analyzePredicateList_node (predicates : List ParseTreeNode) (topNode : NodePtr) :
    analyzePredicateList (.node .PREDICATE_LIST predicates) topNode = (do
      let textsTop ← analyzePredicates predicates topNode
      return (" AND ".toList.intercalate textsTop.1, textsTop.2)) := rfl

theorem analyzeWhere_predicates (analyzeFrom : Gen NodePtr) (list : ParseTreeNode) :
    analyzeWhere analyzeFrom [.node .WHERE [list]] = (do
      let source ← analyzeFrom
      let paramTop ← analyzePredicateList list source
      let selection ← operator "selection" paramTop.1
      createEdge paramTop.2 selection
      return some selection) := rfl

/-- A select list makes a node if its items are of known kinds and follow one. -/
private theorem selectItems_follows {items : List ParseTreeNode} (h : ∀ t ∈ items, IsSelectItem t) (input : NodePtr) :
    Follows (input.isSome && items.all knownItem) (selectItems items input) := by
  induction items generalizing input with
  | nil => simpa [selectItems] using Follows.pure input
  | cons item items ih =>
    have hrest := fun r => ih (fun t ht => h t (by simp [ht])) r
    rw [List.all_cons, ← Bool.and_assoc]
    cases h item (by simp) with
    | expression he =>
      have hitem : knownItem item = knownExpression item := by cases he <;> rfl
      rw [hitem, selectItems_expression he]
      exact (analyzeSelectListExpression_follows he input).bind hrest
    | renamed he => exact (analyzeSelectListExpression_follows he input).bind hrest

/-- Renaming the columns of a select list needs no node but the one in front of it. -/
private theorem renameColumns_returns {items : List ParseTreeNode} (h : ∀ t ∈ items, IsSelectItem t) (out : Nat) :
    Returns (renameColumns items out) fun _ => True := by
  induction items generalizing out with
  | nil => exact .pure trivial
  | cons item items ih =>
    have hrest := fun renamed => ih (fun t ht => h t (by simp [ht])) renamed
    cases h item (by simp) with
    | expression he =>
      rw [renameColumns_expression he]
      exact hrest out
    | renamed he =>
      obtain ⟨oldname, holdname⟩ := analyzeExpression_ok he
      rw [renameColumns_renamed]
      exact (Returns.lift holdname).bind fun _ _ => (operator_returns _ _).bind fun rename _ =>
        (createEdge_returns out rename).bind fun _ _ => hrest rename

/-- A select clause supplies a node where the clauses behind it do and its own kinds are known. -/
private theorem analyzeSelect_supplies {select : ParseTreeNode} (h : IsSelect select) {flag : Bool} {wh : Gen NodePtr}
    (hwh : Supplies flag wh) : Supplies (flag && knownClause select) (analyzeSelect select wh) := by
  cases h with
  | asterisk =>
    rw [analyzeSelect_asterisk]
    simpa [knownClause] using hwh
  | list hlist =>
    obtain ⟨-, hitems⟩ := hlist
    obtain ⟨columns, hcolumns⟩ := findColumns_ok (.inl rfl) hitems
    rw [analyzeSelect_list, knownClause]
    refine Settles.bind hwh fun input hinput => ?_
    have hselect := selectItems_follows hitems input
    rw [hinput, Bool.true_and] at hselect
    refine hselect.edge (fun source => ?_) ?_
    · exact (Returns.lift hcolumns).bind fun _ _ => (operator_returns _ _).bind fun projection _ =>
        (createEdge_returns source projection).bind fun _ _ => (renameColumns_returns hitems projection).bind fun _ _ =>
          .pure rfl
    · exact (Returns.lift hcolumns).bind_fails fun _ _ => (operator_returns _ _).bind_fails fun projection _ =>
        (createEdge_fails projection).bind

/-- The second part of a result is a node. -/
def HasTop {α : Type} (r : α × NodePtr) : Prop :=
  r.2.isSome = true

/-- Behind a part with a node at its top, the next part has one to lead from. -/
theorem HasTop.bind {α β : Type} {x : Gen (α × NodePtr)} {k : α × NodePtr → Gen β} {Q : β → Prop} (hx : Returns x HasTop)
    (hk : ∀ a topNode, Returns (k (a, some topNode)) Q) : Returns (x >>= k) Q := by
  refine hx.bind ?_
  rintro ⟨a, top⟩ htop
  obtain ⟨topNode, rfl⟩ := Option.isSome_iff_exists.mp htop
  exact hk a topNode

private theorem analyzeTopExpressions_returns {values : List ParseTreeNode}
    (h : ∀ t ∈ values, ∀ topNode, Returns (analyzeTopExpression t (some topNode)) HasTop) (topNode : Nat) :
    Returns (analyzeTopExpressions values (some topNode)) HasTop := by
  induction values generalizing topNode with
  | nil => exact .pure rfl
  | cons value values ih =>
    exact HasTop.bind (h value (by simp) topNode) fun _ topNode' =>
      HasTop.bind (ih (fun t ht => h t (by simp [ht])) topNode') fun _ _ => .pure rfl

/-- An expression behind a node leaves a node. -/
private theorem analyzeTopExpression_returns {t : ParseTreeNode} (h : IsExpression t) (topNode : Nat) :
    Returns (analyzeTopExpression t (some topNode)) HasTop := by
  induction h generalizing topNode with
  | @operand symbol value hsymbol => cases symbol <;> cases hsymbol <;> exact .pure rfl
  | parenthesised he ih =>
    rw [analyzeTopExpression, if_pos he.symbol]
    exact ih topNode
  | function _ ih =>
    exact HasTop.bind (HasTop.bind (analyzeTopExpressions_returns ih topNode) fun _ _ => .pure rfl) fun _ source =>
      (operator_returns _ _).bind fun eval _ => (createEdge_returns source eval).bind fun _ _ => .pure rfl

private theorem analyzePredicate_returns {predicate : ParseTreeNode} (h : IsPredicate predicate) (topNode : Nat) :
    Returns (analyzePredicate predicate (some topNode)) HasTop := by
  obtain ⟨hleft, hright⟩ := h
  rw [analyzePredicate_compare]
  exact HasTop.bind (analyzeTopExpression_returns hleft topNode) fun _ source =>
    HasTop.bind (analyzeTopExpression_returns hright source) fun _ _ => .pure rfl

private theorem analyzePredicates_returns {predicates : List ParseTreeNode} (h : ∀ p ∈ predicates, IsPredicate p)
    (topNode : Nat) : Returns (analyzePredicates predicates (some topNode)) HasTop := by
  induction predicates generalizing topNode with
  | nil => exact .pure rfl
  | cons predicate predicates ih =>
    exact HasTop.bind (analyzePredicate_returns (h predicate (by simp)) topNode) fun _ source =>
      HasTop.bind (ih (fun p hp => h p (by simp [hp])) source) fun _ _ => .pure rfl

/-- A condition supplies a node where the clause in front of it does. -/
private theorem analyzeWhere_supplies {wh : List ParseTreeNode} (h : IsWhere wh) {flag : Bool}
    {analyzeFrom : Gen NodePtr}
    (hfrom : Supplies flag analyzeFrom) : Supplies flag (analyzeWhere analyzeFrom wh) := by
  cases h with
  | none => rwa [analyzeWhere_none]
  | predicates hpredicates =>
    rw [analyzeWhere_predicates]
    refine Settles.before hfrom fun source hsource => ?_
    obtain ⟨topNode, rfl⟩ := Option.isSome_iff_exists.mp hsource
    rw [analyzePredicateList_node]
    exact HasTop.bind (HasTop.bind (analyzePredicates_returns hpredicates topNode) fun _ _ => .pure rfl)
      fun _ source => (operator_returns _ _).bind fun selection _ => (createEdge_returns source selection).bind
        fun _ _ => .pure rfl

theorem iequals_range {type : Str} (h : QueryParser.iequals type "RANGE".toList = true) :
    QueryParser.iequals type "ROWS".toList = false := by
  simp only [QueryParser.iequals, decide_eq_true_eq, decide_eq_false_iff_not] at h ⊢
  rw [h]
  decide

/-- The parameters of a window of rows. -/
theorem windowParameters_rows {symbol : Symbol} {type number : Str} {values : List ParseTreeNode} {sort : Bool}
    (htype : QueryParser.iequals type "ROWS".toList = true) (hsort : sort = false ∨ values = []) (rval : Node) :
    windowParameters (.node .WINDOW (.leaf symbol type :: .leaf .NUMBER number :: values)) sort rval =
      .ok (rval.setData "range_window" number) := by
  have hsize : ¬ (sort = true ∧ (ParseTreeNode.node .WINDOW
      (.leaf symbol type :: .leaf .NUMBER number :: values)).getSize = 6) := by
    obtain rfl | rfl := hsort <;> simp [getSize]
  simp only [windowParameters, getChildNode, children, List.getElem?_cons_zero, List.getElem?_cons_succ, getValue,
    bind, Except.bind, htype, if_true, if_neg hsize]
  rfl

theorem windowParameters_sorted {symbol sortSymbol seedSymbol numberSymbol : Symbol}
    {type number sort limit seed seedNumber : Str} (htype : QueryParser.iequals type "ROWS".toList = true)
    (rval : Node) :
    windowParameters (.node .WINDOW [.leaf symbol type, .leaf .NUMBER number, .leaf sortSymbol sort,
        .leaf .NUMBER limit, .leaf seedSymbol seed, .leaf numberSymbol seedNumber]) true rval =
      .ok (((rval.setData "range_window" number).setData "limit" limit).setData "seed" seedNumber) := by
  simp only [windowParameters, getChildNode, children, List.getElem?_cons_zero, List.getElem?_cons_succ, getValue,
    bind, Except.bind, htype, if_true]
  rfl

theorem windowParameters_range {symbol unitSymbol : Symbol} {type number unit : Str} {sort : Bool}
    (htype : QueryParser.iequals type "RANGE".toList = true) (rval : Node) :
    windowParameters (.node .WINDOW [.leaf symbol type, .leaf .NUMBER number, .leaf unitSymbol unit]) sort rval =
      .ok (rval.setData "time_window" (number ++ " ".toList ++ unit)) := by
  simp only [windowParameters, getChildNode, children, List.getElem?_cons_zero, List.getElem?_cons_succ, getValue,
    bind, Except.bind, iequals_range htype, htype, Bool.false_eq_true, if_false, if_true]
  rfl

private theorem windowParameters_ok {window : ParseTreeNode} (h : IsWindow window) (sort : Bool) (rval : Node) :
    ∃ rval', windowParameters window sort rval = .ok rval' := by
  cases h with
  | rows htype _ => exact ⟨_, windowParameters_rows htype (.inr rfl) rval⟩
  | sorted htype _ _ =>
    cases sort with
    | false => exact ⟨_, windowParameters_rows htype (.inl rfl) rval⟩
    | true => exact ⟨_, windowParameters_sorted htype rval⟩
  | range htype _ _ => exact ⟨_, windowParameters_range htype rval⟩

theorem getMaster_returns : Returns getMaster fun _ => True :=
  fun _ => ⟨_, _, rfl, trivial⟩

theorem newNode_returns (store : DataStore) : Returns (newNode store) fun _ => True :=
  fun _ => ⟨_, _, rfl, trivial⟩

theorem addNode_returns (n : Node) : Returns (addNode n) fun _ => True :=
  fun _ => ⟨_, _, rfl, trivial⟩

private theorem requestRange_ok {hierarchy : ParseTreeNode} (h : IsHierarchy [hierarchy]) (level : ParseTreeNode) :
    ∃ range, requestRange hierarchy level = .ok range := by
  unfold requestRange
  split
  · case isTrue hnearby =>
    cases h with
    | level _ => exact absurd hnearby.2 (by simp [getSize])
    | nearby _ => exact ⟨_, rfl⟩
  · exact ⟨_, rfl⟩

/-- The request of a hierarchy adds the window, which reads another stream, and an
operator for the request; no edge leads to or from either. A further graph fills
the stream. -/
theorem requestOperators_eq {hierarchy level : ParseTreeNode} (h : IsHierarchy [hierarchy])
    (hlevel : hierarchy.getChildNode 0 = .ok level) (rval : Node) (s : State) :
    ∃ s' stream request graph transfer range, requestOperators hierarchy rval s = .ok (some rval.id, s') ∧
      s'.ncount = s.ncount + 3 ∧ s'.ecount = s.ecount + 1 ∧ s'.secondNodeSymbol = s.secondNodeSymbol ∧
      (s.master ≠ [] → s'.master = s.master) ∧
      s'.graph = (s.graph.addNode (rval.setData "parameter" (stream ++ ",".toList ++ rval.data "parameter"))).addNode
        request ∧
      s'.graphList = s.graphList ++ [graph] ∧ transfer ∈ graph.nodes ∧ request.id = s.ncount + 2 ∧
      request.store = [("operator_type".toList, "request".toList),
        ("parameter".toList, level.getValue ++ ",".toList ++ Graph.getID graph ++ range)] ∧
      transfer.data "operator_type" = "transfer".toList ∧ transfer.data "parameter" = "own,".toList ++ stream := by
  obtain ⟨range, hrange⟩ := requestRange_ok h level
  simp only [requestOperators, hlevel, hrange, lift_ok_bind]
  exact ⟨_, _, _, _, _, range, rfl, rfl, rfl, rfl, fun hmaster => if_neg hmaster, rfl, rfl, List.mem_cons_self, rfl, rfl,
    rfl, rfl⟩

/-- The operators of a table always end in a node. -/
private theorem tableOperators_returns {tablename window : ParseTreeNode} {partition level : List ParseTreeNode}
    (hpartition : IsPartition partition) (hwindow : IsWindow window) (hlevel : IsHierarchy level) :
    Returns (tableOperators tablename (partition ++ [window] ++ level)) fun r => r.isSome = true := by
  obtain ⟨values, rfl⟩ : ∃ values, window = .node .WINDOW values := by
    cases hwindow <;> exact ⟨_, rfl⟩
  refine getMaster_returns.bind fun master _ => (newNode_returns _).bind fun rval _ => ?_
  obtain ⟨sorted, hsorted⟩ := windowParameters_ok hwindow true rval
  obtain ⟨plain, hplain⟩ := windowParameters_ok hwindow false rval
  cases hpartition with
  | columns hlist =>
    obtain ⟨-, hitems⟩ := hlist
    obtain ⟨columns, hcolumns⟩ := findColumns_ok (.inl rfl) hitems
    exact (Returns.lift hsorted).bind fun _ _ => (Returns.lift rfl).bind fun list hlist =>
      (Returns.lift (hlist ▸ hcolumns)).bind fun _ _ => (addNode_returns _).bind fun _ _ => .pure rfl
  | none =>
    obtain rfl | ⟨hierarchy, rfl⟩ : level = [] ∨ ∃ hierarchy, level = [hierarchy] := by
      cases hlevel <;> simp
    · exact (Returns.lift hsorted).bind fun _ _ => (addNode_returns _).bind fun _ _ => .pure rfl
    · obtain ⟨text, htext⟩ : ∃ text, hierarchy.getChildNode 0 = .ok text := by
        cases hlevel <;> exact ⟨_, rfl⟩
      refine (Returns.lift hplain).bind fun rval' _ => (Returns.lift htext).bind fun text _ => ?_
      split
      · exact (addNode_returns _).bind fun _ _ => .pure rfl
      · intro s
        obtain ⟨s', _, _, _, _, _, heq, -⟩ := requestOperators_eq hlevel htext rval' s
        exact ⟨_, s', heq, rfl⟩

private theorem tableOperators_fails (tablename : ParseTreeNode) : Fails .nullNode (tableOperators tablename []) :=
  fun _ => rfl

/-- Renaming the tables leaves a node where there is a name. -/
private theorem renameTables_returns (newname : Str) {names : List Str} (hne : names ≠ []) (input : Nat)
    (renamed : NodePtr) :
    Returns (renameTables newname names (some input) renamed) fun r => r.isSome = true := by
  induction names generalizing input renamed with
  | nil => exact absurd rfl hne
  | cons oldname oldnames ih =>
    refine (operator_returns _ _).bind fun rename _ => (createEdge_returns input rename).bind fun _ _ => ?_
    cases oldnames with
    | nil => exact .pure rfl
    | cons oldname' oldnames => exact ih (by simp) rename (some rename)

/-- A name stays among the merged ones, and those of the values are added. -/
private theorem mem_mergeTableNames {name : Str} {rval : List Str} {values : List ParseTreeNode}
    (h : name ∈ rval ∨ ∃ value ∈ values, name ∈ findTableNames value) : name ∈ mergeTableNames rval values := by
  induction values generalizing rval with
  | nil => simpa [mergeTableNames] using h
  | cons value values ih =>
    rw [mergeTableNames]
    apply ih
    obtain h | ⟨t, ht, hname⟩ := h
    · exact .inl (List.mem_merge_left _ h)
    · obtain rfl | ht := List.mem_cons.mp ht
      · exact .inl (List.mem_merge_right _ hname)
      · exact .inr ⟨t, ht, hname⟩

/-- A relation names a table at least. -/
theorem exists_mem_findTableNames {t : ParseTreeNode} (h : IsRelation t) : ∃ name, name ∈ findTableNames t := by
  induction h with
  | @name symbol name _ => exact ⟨name, by simp [findTableNames, isLeafNode, getValue]⟩
  | @window symbol name _ _ _ _ _ _ _ => exact ⟨name, by simp [findTableNames, isLeafNode, getValue]⟩
  | @renamed symbol name _ _ _ _ => exact ⟨name, by simp [findTableNames, isLeafNode, getValue]⟩
  | @nested t ht _ ih =>
    obtain ⟨name, hname⟩ := ih
    have hleaf : t.isLeafNode = false := by cases ht <;> rfl
    refine ⟨name, ?_⟩
    simpa [findTableNames, hleaf] using mem_mergeTableNames (.inr ⟨t, by simp, hname⟩)
  | @subquery select tables wh _ hne _ _ _ ih =>
    obtain ⟨t, ht⟩ := List.exists_mem_of_ne_nil tables hne
    obtain ⟨name, hname⟩ := ih t ht
    have hlist : name ∈ findTableNames (.node .FROM_LIST tables) := by
      simpa [findTableNames] using mem_mergeTableNames (.inr ⟨t, ht, hname⟩)
    have hfrom : name ∈ findTableNames (.node .FROM [.node .FROM_LIST tables]) := by
      simpa [findTableNames] using mem_mergeTableNames (.inr ⟨_, by simp, hlist⟩)
    refine ⟨name, ?_⟩
    simpa [findTableNames] using mem_mergeTableNames (.inr ⟨_, by simp, hfrom⟩)

/-- The analysis of a relation by its kind. -/
def analyzeRelation (t : ParseTreeNode) : Gen NodePtr :=
  if t.getSymbol = .SUBQUERY then analyzeSubQuery t
  else if t.getSymbol = .TABLE_RENAME then analyzeTableRename t
  else analyzeTable t

/-- A table of a FROM clause, renamed or not. -/
def IsReference (t : ParseTreeNode) : Prop :=
  t.getSymbol = .TABLE ∨ t.getSymbol = .TABLE_RENAME

theorem joinTables_cons {t : ParseTreeNode} (h : IsReference t) (rest : List ParseTreeNode) (lnode : NodePtr) :
    joinTables (t :: rest) lnode = (do
      let rnode ← analyzeRelation t
      let join ← operator "join" []
      createEdge lnode join
      createEdge rnode join
      joinTables rest (some join)) := by
  obtain h | h := h <;> simp [joinTables, analyzeRelation, h]

/-- A subquery is a selection of what its tables and its condition leave. -/
theorem analyzeSubQuery_eq {first : ParseTreeNode} (h : IsReference first) (select : ParseTreeNode)
    (rest wh : List ParseTreeNode) :
    analyzeRelation (.node .SUBQUERY ([select, .node .FROM [.node .FROM_LIST (first :: rest)]] ++ wh)) =
      analyzeSelect select (analyzeWhere (analyzeRelation first >>= joinTables rest) wh) := by
  have hlist : analyzeFromList (.node .FROM_LIST (first :: rest)) = analyzeRelation first >>= joinTables rest := by
    obtain h | h := h <;> simp [analyzeFromList, analyzeRelation, h]
  rw [← hlist]
  rfl

theorem analyzeRelation_table {symbol : Symbol} (hsymbol : symbol = .IDENTIFIER ∨ symbol = .NUMBER) (name : Str)
    (rest : List ParseTreeNode) :
    analyzeRelation (.node .TABLE (.leaf symbol name :: rest)) = tableOperators (.leaf symbol name) rest := by
  obtain rfl | rfl := hsymbol <;> rfl

theorem analyzeRelation_nested {t : ParseTreeNode} (hsymbol : t.getSymbol = .SUBQUERY) :
    analyzeRelation (.node .TABLE [t]) = analyzeRelation t := by
  have hsubquery : analyzeRelation t = analyzeSubQuery t := if_pos hsymbol
  rw [hsubquery]
  exact if_pos hsymbol

theorem analyzeRelation_renamed {t : ParseTreeNode} (hsymbol : t.getSymbol = .TABLE) (name : ParseTreeNode) :
    analyzeRelation (.node .TABLE_RENAME [name, t]) = (do
      let input ← analyzeRelation t
      renameTables name.getValue (findTableNames t) input none) := by
  have htable : analyzeRelation t = analyzeTable t := by simp [analyzeRelation, hsymbol]
  rw [htable]
  rfl

/-- What is no clause is not asked whether it is known. -/
theorem knownClause_of_not_isClause {t : ParseTreeNode} (h : t.getSymbol.isClause = false) : knownClause t = true := by
  unfold knownClause
  split
  · cases h
  · cases h
  · rfl

private theorem everyNode_select {select : ParseTreeNode} (h : IsSelect select) :
    select.everyNode knownClause = knownClause select := by
  cases h with
  | asterisk => simp
  | list hlist =>
    have hplain := IsPlain.everyNode (fun _ => knownClause_of_not_isClause) hlist.plain
    rw [everyNode_node, List.all_cons, hplain, List.all_nil, Bool.and_true, Bool.and_true]

/-- The joins of the tables supply a node where each of the tables does. -/
private theorem joinTables_supplies {rest : List ParseTreeNode}
    (h : ∀ t ∈ rest, Supplies (t.everyNode knownClause) (analyzeRelation t)) (hreference : ∀ t ∈ rest, IsReference t)
    (lnode : Nat) : Supplies (rest.all fun t => t.everyNode knownClause) (joinTables rest (some lnode)) := by
  induction rest generalizing lnode with
  | nil => exact Returns.pure rfl
  | cons t rest ih =>
    rw [joinTables_cons (hreference t (by simp)), List.all_cons]
    refine Settles.bind (h t (by simp)) fun rnode hrnode => ?_
    obtain ⟨rnode, rfl⟩ := Option.isSome_iff_exists.mp hrnode
    exact Settles.after (operator_returns _ _) fun join _ => Settles.after (createEdge_returns lnode join) fun _ _ =>
      Settles.after (createEdge_returns rnode join) fun _ _ =>
        ih (fun t ht => h t (by simp [ht])) (fun t ht => hreference t (by simp [ht])) join

private theorem everyNode_window {symbol : Symbol} {name : Str} {partition level : List ParseTreeNode}
    {window : ParseTreeNode}
    (hpartition : IsPartition partition) (hwindow : IsWindow window) (hlevel : IsHierarchy level) :
    everyNode knownClause (.node .TABLE ([.leaf symbol name] ++ partition ++ [window] ++ level)) = true := by
  rw [everyNode_node, IsPlain.all_everyNode (fun _ => knownClause_of_not_isClause)
    (hwindow.table_plain hpartition hlevel symbol name), Bool.and_true]
  cases hpartition <;> rfl

/-- The analysis of a relation gives a node exactly where each table in it has a
window or is a subquery and each item of a select list is known. -/
theorem analyzeRelation_supplies {t : ParseTreeNode} (h : IsRelation t) :
    Supplies (t.everyNode knownClause) (analyzeRelation t) := by
  induction h with
  | @name symbol name hsymbol =>
    rw [analyzeRelation_table hsymbol]
    exact tableOperators_fails _
  | @window symbol name partition level window hsymbol hpartition hwindow hlevel =>
    rw [everyNode_window hpartition hwindow hlevel, List.append_assoc, List.append_assoc, List.singleton_append,
      ← List.append_assoc, analyzeRelation_table hsymbol]
    exact tableOperators_returns hpartition hwindow hlevel
  | @nested t ht hsymbol ih =>
    have hknown : everyNode knownClause (.node .TABLE [t]) = t.everyNode knownClause := by
      obtain ⟨symbol, values, rfl⟩ : ∃ symbol values, t = .node symbol values := by
        cases ht <;> exact ⟨_, _, rfl⟩
      rw [everyNode_node, List.all_cons, List.all_nil, Bool.and_true]
      exact Bool.true_and _
    rwa [hknown, analyzeRelation_nested hsymbol]
  | @renamed symbol name t ht hsymbol ih =>
    have hknown : everyNode knownClause (.node .TABLE_RENAME [.leaf symbol name, t]) = t.everyNode knownClause := by
      simp [knownClause]
    obtain ⟨table, htable⟩ := exists_mem_findTableNames ht
    rw [hknown, analyzeRelation_renamed hsymbol]
    refine Settles.before ih fun input hinput => ?_
    obtain ⟨input, rfl⟩ := Option.isSome_iff_exists.mp hinput
    exact renameTables_returns _ (List.ne_nil_of_mem htable) input none
  | @subquery select tables wh hselect hne htables hreference hwh ih =>
    obtain ⟨first, rest, rfl⟩ := List.exists_cons_of_ne_nil hne
    have hknown : everyNode knownClause
        (.node .SUBQUERY ([select, .node .FROM [.node .FROM_LIST (first :: rest)]] ++ wh)) =
        ((first.everyNode knownClause && rest.all fun t => t.everyNode knownClause) && knownClause select) := by
      have hplain := IsPlain.all_everyNode (fun _ => knownClause_of_not_isClause) hwh.plain
      simp only [everyNode_node, List.all_append, List.all_cons, List.all_nil, hplain, everyNode_select hselect]
      simp [knownClause, Bool.and_comm]
    rw [hknown, analyzeSubQuery_eq (hreference first (by simp))]
    refine analyzeSelect_supplies hselect (analyzeWhere_supplies hwh (Settles.bind (ih first (by simp)) ?_))
    intro lnode hlnode
    obtain ⟨lnode, rfl⟩ := Option.isSome_iff_exists.mp hlnode
    exact joinTables_supplies (fun t ht => ih t (by simp [ht])) (fun t ht => hreference t (by simp [ht])) lnode

end OperatorTreeGenerator

end IS

import Dm20.Lib.FlowTree
import Dm20.Query.GeneratorSafety

namespace IS

open ParseTreeNode Stateful

def Edge.ends (e : Edge) : Nat × Nat :=
  (e.source, e.target)

def Node.type (n : Node) : Str :=
  n.data "operator_type"

theorem Node.data_setData (n : Node) (key other : String) (value : Str) :
    (n.setData key value).data other = if other.toList = key.toList then value else n.data other := by
  rw [data, setData, AssocList.lookup_set]
  split
  · rfl
  · rfl

def Node.hasType (n : Node) (type : String) : Bool :=
  n.type = type.toList

/-- The number of inputs an operator waits for. -/
def Node.arity (n : Node) : Nat :=
  if n.hasType "join" || n.hasType "union" then 2
  else if n.hasType "in" || n.hasType "RDB" || n.hasType "create" || n.hasType "drop" then 0
  else 1

/-- The types of the operators with one input that hand on what they make of it. -/
def stepTypes : List String :=
  ["eval", "selection", "projection", "renameColumn", "renameTable"]

def Node.isStep (n : Node) : Bool :=
  stepTypes.any n.hasType

theorem Node.hasType_eq {n : Node} {type : String} (h : n.type = type.toList) (other : String) :
    n.hasType other = decide (type.toList = other.toList) := by
  rw [hasType, h]

/-- A step is a node of one of the types that stand between an input and the output. -/
theorem Node.isStep_iff {n : Node} : n.isStep = true ↔ ∃ type ∈ stepTypes, n.type = type.toList := by
  simp [isStep, hasType]

/-- A step has one input. -/
theorem Node.arity_of_isStep {n : Node} (h : n.isStep = true) : n.arity = 1 := by
  obtain ⟨type, hstep, htype⟩ := isStep_iff.mp h
  simp only [stepTypes, List.mem_cons, List.not_mem_nil, or_false] at hstep
  simp only [arity, hasType_eq htype]
  obtain rfl | rfl | rfl | rfl | rfl := hstep <;> decide

namespace OperatorTreeGenerator

/-- The operators that no edge changes. -/
def ordinary (nodes : List Node) : List Node :=
  nodes.filter fun n => !n.hasType "recursive"

/-- What a part of the analysis adds to the ordinary nodes: nodes with new ids in
ascending order, with the masters of the query where there are any. -/
structure Adds (s s' : State) (ns : List Node) : Prop where
  ordinary : ordinary s'.graph.nodes = ordinary s.graph.nodes ++ ns
  graphs : s.graphList <+: s'.graphList
  ncount : s.ncount ≤ s'.ncount
  ids : ∀ n ∈ ns, s.ncount ≤ n.id ∧ n.id < s'.ncount
  ascending : (ns.map Node.id).Pairwise (· < ·)
  master : s.master ≠ [] → s'.master = s.master
  masters : s.master ≠ [] → ∀ n ∈ ns, n.hasType "request" = false → n.data "master" = s.master

/-- What two analyses add in a row is what both add. -/
theorem Adds.trans {s mid s' : State} {ns ns' : List Node} (h : Adds s mid ns) (h' : Adds mid s' ns') :
    Adds s s' (ns ++ ns') where
  ordinary := by rw [h'.ordinary, h.ordinary, List.append_assoc]
  graphs := h.graphs.trans h'.graphs
  ncount := h.ncount.trans h'.ncount
  ids := fun n hn => by
    have hncount := h.ncount
    have hncount' := h'.ncount
    obtain hn | hn := List.mem_append.mp hn
    · have hid := h.ids n hn
      omega
    · have hid := h'.ids n hn
      omega
  ascending := by
    rw [List.map_append, List.pairwise_append]
    refine ⟨h.ascending, h'.ascending, fun i hi j hj => ?_⟩
    obtain ⟨n, hn, rfl⟩ := List.mem_map.mp hi
    obtain ⟨m, hm, rfl⟩ := List.mem_map.mp hj
    have hid := h.ids n hn
    have hid' := h'.ids m hm
    omega
  master := fun hmaster => by
    have hmid := h.master hmaster
    rw [h'.master (hmid ▸ hmaster), hmid]
  masters := fun hmaster n hn htype => by
    have hmid := h.master hmaster
    obtain hn | hn := List.mem_append.mp hn
    · exact h.masters hmaster n hn htype
    · rw [h'.masters (hmid ▸ hmaster) n hn htype, hmid]

/-- A change of other members. -/
theorem Adds.none {s s' : State} (hordinary : OperatorTreeGenerator.ordinary s'.graph.nodes =
    OperatorTreeGenerator.ordinary s.graph.nodes) (hgraphs : s'.graphList = s.graphList)
    (hncount : s.ncount ≤ s'.ncount) (hmaster : s'.master = s.master) : Adds s s' [] where
  ordinary := by rw [hordinary, List.append_nil]
  graphs := by rw [hgraphs]
  ncount := hncount
  ids := by simp
  ascending := List.Pairwise.nil
  master := fun _ => hmaster
  masters := by simp

/-- The nodes added by a part have ids of their own. -/
theorem Adds.nodup {s s' : State} {ns : List Node} (h : Adds s s' ns) : (ns.map Node.id).Nodup :=
  h.ascending.imp fun hlt => Nat.ne_of_lt hlt

/-- What a part of the analysis adds to the graph, with its edges. Only the edges
of a recursive clause may change nodes that are there. -/
structure Grows (s s' : State) (ns : List Node) (es : List (Nat × Nat)) : Prop extends Adds s s' ns where
  symbol : s'.secondNodeSymbol = s.secondNodeSymbol
  nodes : s.secondNodeSymbol ≠ some .WITH_RECURSIVE → s'.graph.nodes = s.graph.nodes ++ ns
  edges : s'.graph.edges.map Edge.ends = s.graph.edges.map Edge.ends ++ es

/-- An analysis that does nothing adds nothing. -/
theorem Grows.refl (s : State) : Grows s s [] [] where
  toAdds := Adds.none rfl rfl (Nat.le_refl _) rfl
  symbol := rfl
  nodes := fun _ => by simp
  edges := by simp

/-- The nodes and edges of two analyses in a row are those of both. -/
theorem Grows.trans {s mid s' : State} {ns ns' : List Node} {es es' : List (Nat × Nat)} (h : Grows s mid ns es)
    (h' : Grows mid s' ns' es') : Grows s s' (ns ++ ns') (es ++ es') where
  toAdds := h.toAdds.trans h'.toAdds
  symbol := h'.symbol.trans h.symbol
  nodes := fun hsymbol => by
    rw [h'.nodes (h.symbol ▸ hsymbol), h.nodes hsymbol, List.append_assoc]
  edges := by rw [h'.edges, h.edges, List.append_assoc]

private theorem noteTarget_of_ordinary {n : Node} (h : n.hasType "recursive" = false) (source target : Nat) :
    noteTarget source target n = n := by
  refine if_neg fun hrecursive => ?_
  simp [Node.hasType, Node.type, hrecursive.2] at h

private theorem hasType_noteTarget (source target : Nat) (n : Node) :
    (noteTarget source target n).hasType "recursive" = n.hasType "recursive" := by
  by_cases h : n.id = source ∧ n.data "operator_type" = "recursive".toList
  · rw [noteTarget, if_pos h]
    have hset : ∀ value, (n.setData "parameter" value).type = n.type := fun value => by
      rw [Node.type, Node.data_setData, if_neg (by decide), Node.type]
    rw [Node.hasType, hset, Node.hasType]
  · rw [noteTarget, if_neg h]

/-- Noting a target at a node changes no ordinary parameter. -/
private theorem ordinary_noteTarget (source target : Nat) (nodes : List Node) :
    ordinary (nodes.map (noteTarget source target)) = ordinary nodes := by
  induction nodes with
  | nil => rfl
  | cons n nodes ih =>
    rw [List.map_cons, ordinary, ordinary, List.filter_cons, List.filter_cons, hasType_noteTarget]
    by_cases h : n.hasType "recursive" = true
    · simpa [h, ordinary] using ih
    · rw [noteTarget_of_ordinary (by simpa using h)]
      simpa [h, ordinary] using ih

/-- An edge is only added from a node: a null node is a failure. -/
theorem createEdge_bind {α : Type} {source : NodePtr} {target : Nat} {k : Unit → Gen α} {s s' : State} {a : α}
    (h : (createEdge source target >>= k) s = .ok (a, s')) :
    ∃ i mid, source = some i ∧ Grows s mid [] [(i, target)] ∧ k () mid = .ok (a, s') := by
  cases source with
  | none => cases h
  | some i =>
    have hordinary : ordinary (if s.secondNodeSymbol = some .WITH_RECURSIVE then s.graph.nodes.map (noteTarget i target)
        else s.graph.nodes) = ordinary s.graph.nodes := by
      split
      · exact ordinary_noteTarget i target s.graph.nodes
      · rfl
    refine ⟨i, _, rfl, ?_, h⟩
    exact
      { toAdds := Adds.none hordinary rfl (Nat.le_refl _) rfl
        symbol := rfl
        nodes := fun hsymbol => (if_neg hsymbol).trans (List.append_nil _).symm
        edges := List.map_append .. }

/-- A node as the graph has it. -/
def graphNode (n : Node) : Node :=
  n.setData "nid" n.getID

theorem graphNode_data (n : Node) {key : String} (hkey : key.toList ≠ "nid".toList) :
    (graphNode n).data key = n.data key := by
  rw [graphNode, Node.data_setData, if_neg hkey]

theorem graphNode_type (n : Node) : (graphNode n).type = n.type :=
  graphNode_data n (by decide)

theorem graphNode_hasType (n : Node) (type : String) : (graphNode n).hasType type = n.hasType type := by
  rw [Node.hasType, graphNode_type, Node.hasType]

/-- A node with a new number may be added, if it is not a recursive one. -/
theorem Grows.node {s s' : State} {n : Node} (hsymbol : s'.secondNodeSymbol = s.secondNodeSymbol)
    (hgraph : s'.graph = s.graph.addNode n) (hgraphs : s.graphList <+: s'.graphList) (hid : s.ncount ≤ n.id)
    (hid' : n.id < s'.ncount) (htype : n.hasType "recursive" = false) (hmaster : s.master ≠ [] → s'.master = s.master)
    (hmasters : s.master ≠ [] → n.hasType "request" = false → n.data "master" = s.master) :
    Grows s s' [graphNode n] [] where
  symbol := hsymbol
  nodes := fun _ => by rw [hgraph, Graph.addNode, graphNode]
  ordinary := by
    have hordinary : OperatorTreeGenerator.ordinary [graphNode n] = [graphNode n] := by
      simp [OperatorTreeGenerator.ordinary, graphNode_hasType, htype]
    rw [← hordinary, hgraph]
    exact List.filter_append ..
  edges := by rw [hgraph, Graph.addNode, List.append_nil]
  graphs := hgraphs
  ncount := hid.trans hid'.le
  ids := fun m hm => by
    rw [List.mem_singleton.mp hm]
    exact ⟨hid, hid'⟩
  ascending := List.pairwise_singleton ..
  master := hmaster
  masters := fun hne m hm hrequest => by
    rw [List.mem_singleton.mp hm] at hrequest ⊢
    rw [graphNode_data n (by decide)]
    exact hmasters hne (graphNode_hasType n "request" ▸ hrequest)

/-- An operator adds its node, with its parameter, and goes on with the number of the node. -/
theorem operator_bind {α : Type} {type : String} (htype : type.toList ≠ "recursive".toList) {parameter : Str}
    {k : Nat → Gen α} {s s' : State} {a : α} (h : (operator type parameter >>= k) s = .ok (a, s')) :
    ∃ n mid, Grows s mid [n] [] ∧ n.type = type.toList ∧ n.data "parameter" = parameter ∧ k n.id mid = .ok (a, s') := by
  obtain ⟨n, hn⟩ : ∃ n : Node, n = ⟨s.ncount, [("operator_type".toList, type.toList),
      ("parameter".toList, parameter), ("master".toList, s.master)]⟩ := ⟨_, rfl⟩
  have hdata : n.type = type.toList ∧ n.data "parameter" = parameter ∧ n.data "master" = s.master := by
    subst hn
    exact ⟨rfl, rfl, rfl⟩
  have hid : n.id = s.ncount := congrArg Node.id hn
  have hordinary : n.hasType "recursive" = false := by
    rw [Node.hasType_eq hdata.1, decide_eq_false htype]
  refine ⟨graphNode n, { s with ncount := s.ncount + 1, graph := s.graph.addNode n },
    Grows.node rfl rfl (List.prefix_refl _) hid.ge (by simp [hid]) hordinary (fun _ => rfl) fun _ _ => hdata.2.2, ?_, ?_, ?_⟩
  · rw [graphNode_type, hdata.1]
  · rw [graphNode_data n (by decide), hdata.2.1]
  · subst hn
    exact h

/-- Steps one behind the other, added behind the input and up to the top. -/
def Chained (input : NodePtr) (s : State) (top : Nat) (s' : State) (ns : List Node) : Prop :=
  ∃ i, input = some i ∧ top = FlowTree.last i (ns.map Node.id) ∧
    Grows s s' ns (FlowTree.links i (ns.map Node.id)) ∧ ∀ n ∈ ns, n.isStep = true

theorem Chained.refl (i : Nat) (s : State) : Chained (some i) s i s [] :=
  ⟨i, rfl, rfl, Grows.refl s, by simp⟩

/-- A chain behind the end of a chain is one chain. -/
theorem Chained.trans {input : NodePtr} {s mid s' : State} {top top' : Nat} {ns ns' : List Node}
    (h : Chained input s top mid ns) (h' : Chained (some top) mid top' s' ns') :
    Chained input s top' s' (ns ++ ns') := by
  obtain ⟨i, rfl, rfl, hgrows, hsteps⟩ := h
  obtain ⟨j, hj, rfl, hgrows', hsteps'⟩ := h'
  obtain rfl := Option.some.inj hj
  refine ⟨i, rfl, ?_, ?_, fun n hn => (List.mem_append.mp hn).elim (hsteps n) (hsteps' n)⟩
  · rw [List.map_append, FlowTree.last_append]
  · rw [List.map_append, FlowTree.links_append]
    exact hgrows.trans hgrows'

/-- A step adds its node behind the input, and goes on from there. -/
theorem step_bind {α : Type} {type : String} (hstep : type ∈ stepTypes) {parameter : Str} {input : NodePtr}
    {k : Nat → Gen α} {s s' : State} {a : α}
    (h : (operator type parameter >>= fun n => createEdge input n >>= fun _ => k n) s = .ok (a, s')) :
    ∃ n mid, Chained input s n.id mid [n] ∧ n.type = type.toList ∧ n.data "parameter" = parameter ∧
      k n.id mid = .ok (a, s') := by
  have hordinary : type.toList ≠ "recursive".toList := by
    simp only [stepTypes, List.mem_cons, List.not_mem_nil, or_false] at hstep
    obtain rfl | rfl | rfl | rfl | rfl := hstep <;> decide
  obtain ⟨n, mid, hgrows, htype, hparameter, h⟩ := operator_bind hordinary h
  obtain ⟨i, mid', rfl, hedge, h⟩ := createEdge_bind h
  refine ⟨n, mid', ⟨i, rfl, rfl, hgrows.trans hedge, ?_⟩, htype, hparameter, h⟩
  intro m hm
  rw [List.mem_singleton.mp hm]
  exact Node.isStep_iff.mpr ⟨type, hstep, htype⟩

/-- A computation that ends with a node has added steps from its input to it. -/
def Continues (x : NodePtr → Gen NodePtr) : Prop :=
  ∀ input s top s', x input s = .ok (some top, s') → ∃ ns, Chained input s top s' ns

/-- The same for a computation with another result, which has a property. -/
def ContinuesWith {α : Type} (x : NodePtr → Gen (α × NodePtr)) (P : α → Prop) : Prop :=
  ∀ input s a top s', x input s = .ok ((a, some top), s') → P a ∧ ∃ ns, Chained input s top s' ns

theorem Continues.bind {x y : NodePtr → Gen NodePtr} (hx : Continues x) (hy : Continues y) :
    Continues fun input => x input >>= y := by
  intro input s top s' h
  obtain ⟨r, mid, hrun, h⟩ := bind_eq_ok h
  obtain ⟨ns', hchained'⟩ := hy r mid top s' h
  obtain ⟨i, rfl, -⟩ := id hchained'
  obtain ⟨ns, hchained⟩ := hx input s i mid hrun
  exact ⟨ns ++ ns', hchained.trans hchained'⟩

theorem ContinuesWith.bind {α β : Type} {x : NodePtr → Gen (α × NodePtr)} {y : α → NodePtr → Gen (β × NodePtr)}
    {P : α → Prop} {Q : β → Prop} (hx : ContinuesWith x P) (hy : ∀ a, ContinuesWith (y a) fun b => P a → Q b) :
    ContinuesWith (fun input => x input >>= fun r => y r.1 r.2) Q := by
  intro input s b top s' h
  obtain ⟨⟨a, r⟩, mid, hrun, h⟩ := bind_eq_ok h
  obtain ⟨hb, ns', hchained'⟩ := hy a r mid b top s' h
  obtain ⟨i, rfl, -⟩ := id hchained'
  obtain ⟨ha, ns, hchained⟩ := hx input s a i mid hrun
  exact ⟨hb ha, ns ++ ns', hchained.trans hchained'⟩

theorem ContinuesWith.pure {α : Type} {a : α} {P : α → Prop} (ha : P a) :
    ContinuesWith (fun input => Pure.pure (a, input)) P := by
  intro input s b top s' h
  obtain ⟨hresult, rfl⟩ := pure_eq_ok h
  obtain ⟨rfl, rfl⟩ := Prod.mk.inj hresult
  exact ⟨ha, [], Chained.refl top s'⟩

theorem Continues.pure : Continues fun input => Pure.pure input := by
  intro input s top s' h
  obtain ⟨rfl, rfl⟩ := pure_eq_ok h
  exact ⟨[], Chained.refl top s'⟩

private theorem selectListItems_continues {values : List ParseTreeNode}
    (h : ∀ t ∈ values, Continues (analyzeSelectListExpression t)) : Continues (selectListItems values) := by
  induction values with
  | nil => exact Continues.pure
  | cons value values ih => exact (h value (by simp)).bind (ih fun t ht => h t (by simp [ht]))

/-- A column or a function appends a node to the chain of nodes, or leaves it as it is. -/
private theorem analyzeSelectListExpression_continues {t : ParseTreeNode} (h : IsExpression t) :
    Continues (analyzeSelectListExpression t) := by
  induction h with
  | @operand symbol value hsymbol =>
    intro input s top s' hrun
    rw [analyzeSelectListExpression] at hrun
    by_cases hknown : symbol = .IDENTIFIER ∨ symbol = .NUMBER ∨ symbol = .STRING
    · exact Continues.pure input s top s' ((congrFun (if_pos hknown) s).symm.trans hrun)
    · have hfunction : symbol ≠ .FUNCTION := by
        rintro rfl
        cases hsymbol
      cases (congrFun ((if_neg hknown).trans (if_neg hfunction)) s).symm.trans hrun
  | @parenthesised e he ih =>
    intro input s top s' hrun
    cases he <;> cases hrun
  | @function symbol name arguments harguments ih =>
    intro input s top s' hrun
    obtain ⟨r, mid, hitems, hrun⟩ := bind_eq_ok (x := selectListItems arguments input) hrun
    obtain ⟨columns, -, hrun⟩ := lift_bind_eq_ok hrun
    obtain ⟨n, mid', hstep, -, -, hrun⟩ := step_bind (by decide) hrun
    obtain ⟨htop, rfl⟩ := pure_eq_ok hrun
    obtain rfl := Option.some.inj htop
    obtain ⟨i, rfl, -⟩ := id hstep
    obtain ⟨ns, hchained⟩ := selectListItems_continues ih input s i mid hitems
    exact ⟨ns ++ [n], hchained.trans hstep⟩

/-- Expressions append their nodes one behind the other. -/
private theorem analyzeTopExpressions_continues {values : List ParseTreeNode}
    (h : ∀ t ∈ values, ContinuesWith (analyzeTopExpression t) fun text => analyzeExpression t = .ok text) :
    ContinuesWith (analyzeTopExpressions values) fun texts => analyzeExpressions values = .ok texts := by
  induction values with
  | nil => exact ContinuesWith.pure rfl
  | cons value values ih =>
    have hrest := ih fun t ht => h t (by simp [ht])
    refine (h value (by simp)).bind (y := fun text topNode =>
      analyzeTopExpressions values topNode >>= fun r => pure (text :: r.1, r.2)) fun text => ?_
    refine hrest.bind (y := fun texts topNode => pure (text :: texts, topNode)) fun texts => ?_
    refine ContinuesWith.pure fun htexts htext => ?_
    simp [analyzeExpressions, htext, htexts, bind, Except.bind, pure, Except.pure]

/-- The operators of the functions in an expression of a predicate; the text is
that of the expression. -/
theorem analyzeTopExpression_continues {t : ParseTreeNode} (h : IsExpression t) :
    ContinuesWith (analyzeTopExpression t) fun text => analyzeExpression t = .ok text := by
  induction h with
  | @operand symbol value hsymbol => cases symbol <;> cases hsymbol <;> exact ContinuesWith.pure rfl
  | @parenthesised e he ih =>
    intro input s text top s' hrun
    rw [analyzeTopExpression, if_pos he.symbol] at hrun
    rw [analyzeExpression, if_pos he.symbol]
    exact ih input s text top s' hrun
  | @function symbol name arguments _ ih =>
    intro input s text top s' hrun
    obtain ⟨⟨list, r⟩, mid, harguments, hrun⟩ :=
      bind_eq_ok (x := analyzeTopExpressionList (.node .EXPRESSION_LIST arguments) input) hrun
    obtain ⟨n, mid', hstep, -, -, hrun⟩ := step_bind (by decide) hrun
    obtain ⟨hresult, rfl⟩ := pure_eq_ok hrun
    obtain ⟨rfl, htop⟩ := Prod.mk.inj hresult
    obtain rfl := Option.some.inj htop
    obtain ⟨i, rfl, -⟩ := id hstep
    obtain ⟨⟨texts, r⟩, mid'', htexts, harguments⟩ := bind_eq_ok (x := analyzeTopExpressions arguments input) harguments
    obtain ⟨hlist, rfl⟩ := pure_eq_ok harguments
    obtain ⟨rfl, rfl⟩ := Prod.mk.inj hlist
    obtain ⟨htext, ns, hchained⟩ := analyzeTopExpressions_continues ih input s texts i _ htexts
    refine ⟨?_, ns ++ [n], hchained.trans hstep⟩
    simp [analyzeExpression, getSymbol, analyzeFunction, analyzeExpressionList, htext, Except.map]

/-- The text of a predicate as the selection is to read it. -/
def predicateText : ParseTreeNode → Except TreeError Str
  | .node .PREDICATE [left, comparator, right] => do
    let leftText ← analyzeExpression left
    let rightText ← analyzeExpression right
    return leftText ++ comparator.getValue ++ rightText
  | _ => .error (.parseException "input node is not PREDICATE".toList)

/-- The clauses of a subquery that have an operator of their own. -/
inductive Clause where
  | predicates (list : List ParseTreeNode)
  | selectList (list : ParseTreeNode)

/-- The operator of a clause: a selection by the predicates, or a projection on
the select list. -/
def Clause.HasOperator : Clause → Node → Prop
  | predicates list, n => n.type = "selection".toList ∧
      ∃ texts, list.mapM predicateText = .ok texts ∧ n.data "parameter" = " AND ".toList.intercalate texts
  | selectList list, n => n.type = "projection".toList ∧ findColumns list = .ok (n.data "parameter")

/-- A predicate appends one node, whose parameter is the text of the predicate. -/
private theorem analyzePredicate_continues {predicate : ParseTreeNode} (h : IsPredicate predicate) :
    ContinuesWith (analyzePredicate predicate) fun text => predicateText predicate = .ok text := by
  cases h with
  | @compare left right comparator hleft hright =>
    have heq : analyzePredicate (.node .PREDICATE [left, .leaf .COMPARATOR comparator, right]) = fun topNode =>
        analyzeTopExpression left topNode >>= fun l => analyzeTopExpression right l.2 >>= fun r =>
          pure (l.1 ++ comparator ++ r.1, r.2) :=
      funext fun topNode => analyzePredicate_compare left right comparator topNode
    rw [heq]
    refine (analyzeTopExpression_continues hleft).bind (y := fun leftText topNode =>
      analyzeTopExpression right topNode >>= fun r => pure (leftText ++ comparator ++ r.1, r.2)) fun leftText => ?_
    refine (analyzeTopExpression_continues hright).bind (y := fun rightText topNode =>
      pure (leftText ++ comparator ++ rightText, topNode)) fun rightText => ?_
    refine ContinuesWith.pure fun hrightText hleftText => ?_
    simp [predicateText, hleftText, hrightText, getValue, bind, Except.bind, pure, Except.pure]

/-- Predicates append their nodes one behind the other. -/
private theorem analyzePredicates_continues {predicates : List ParseTreeNode} (h : ∀ p ∈ predicates, IsPredicate p) :
    ContinuesWith (analyzePredicates predicates) fun texts => predicates.mapM predicateText = .ok texts := by
  induction predicates with
  | nil => exact ContinuesWith.pure rfl
  | cons predicate predicates ih =>
    have hrest := ih fun p hp => h p (by simp [hp])
    refine (analyzePredicate_continues (h predicate (by simp))).bind (y := fun text topNode =>
      analyzePredicates predicates topNode >>= fun r => pure (text :: r.1, r.2)) fun text => ?_
    refine hrest.bind (y := fun texts topNode => pure (text :: texts, topNode)) fun texts => ?_
    refine ContinuesWith.pure fun htexts htext => ?_
    rw [List.mapM_cons, htext, htexts]
    rfl

/-- The predicates of a WHERE clause, as a clause with an operator. -/
def whereClauses : List ParseTreeNode → List Clause
  | [.node .WHERE [.node .PREDICATE_LIST list]] => [.predicates list]
  | _ => []

/-- A WHERE clause adds steps behind the FROM clause, and one of them is its selection. -/
theorem analyzeWhere_eq_ok {wh : List ParseTreeNode} (h : IsWhere wh) {analyzeFrom : Gen NodePtr} {s s' : State}
    {r : NodePtr} (hrun : analyzeWhere analyzeFrom wh s = .ok (r, s')) :
    ∃ source mid, analyzeFrom s = .ok (source, mid) ∧ ∀ i, source = some i →
      ∃ top ns, r = some top ∧ Chained (some i) mid top s' ns ∧ ∀ c ∈ whereClauses wh, ∃ n ∈ ns, c.HasOperator n := by
  cases h with
  | none =>
    rw [analyzeWhere_none] at hrun
    refine ⟨r, s', hrun, ?_⟩
    rintro i rfl
    exact ⟨i, [], rfl, Chained.refl i s', by simp [whereClauses]⟩
  | @predicates predicates hpredicates =>
    rw [analyzeWhere_predicates] at hrun
    obtain ⟨source, mid, hfrom, hrun⟩ := bind_eq_ok hrun
    refine ⟨source, mid, hfrom, ?_⟩
    rintro i rfl
    rw [analyzePredicateList_node] at hrun
    obtain ⟨⟨param, topNode⟩, mid', hlist, hrun⟩ := bind_eq_ok hrun
    obtain ⟨n, mid'', hstep, htype, hparameter, hrun⟩ := step_bind (by decide) hrun
    obtain ⟨rfl, rfl⟩ := pure_eq_ok hrun
    obtain ⟨⟨texts, r⟩, mid₂, htexts, hlist⟩ := bind_eq_ok hlist
    obtain ⟨hpair, rfl⟩ := pure_eq_ok hlist
    obtain ⟨rfl, rfl⟩ := Prod.mk.inj hpair
    obtain ⟨j, rfl, -⟩ := id hstep
    obtain ⟨htext, ns, hchained⟩ := analyzePredicates_continues hpredicates (some i) mid texts j _ htexts
    refine ⟨n.id, ns ++ [n], rfl, hchained.trans hstep, ?_⟩
    simp only [whereClauses, List.mem_singleton, forall_eq]
    exact ⟨n, by simp, htype, texts, htext, hparameter⟩

/-- The items of a select list append their nodes one behind the other. -/
private theorem selectItems_continues {items : List ParseTreeNode} (h : ∀ t ∈ items, IsSelectItem t) :
    Continues (selectItems items) := by
  induction items with
  | nil => exact Continues.pure
  | cons item items ih =>
    have hrest := ih fun t ht => h t (by simp [ht])
    cases h item (by simp) with
    | expression he =>
      have heq : selectItems (item :: items) = fun input => analyzeSelectListExpression item input >>= selectItems items :=
        funext fun input => selectItems_expression he items input
      rw [heq]
      exact (analyzeSelectListExpression_continues he).bind hrest
    | renamed he => exact (analyzeSelectListExpression_continues he).bind hrest

/-- The renamed columns are a chain of nodes behind the one of the columns. -/
private theorem renameColumns_chained {items : List ParseTreeNode} (h : ∀ t ∈ items, IsSelectItem t) {out top : Nat}
    {s s' : State} (hrun : renameColumns items out s = .ok (top, s')) : ∃ ns, Chained (some out) s top s' ns := by
  induction items generalizing out s with
  | nil =>
    obtain ⟨rfl, rfl⟩ := pure_eq_ok hrun
    exact ⟨[], Chained.refl top s'⟩
  | cons item items ih =>
    have hrest : ∀ {out s}, renameColumns items out s = .ok (top, s') → ∃ ns, Chained (some out) s top s' ns :=
      fun hrun => ih (fun t ht => h t (by simp [ht])) hrun
    cases h item (by simp) with
    | expression he =>
      rw [renameColumns_expression he] at hrun
      exact hrest hrun
    | renamed he =>
      rw [renameColumns_renamed] at hrun
      obtain ⟨oldname, -, hrun⟩ := lift_bind_eq_ok hrun
      obtain ⟨n, mid, hstep, -, -, hrun⟩ := step_bind (by decide) hrun
      obtain ⟨ns, hchained⟩ := hrest hrun
      exact ⟨[n] ++ ns, hstep.trans hchained⟩

/-- The select list of a SELECT clause, as a clause with an operator. -/
def selectClauses : ParseTreeNode → List Clause
  | .node .SELECT [.node .SELECT_LIST items] => [.selectList (.node .SELECT_LIST items)]
  | _ => []

/-- A SELECT clause adds steps, and one of them is the projection on its list. -/
theorem analyzeSelect_eq_ok {select : ParseTreeNode} (h : IsSelect select) {wh : Gen NodePtr} {s s' : State}
    {r : NodePtr} (hrun : analyzeSelect select wh s = .ok (r, s')) :
    ∃ source mid, wh s = .ok (source, mid) ∧ ∀ i, source = some i →
      ∃ top ns, r = some top ∧ Chained (some i) mid top s' ns ∧ ∀ c ∈ selectClauses select, ∃ n ∈ ns, c.HasOperator n := by
  cases h with
  | asterisk =>
    rw [analyzeSelect_asterisk] at hrun
    refine ⟨r, s', hrun, ?_⟩
    rintro i rfl
    exact ⟨i, [], rfl, Chained.refl i s', by simp [selectClauses]⟩
  | list hlist =>
    obtain ⟨-, hitems⟩ := hlist
    rw [analyzeSelect_list] at hrun
    obtain ⟨source, mid, hwhere, hrun⟩ := bind_eq_ok hrun
    refine ⟨source, mid, hwhere, ?_⟩
    rintro i rfl
    obtain ⟨input, mid', hselect, hrun⟩ := bind_eq_ok hrun
    obtain ⟨columns, hcolumns, hrun⟩ := lift_bind_eq_ok hrun
    obtain ⟨n, mid'', hstep, htype, hparameter, hrun⟩ := step_bind (by decide) hrun
    obtain ⟨top, mid₂, hrename, hrun⟩ := bind_eq_ok hrun
    obtain ⟨rfl, rfl⟩ := pure_eq_ok hrun
    obtain ⟨j, rfl, -⟩ := id hstep
    obtain ⟨front, hfront⟩ := selectItems_continues hitems (some i) mid j mid' hselect
    obtain ⟨back, hback⟩ := renameColumns_chained hitems hrename
    refine ⟨top, front ++ [n] ++ back, rfl, (hfront.trans hstep).trans hback, ?_⟩
    simp only [selectClauses, List.mem_singleton, forall_eq]
    exact ⟨n, by simp, htype, hparameter ▸ hcolumns⟩

end OperatorTreeGenerator

end IS

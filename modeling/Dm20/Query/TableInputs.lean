import Dm20.Query.GraphGrowth

namespace IS

open ParseTreeNode Stateful
open QueryParser (iequals)

theorem ParseTreeNode.getValue_leaf (symbol : Symbol) (value : Str) : (leaf symbol value).getValue = value := rfl

/-- A table with a window: its name and the parts behind it. -/
structure Table where
  name : Str
  parts : List ParseTreeNode

/-- The size of a window in rows, or in time with its unit. -/
inductive WindowSize where
  | rows (number : Str)
  | range (number unit : Str)

namespace WindowSize

def ofWindow : ParseTreeNode → Option WindowSize
  | .node .WINDOW (.leaf _ type :: .leaf _ number :: rest) =>
    if iequals type "ROWS".toList then some (.rows number)
    else if iequals type "RANGE".toList then rest.head?.map fun unit => .range number unit.getValue
    else none
  | _ => none

/-- The parameter of an operator that holds the size. -/
def parameters : WindowSize → DataStore
  | rows number => [("range_window".toList, number)]
  | range number unit => [("time_window".toList, number ++ " ".toList ++ unit)]

end WindowSize

/-- The parameters of an operator that hold the order of a sorted window. -/
def sorting : ParseTreeNode → DataStore
  | .node .WINDOW [_, _, _, limit, _, seed] => [("limit".toList, limit.getValue), ("seed".toList, seed.getValue)]
  | _ => []

namespace Table

/-- The columns of the PARTITION clause. -/
def partition (t : Table) : Option ParseTreeNode :=
  match t.parts with
  | .node .PARTITION [_, list] :: _ => some list
  | _ => none

def window (t : Table) : Option ParseTreeNode :=
  t.parts.find? fun part => part.getSymbol = .WINDOW

def size (t : Table) : Option WindowSize :=
  t.window.bind WindowSize.ofWindow

/-- The HIERARCHY clause. -/
def hierarchy (t : Table) : Option ParseTreeNode :=
  t.parts.find? fun part => part.getSymbol = .HIERARCHY

/-- The level of the hierarchy where it is another than the own one. -/
def level (t : Table) : Option Str :=
  (t.hierarchy.bind fun hierarchy => hierarchy.children.head?.map getValue).filter fun level =>
    !iequals level "OWN".toList

/-- The order of a sorted window. A table with a hierarchy and no partition does
not sort. -/
def sortParameters (t : Table) : DataStore :=
  if t.partition.isNone && t.hierarchy.isSome then [] else (t.window.map sorting).getD []

def partitionParameters (t : Table) : Except TreeError DataStore :=
  match t.partition with
  | none => .ok []
  | some list => (OperatorTreeGenerator.findColumns list).map fun columns => [("partition".toList, columns)]

end Table

namespace OperatorTreeGenerator

/-- An operator reads a stream that another graph fills, and a request asks for
that graph at a level of the hierarchy. -/
def Requests (s : State) (table : Table) (level : Str) (n : Node) : Prop :=
  ∃ stream request graph transfer, request ∈ ordinary s.graph.nodes ∧ graph ∈ s.graphList ∧ transfer ∈ graph.nodes ∧
    n.data "parameter" = stream ++ ",".toList ++ table.name ∧
    request.type = "request".toList ∧ level ++ ",".toList ++ Graph.getID graph <+: request.data "parameter" ∧
    transfer.type = "transfer".toList ∧ transfer.data "parameter" = "own,".toList ++ stream

/-- The operator that reads a table with a window: it has the size of the window
and the columns of the partition. The level of a hierarchy is only requested where
the table has no partition. -/
structure InputOf (s : State) (table : Table) (n : Node) : Prop where
  store : ∃ size columns, table.size = some size ∧ table.partitionParameters = .ok columns ∧
    n.store = [("operator_type".toList, "in".toList), ("master".toList, n.data "master"),
      ("parameter".toList, n.data "parameter")] ++ (size.parameters ++ table.sortParameters ++ columns) ++
      [("nid".toList, n.getID)]
  requests : ∀ level, table.level = some level → table.partition = none → Requests s table level n
  reads : table.level = none ∨ table.partition ≠ none → n.data "parameter" = table.name

/-- The node of a table with a window is an input. -/
theorem InputOf.type {s : State} {table : Table} {n : Node} (h : InputOf s table n) : n.type = "in".toList := by
  obtain ⟨_, _, -, -, hstore⟩ := h.store
  rw [Node.type, Node.data, hstore]
  rfl

/-- A request to other stations stays one where more nodes are added. -/
theorem Requests.mono {s s' : State} {ns : List Node} (hadds : Adds s s' ns) {table : Table}
    {level : Str} {n : Node} (h : Requests s table level n) : Requests s' table level n := by
  obtain ⟨stream, request, graph, transfer, hrequest, hgraph, htransfer, hrest⟩ := h
  refine ⟨stream, request, graph, transfer, ?_, hadds.graphs.subset hgraph, htransfer, hrest⟩
  rw [hadds.ordinary]
  exact List.mem_append_left _ hrequest

/-- The input of a table stays one where more nodes are added. -/
theorem InputOf.mono {s s' : State} {ns : List Node} (hadds : Adds s s' ns) {table : Table}
    {n : Node} (h : InputOf s table n) : InputOf s' table n where
  store := h.store
  requests := fun level hlevel hpartition => (h.requests level hlevel hpartition).mono hadds
  reads := h.reads

/-- The parameters of a window are its size, and its order where it sorts. -/
private theorem windowParameters_eq {window : ParseTreeNode} (h : IsWindow window) (sort : Bool) (id : Nat)
    (master name : Str) :
    ∃ size, WindowSize.ofWindow window = some size ∧
      windowParameters window sort ⟨id, [("operator_type".toList, "in".toList), ("master".toList, master),
        ("parameter".toList, name)]⟩ =
      .ok ⟨id, [("operator_type".toList, "in".toList), ("master".toList, master), ("parameter".toList, name)] ++
        (size.parameters ++ if sort then sorting window else [])⟩ := by
  cases h with
  | @rows symbol type number htype hnumber =>
    refine ⟨.rows number, if_pos htype, ?_⟩
    rw [windowParameters_rows htype (.inr rfl)]
    cases sort <;> rfl
  | @sorted symbol sortSymbol seedSymbol numberSymbol type number sortWord limit seed seedNumber htype hnumber hlimit =>
    refine ⟨.rows number, if_pos htype, ?_⟩
    cases sort with
    | false =>
      rw [windowParameters_rows htype (.inl rfl)]
      rfl
    | true =>
      rw [windowParameters_sorted htype]
      rfl
  | @range symbol unitSymbol type number unit htype hnumber hunit =>
    refine ⟨.range number unit, (if_neg (by rw [iequals_range htype]; exact Bool.false_ne_true)).trans (if_pos htype), ?_⟩
    rw [windowParameters_range htype]
    cases sort <;> rfl

/-- A window has both parameters of a sort clause or neither. -/
theorem sorting_cases (window : ParseTreeNode) :
    sorting window = [] ∨ ∃ limit seed, sorting window = [("limit".toList, limit), ("seed".toList, seed)] := by
  unfold sorting
  split
  · exact .inr ⟨_, _, rfl⟩
  · exact .inl rfl

/-- The operator of a table before the graph has it. -/
def inputNode (s : State) (name : Str) (parameters : DataStore) : Node :=
  ⟨s.ncount, [("operator_type".toList, "in".toList), ("master".toList, s.master), ("parameter".toList, name)] ++
    parameters⟩

private theorem inputNode_partition (size : WindowSize) (window : ParseTreeNode) (columns : Str) (s : State)
    (name : Str) :
    (inputNode s name (size.parameters ++ sorting window)).setData "partition" columns =
      inputNode s name (size.parameters ++ sorting window ++ [("partition".toList, columns)]) := by
  obtain hsorting | ⟨limit, seed, hsorting⟩ := sorting_cases window
  · rw [hsorting]
    cases size <;> rfl
  · rw [hsorting]
    cases size <;> rfl

/-- The parameters a table can have behind the size of its window. -/
def IsOrder (order columns : DataStore) : Prop :=
  (order = [] ∨ ∃ limit seed, order = [("limit".toList, limit), ("seed".toList, seed)]) ∧
    (columns = [] ∨ ∃ list, columns = [("partition".toList, list)])

private theorem graphNode_inputNode_store (size : WindowSize) {order columns : DataStore} (h : IsOrder order columns)
    (s : State)
    (name : Str) : (graphNode (inputNode s name (size.parameters ++ order ++ columns))).store =
      [("operator_type".toList, "in".toList), ("master".toList, s.master), ("parameter".toList, name)] ++
        (size.parameters ++ order ++ columns) ++ [("nid".toList, Node.getID ⟨s.ncount, []⟩)] := by
  obtain ⟨rfl | ⟨limit, seed, rfl⟩, rfl | ⟨list, rfl⟩⟩ := h
  all_goals cases size <;> rfl

/-- A table without a request adds one operator. -/
theorem inputNode_grows {s s' : State} (table : Table) {size : WindowSize} {columns : DataStore}
    (hs' : s' = { s with
      ncount := s.ncount + 1
      graph := s.graph.addNode (inputNode s table.name (size.parameters ++ table.sortParameters ++ columns)) })
    (hsize : table.size = some size) (hcolumns : table.partitionParameters = .ok columns)
    (horder : IsOrder table.sortParameters columns) (hlevel : table.level = none ∨ table.partition ≠ none) :
    ∃ n requests, some s.ncount = some n.id ∧ Grows s s' (n :: requests) [] ∧ InputOf s' table n ∧
      ∀ m ∈ requests, m.hasType "request" = true := by
  subst hs'
  have hstore := graphNode_inputNode_store size horder s table.name
  have hmaster : (graphNode (inputNode s table.name (size.parameters ++ table.sortParameters ++ columns))).data "master" =
      s.master := (graphNode_data _ (by decide)).trans rfl
  have hparameter : (graphNode (inputNode s table.name
      (size.parameters ++ table.sortParameters ++ columns))).data "parameter" = table.name :=
    (graphNode_data _ (by decide)).trans rfl
  refine ⟨graphNode (inputNode s table.name (size.parameters ++ table.sortParameters ++ columns)), [], rfl, ?_, ?_, by simp⟩
  · exact Grows.node rfl rfl (List.prefix_refl _) (Nat.le_refl _) (Nat.lt_succ_self _) rfl (fun _ => rfl) fun _ _ => rfl
  · exact
      { store := ⟨size, columns, hsize, hcolumns, by rw [hmaster, hparameter]; exact hstore⟩
        requests := fun level hsome hnone => by
          obtain hlevel | hlevel := hlevel
          · rw [hlevel] at hsome
            cases hsome
          · exact absurd hnone hlevel
        reads := fun _ => hparameter }

/-- The level of a table is the first word of its hierarchy, except for `OWN`, which asks no
other station. -/
theorem Table.level_of_hierarchy {hierarchy level : ParseTreeNode} (h : IsHierarchy [hierarchy])
    (hlevel : hierarchy.getChildNode 0 = .ok level) (name : Str) (values : List ParseTreeNode) :
    Table.level ⟨name, [.node .WINDOW values, hierarchy]⟩ =
      if iequals level.getValue "OWN".toList then none else some level.getValue := by
  have hfilter : Table.level ⟨name, [.node .WINDOW values, hierarchy]⟩ =
      (some level.getValue).filter fun text => !iequals text "OWN".toList := by
    cases h <;> cases hlevel <;> rfl
  rw [hfilter]
  by_cases hown : iequals level.getValue "OWN".toList = true
  · rw [if_pos hown, Option.filter_some, hown]
    rfl
  · rw [if_neg hown, Option.filter_some, Bool.eq_false_of_not_eq_true hown]
    rfl

theorem Table.sortParameters_of_hierarchy {hierarchy : ParseTreeNode} (h : IsHierarchy [hierarchy]) (name : Str)
    (values : List ParseTreeNode) : Table.sortParameters ⟨name, [.node .WINDOW values, hierarchy]⟩ = [] := by
  cases h <;> rfl

/-- A table with a request adds the operator that reads it and the request. -/
theorem requestOperators_grows {s s' : State} {name : Str} {values : List ParseTreeNode} {hierarchy level : ParseTreeNode}
    {size : WindowSize} {r : NodePtr} (h : IsHierarchy [hierarchy]) (hlevel : hierarchy.getChildNode 0 = .ok level)
    (hsize : Table.size ⟨name, [.node .WINDOW values, hierarchy]⟩ = some size)
    (hown : ¬ iequals level.getValue "OWN".toList = true)
    (hrun : requestOperators hierarchy (inputNode s name size.parameters) { s with ncount := s.ncount + 1 } = .ok (r, s')) :
    ∃ n requests, r = some n.id ∧ Grows s s' (n :: requests) [] ∧
      InputOf s' ⟨name, [.node .WINDOW values, hierarchy]⟩ n ∧ ∀ m ∈ requests, m.hasType "request" = true := by
  obtain ⟨s₁, stream, request, graph, transfer, range, heq, hncount, -, hsymbol, hmaster, hgraph, hgraphs, htransfer,
    hid, hstore, htype, hparameter⟩ := requestOperators_eq h hlevel (inputNode s name size.parameters)
      { s with ncount := s.ncount + 1 }
  rw [heq] at hrun
  cases hrun
  obtain ⟨input, hinput⟩ : ∃ input : Node, input = (inputNode s name size.parameters).setData "parameter"
      (stream ++ ",".toList ++ (inputNode s name size.parameters).data "parameter") := ⟨_, rfl⟩
  have hinputId : input.id = s.ncount := congrArg Node.id hinput
  have hinputData : input.type = "in".toList ∧ input.data "master" = s.master ∧
      input.data "parameter" = stream ++ ",".toList ++ name := by
    rw [hinput, Node.type, Node.data_setData, Node.data_setData, Node.data_setData]
    exact ⟨rfl, rfl, rfl⟩
  have hrequest : request.type = "request".toList ∧ request.data "parameter" =
      level.getValue ++ ",".toList ++ Graph.getID graph ++ range := by
    rw [Node.type, Node.data, Node.data, hstore]
    exact ⟨rfl, rfl⟩
  rw [← hinput] at hgraph
  have hfirst : Grows s { s with ncount := s.ncount + 1, graph := s.graph.addNode input } [graphNode input] [] :=
    Grows.node rfl rfl (List.prefix_refl _) hinputId.ge (by simp [hinputId])
      (by rw [Node.hasType_eq hinputData.1]; decide) (fun _ => rfl) fun _ _ => hinputData.2.1
  have hsecond : Grows { s with ncount := s.ncount + 1, graph := s.graph.addNode input } s' [graphNode request] [] :=
    Grows.node hsymbol hgraph (by rw [hgraphs]; exact List.prefix_append ..) (by simp [hid]) (by simp [hid, hncount])
      (by rw [Node.hasType_eq hrequest.1]; decide) hmaster (by rw [Node.hasType_eq hrequest.1]; simp)
  have hgrows := hfirst.trans hsecond
  have hmasterData : (graphNode input).data "master" = s.master := (graphNode_data _ (by decide)).trans hinputData.2.1
  have hparameterData : (graphNode input).data "parameter" = stream ++ ",".toList ++ name :=
    (graphNode_data _ (by decide)).trans hinputData.2.2
  have hinputStore : (graphNode input).store = [("operator_type".toList, "in".toList), ("master".toList, s.master),
      ("parameter".toList, stream ++ ",".toList ++ name)] ++ (size.parameters ++ [] ++ []) ++
        [("nid".toList, input.getID)] := by
    rw [hinput]
    cases size <;> rfl
  have hlevelOf := Table.level_of_hierarchy h hlevel name values
  rw [if_neg hown] at hlevelOf
  refine ⟨graphNode input, [graphNode request], congrArg some hinputId.symm, hgrows, ?_, ?_⟩
  · exact
      { store := ⟨size, [], hsize, rfl, by
          rw [hmasterData, hparameterData, Table.sortParameters_of_hierarchy h]
          exact hinputStore⟩
        requests := fun level' hlevel' _ => by
          obtain rfl := Option.some.inj (hlevelOf.symm.trans hlevel')
          refine ⟨stream, graphNode request, graph, transfer, ?_, ?_, htransfer, hparameterData, ?_, ?_, htype, hparameter⟩
          · rw [hgrows.ordinary]
            simp
          · simp [hgraphs]
          · rw [graphNode_type, hrequest.1]
          · rw [graphNode_data _ (by decide), hrequest.2]
            exact List.prefix_append ..
        reads := fun hown' => by
          obtain hnone | hpartition := hown'
          · cases hlevelOf.symm.trans hnone
          · exact absurd rfl hpartition }
  · intro m hm
    rw [List.mem_singleton.mp hm, graphNode_hasType, Node.hasType_eq hrequest.1]
    rfl

/-- The operators of a table with a window: the one that reads it, and one more
for the request of a hierarchy. -/
theorem tableOperators_eq_ok {symbol : Symbol} {name : Str} {partition level : List ParseTreeNode}
    {window : ParseTreeNode} (hpartition : IsPartition partition) (hwindow : IsWindow window)
    (hlevel : IsHierarchy level) {s s' : State} {r : NodePtr}
    (hrun : tableOperators (.leaf symbol name) (partition ++ [window] ++ level) s = .ok (r, s')) :
    ∃ n requests, r = some n.id ∧ Grows s s' (n :: requests) [] ∧
      InputOf s' ⟨name, partition ++ [window] ++ level⟩ n ∧ ∀ m ∈ requests, m.hasType "request" = true := by
  obtain ⟨values, rfl⟩ : ∃ values, window = .node .WINDOW values := by
    cases hwindow <;> exact ⟨_, rfl⟩
  rw [tableOperators] at hrun
  obtain ⟨master, mid, hmaster, hrun⟩ := bind_eq_ok hrun
  cases hmaster
  obtain ⟨rval, mid, hnode, hrun⟩ := bind_eq_ok hrun
  cases hnode
  cases hpartition with
  | @columns bySymbol byWord list hlist =>
    obtain ⟨-, hitems⟩ := hlist
    obtain ⟨columns, hcolumns⟩ := findColumns_ok (.inl rfl) hitems
    obtain ⟨size, hsize, hparameters⟩ := windowParameters_eq hwindow true s.ncount s.master name
    simp only [List.cons_append, List.nil_append, getSymbol, if_true, getValue] at hrun hparameters ⊢
    rw [hparameters, lift_ok_bind] at hrun
    obtain ⟨_, hchild, hrun⟩ := lift_bind_eq_ok hrun
    cases hchild
    rw [hcolumns, lift_ok_bind] at hrun
    obtain ⟨_, mid, hadd, hrun⟩ := bind_eq_ok hrun
    obtain ⟨rfl, rfl⟩ := pure_eq_ok hrun
    refine inputNode_grows ⟨name, _⟩ ?_ hsize (by simp [Table.partitionParameters, Table.partition, hcolumns, Except.map])
      ⟨sorting_cases _, .inr ⟨columns, rfl⟩⟩ (.inr (by simp [Table.partition]))
    cases hadd
    exact congrArg (fun n => State.mk _ _ _ _ _ (s.graph.addNode n) _) (inputNode_partition size _ columns s name)
  | none =>
    obtain rfl | ⟨hierarchy, rfl⟩ : level = [] ∨ ∃ hierarchy, level = [hierarchy] := by
      cases hlevel <;> simp
    · obtain ⟨size, hsize, hparameters⟩ := windowParameters_eq hwindow true s.ncount s.master name
      simp only [List.append_nil, List.nil_append, getSymbol, getValue, reduceCtorEq] at hrun hparameters ⊢
      rw [hparameters, lift_ok_bind] at hrun
      obtain ⟨_, mid, hadd, hrun⟩ := bind_eq_ok hrun
      obtain ⟨rfl, rfl⟩ := pure_eq_ok hrun
      refine inputNode_grows ⟨name, _⟩ ?_ hsize rfl ⟨sorting_cases _, .inl rfl⟩ (.inl rfl)
      cases hadd
      rw [List.append_nil]
      rfl
    · obtain ⟨size, hsize, hparameters⟩ := windowParameters_eq hwindow false s.ncount s.master name
      obtain ⟨level, hlevelNode⟩ : ∃ level, hierarchy.getChildNode 0 = .ok level := by
        cases hlevel <;> exact ⟨_, rfl⟩
      simp only [List.cons_append, List.nil_append, List.append_nil, getSymbol, getValue_leaf, Bool.false_eq_true,
        if_false] at hrun hparameters ⊢
      rw [hparameters, lift_ok_bind, hlevelNode, lift_ok_bind] at hrun
      by_cases hown : iequals level.getValue "OWN".toList = true
      · rw [if_pos hown] at hrun
        obtain ⟨_, mid, hadd, hrun⟩ := bind_eq_ok hrun
        obtain ⟨rfl, rfl⟩ := pure_eq_ok hrun
        have hsort := Table.sortParameters_of_hierarchy hlevel name values
        refine inputNode_grows ⟨name, _⟩ ?_ hsize rfl ⟨.inl hsort, .inl rfl⟩ (.inl ?_)
        · cases hadd
          rw [hsort, List.append_nil, List.append_nil]
          rfl
        · rw [Table.level_of_hierarchy hlevel hlevelNode, if_pos hown]
      · rw [if_neg hown] at hrun
        exact requestOperators_grows hlevel hlevelNode hsize hown hrun

end OperatorTreeGenerator

end IS

import Mathlib.Data.List.Nodup
import Dm20.Query.Routes

namespace IS

open ParseTreeNode Stateful

namespace Graph

/-- The number of edges to an operator. -/
def incoming (g : Graph) (n : Node) : Nat :=
  g.edges.countP fun e => e.target = n.id

/-- The number of edges from an operator. -/
def outgoing (g : Graph) (n : Node) : Nat :=
  g.edges.countP fun e => e.source = n.id

def Feeds (g : Graph) (i j : Nat) : Prop :=
  ∃ e ∈ g.edges, e.source = i ∧ e.target = j

/-- The shape of a graph whose operators all work towards one output. Requests
stand beside it without edges. -/
structure IsDataflow (g : Graph) : Prop where
  ids : (g.nodes.map Node.getID).Nodup
  ends : ∀ e ∈ g.edges, e.source ∈ g.nodes.map Node.id ∧ e.target ∈ g.nodes.map Node.id
  acyclic : ∀ i, ¬ Relation.TransGen g.Feeds i i
  incoming : ∀ n ∈ g.nodes, n.hasType "request" = false → g.incoming n = n.arity
  output : ∃ out ∈ g.nodes, out.hasType "out" = true ∧ g.outgoing out = 0 ∧
    ∀ n ∈ g.nodes, n.hasType "request" = false →
      (n.id ≠ out.id → g.outgoing n = 1) ∧ Relation.ReflTransGen g.Feeds n.id out.id
  requests : ∀ n ∈ g.nodes, n.hasType "request" = true → g.incoming n = 0 ∧ g.outgoing n = 0

end Graph

private theorem getID_injective : Function.Injective fun id : Nat => "n".toList ++ to_string_nat id := by
  intro i j h
  exact to_string_nat_injective (List.append_cancel_left h)

namespace OperatorTreeGenerator

private theorem feeds_iff {g : Graph} {flow : FlowTree Node} (hedges : g.edges.map Edge.ends = flow.edges.map endIds)
    (i j : Nat) :
    g.Feeds i j ↔ flow.Feeds Node.id i j := by
  have hgraph : g.Feeds i j ↔ (i, j) ∈ g.edges.map Edge.ends := by
    simp [Graph.Feeds, Edge.ends]
  have hflow : flow.Feeds Node.id i j ↔ (i, j) ∈ flow.edges.map endIds := by
    simp [FlowTree.Feeds, endIds]
  rw [hgraph, hflow, hedges]

private theorem incoming_eq {g : Graph} {flow : FlowTree Node}
    (hedges : g.edges.map Edge.ends = flow.edges.map endIds) (n : Node) :
    g.incoming n = flow.edges.countP fun e => e.2.id = n.id := by
  have hcount : (g.edges.map Edge.ends).countP (fun e => e.2 = n.id) =
      (flow.edges.map endIds).countP (fun e => e.2 = n.id) := by rw [hedges]
  rwa [List.countP_map, List.countP_map] at hcount

private theorem outgoing_eq {g : Graph} {flow : FlowTree Node}
    (hedges : g.edges.map Edge.ends = flow.edges.map endIds) (n : Node) :
    g.outgoing n = flow.edges.countP fun e => e.1.id = n.id := by
  have hcount : (g.edges.map Edge.ends).countP (fun e => e.1 = n.id) =
      (flow.edges.map endIds).countP (fun e => e.1 = n.id) := by rw [hedges]
  rwa [List.countP_map, List.countP_map] at hcount

/-- A graph with the nodes and edges of a flow, and requests beside it. -/
theorem isDataflow_of_flow {g : Graph} {flow : FlowTree Node} {requests : List Node}
    (hedges : g.edges.map Edge.ends = flow.edges.map endIds) (hnodes : g.nodes.Perm (flow.nodes ++ requests))
    (hids : (g.nodes.map Node.id).Nodup) (hfits : flow.Fits Node.arity)
    (hflow : ∀ n ∈ flow.nodes, n.hasType "request" = false) (hrequests : ∀ n ∈ requests, n.hasType "request" = true)
    (hroot : flow.root.hasType "out" = true) : g.IsDataflow := by
  have hall : ((flow.nodes ++ requests).map Node.id).Nodup := (hnodes.map Node.id).nodup_iff.mp hids
  rw [List.map_append, List.nodup_append] at hall
  obtain ⟨hnodup, -, hapart⟩ := hall
  have hmem : ∀ n ∈ g.nodes, n.hasType "request" = false → n ∈ flow.nodes := fun n hn hrequest => by
    obtain hn | hn := List.mem_append.mp (hnodes.mem_iff.mp hn)
    · exact hn
    · rw [hrequests n hn] at hrequest
      cases hrequest
  have hinside : ∀ n ∈ flow.nodes, n ∈ g.nodes := fun n hn => hnodes.mem_iff.mpr (List.mem_append_left _ hn)
  refine ⟨?_, ?_, ?_, ?_, ⟨flow.root, hinside _ flow.root_mem_nodes, hroot, ?_, ?_⟩, ?_⟩
  · have hgetID := hids.map getID_injective
    rwa [List.map_map] at hgetID
  · intro e he
    have hends : e.ends ∈ flow.edges.map endIds := hedges ▸ List.mem_map_of_mem he
    obtain ⟨edge, hedge, heq⟩ := List.mem_map.mp hends
    obtain ⟨hsource, htarget⟩ := FlowTree.mem_nodes_of_mem_edges hedge
    obtain ⟨hfst, hsnd⟩ := Prod.mk.inj heq
    exact ⟨hfst ▸ List.mem_map_of_mem (hinside _ hsource), hsnd ▸ List.mem_map_of_mem (hinside _ htarget)⟩
  · intro i hcycle
    exact FlowTree.acyclic hnodup i (Relation.TransGen.mono (fun _ _ => (feeds_iff hedges _ _).mp) _ _ hcycle)
  · intro n hn hrequest
    rw [incoming_eq hedges]
    exact FlowTree.countP_incoming hfits hnodup (hmem n hn hrequest)
  · rw [outgoing_eq hedges, FlowTree.countP_outgoing hnodup flow.root_mem_nodes, if_pos rfl]
  · intro n hn hrequest
    refine ⟨fun hne => ?_, ?_⟩
    · rw [outgoing_eq hedges, FlowTree.countP_outgoing hnodup (hmem n hn hrequest), if_neg hne]
    · exact Relation.ReflTransGen.mono (fun _ _ => (feeds_iff hedges _ _).mpr) _ _
        (FlowTree.reaches_root Node.id (hmem n hn hrequest))
  · intro n hn hrequest
    have hother : ∀ m ∈ flow.nodes, m.id ≠ n.id := fun m hm heq => by
      obtain hn | hn := List.mem_append.mp (hnodes.mem_iff.mp hn)
      · rw [hflow n hn] at hrequest
        cases hrequest
      · exact hapart _ (List.mem_map_of_mem hm) _ (List.mem_map_of_mem hn) heq
    rw [incoming_eq hedges, outgoing_eq hedges]
    exact ⟨FlowTree.countP_snd_eq_zero Node.id hother, FlowTree.countP_fst_eq_zero Node.id hother⟩

/-- A query whose output is made first, and then a flow that ends in it. -/
structure Finished (master : Str) (s : State) (flow : FlowTree Node) (out : Node) (ns : List Node) : Prop where
  nodes : s.graph.nodes = out :: ns
  edges : s.graph.edges.map Edge.ends = (FlowTree.step out flow).edges.map endIds
  ids : (s.graph.nodes.map Node.id).Nodup
  type : out.type = "out".toList
  shaped : Shaped flow ns
  masters : master ≠ [] → ∀ n ∈ out :: ns, n.hasType "request" = false → n.data "master" = master

/-- The nodes that the clauses add behind the output node make up the finished graph. -/
theorem Finished.of_grows {master : Str} {mid mid' s : State} {out : Node} {flow : FlowTree Node} {ns : List Node}
    (hout : Grows { master } mid [out] []) (htype : out.type = "out".toList) (hset : Adds mid mid' [])
    (hgraph : mid'.graph = mid.graph) (hsymbol : mid'.secondNodeSymbol ≠ some .WITH_RECURSIVE)
    (hrest : Grows mid' s ns (flow.edges.map endIds ++ [(flow.root.id, out.id)])) (hshaped : Shaped flow ns) :
    Finished master s flow out ns := by
  have hadds := (hout.toAdds.trans hset).trans hrest.toAdds
  have hnodes : s.graph.nodes = out :: ns := by
    rw [hrest.nodes hsymbol, hgraph, hout.nodes (by simp)]
    rfl
  refine ⟨hnodes, ?_, hnodes ▸ hadds.nodup, htype, hshaped, hadds.masters⟩
  rw [hrest.edges, hgraph, hout.edges, FlowTree.edges, List.map_append]
  rfl

/-- The nodes of a finished graph are those of its flow and requests to other stations. -/
theorem Finished.perm {master : Str} {s : State} {flow : FlowTree Node} {out : Node} {ns : List Node}
    (h : Finished master s flow out ns) : ∃ requests, s.graph.nodes.Perm ((FlowTree.step out flow).nodes ++ requests) ∧
      ∀ n ∈ requests, n.hasType "request" = true := by
  obtain ⟨requests, hperm, hrequests⟩ := h.shaped.nodes
  refine ⟨requests, ?_, hrequests⟩
  rw [h.nodes, FlowTree.nodes, List.append_assoc]
  refine (hperm.cons out).trans ?_
  rw [← List.cons_append]
  exact List.perm_append_comm.trans (List.perm_append_comm.trans List.perm_middle.symm)

/-- A finished graph is a data flow: each operator leads to the output. -/
theorem Finished.isDataflow {master : Str} {s : State} {flow : FlowTree Node} {out : Node} {ns : List Node}
    (h : Finished master s flow out ns) : s.graph.IsDataflow := by
  obtain ⟨requests, hperm, hrequests⟩ := h.perm
  refine isDataflow_of_flow h.edges hperm h.ids ⟨?_, h.shaped.fits⟩ ?_ hrequests ?_
  · simp only [Node.arity, Node.hasType_eq h.type]
    decide
  · intro n hn
    rw [FlowTree.nodes, List.mem_append, List.mem_singleton] at hn
    obtain hn | rfl := hn
    · exact (h.shaped.working n hn).1
    · rw [Node.hasType_eq h.type]
      decide
  · rw [FlowTree.root_step, Node.hasType_eq h.type]
    decide

/-- A source with the edge to the output. -/
theorem Finished.of_source {master : Str} {mid mid' s : State} {out n : Node} {type : String}
    (hout : Grows { master } mid [out] []) (htype : out.type = "out".toList) (hset : Adds mid mid' [])
    (hgraph : mid'.graph = mid.graph) (hsymbol : mid'.secondNodeSymbol ≠ some .WITH_RECURSIVE)
    (hn : n.type = type.toList) (hsource : type = "RDB" ∨ type = "create" ∨ type = "drop")
    (hrest : Grows mid' s [n] [(n.id, out.id)]) : Finished master s (.source n) out [n] := by
  refine Finished.of_grows hout htype hset hgraph hsymbol hrest ⟨⟨[], by simp [FlowTree.nodes], by simp⟩, ?_, ?_⟩
  · rw [FlowTree.Fits]
    simp only [Node.arity, Node.hasType_eq hn]
    obtain rfl | rfl | rfl := hsource <;> decide
  · intro m hm
    rw [List.mem_singleton.mp hm, Node.hasType_eq hn, Node.hasType_eq hn]
    obtain rfl | rfl | rfl := hsource <;> decide

private theorem setClause_eq_ok {subtree : ParseTreeNode} {index : Nat} {wordKey textKey : String}
    {create create' : Node}
    (h : setClause subtree index wordKey textKey create = .ok create') :
    ∃ word text, create' = (create.setData wordKey word).setData textKey text := by
  obtain ⟨word, -, h⟩ := Except.bind_eq_ok_iff.mp h
  obtain ⟨text, -, h⟩ := Except.bind_eq_ok_iff.mp h
  cases h
  exact ⟨word.getValue, text, rfl⟩

/-- The clauses of a stream leave the type of its operator. -/
theorem setStart_type {subtree : ParseTreeNode} {create create' : Node}
    (h : (setTimer subtree create >>= setStart subtree) = .ok create') : create'.type = create.type ∧ create'.id = create.id := by
  have hset : ∀ {index : Nat} {wordKey textKey : String} {n n' : Node}, wordKey.toList ≠ "operator_type".toList →
      textKey.toList ≠ "operator_type".toList → setClause subtree index wordKey textKey n = .ok n' →
      n'.type = n.type ∧ n'.id = n.id := by
    intro index wordKey textKey n n' hword htext h
    obtain ⟨word, text, rfl⟩ := setClause_eq_ok h
    rw [Node.type, Node.data_setData, if_neg (Ne.symm htext), Node.data_setData, if_neg (Ne.symm hword)]
    exact ⟨rfl, rfl⟩
  obtain ⟨timer, htimer, hstart⟩ := Except.bind_eq_ok_iff.mp h
  have hfirst : timer.type = create.type ∧ timer.id = create.id := by
    rw [setTimer] at htimer
    split at htimer
    · exact hset (by decide) (by decide) htimer
    · cases htimer
      exact ⟨rfl, rfl⟩
  have hsecond : create'.type = timer.type ∧ create'.id = timer.id := by
    rw [setStart] at hstart
    split at hstart
    · exact hset (by decide) (by decide) hstart
    · cases hstart
      exact ⟨rfl, rfl⟩
  exact ⟨hsecond.1.trans hfirst.1, hsecond.2.trans hfirst.2⟩

/-- The operator of a stream. -/
theorem analyzeCreateStream_eq_ok {stream attrsNode : ParseTreeNode} {rest : List ParseTreeNode} {s s' : State} {create : Nat}
    (hrun : analyzeCreateStream (.node .CREATE_STREAM (stream :: attrsNode :: rest)) s = .ok (create, s')) :
    ∃ n, create = n.id ∧ n.type = "create".toList ∧ Grows s s' [n] [] := by
  rw [analyzeCreateStream_cons] at hrun
  obtain ⟨attrs, -, hrun⟩ := lift_bind_eq_ok hrun
  obtain ⟨n, mid, hnew, hrun⟩ := bind_eq_ok hrun
  cases hnew
  obtain ⟨n', hclauses, hrun⟩ := lift_bind_eq_ok hrun
  obtain ⟨htype, hid⟩ := setStart_type hclauses
  obtain ⟨master, mid, hmaster, hrun⟩ := bind_eq_ok hrun
  cases hmaster
  obtain ⟨_, mid, hadd, hrun⟩ := bind_eq_ok hrun
  cases hadd
  obtain ⟨rfl, rfl⟩ := pure_eq_ok hrun
  have hset : (n'.setData "master" s.master).type = "create".toList := by
    rw [Node.type, Node.data_setData, if_neg (by decide)]
    exact htype
  refine ⟨graphNode (n'.setData "master" s.master), rfl, (graphNode_type _).trans hset, ?_⟩
  refine Grows.node rfl rfl (List.prefix_refl _) hid.ge (Nat.lt_succ_of_le hid.le) ?_ (fun _ => rfl) fun _ _ => ?_
  · rw [Node.hasType_eq hset]
    decide
  · rw [Node.data_setData, if_pos rfl]

/-- A `DROP STREAM` adds one node, without an edge. -/
theorem analyzeDropStream_eq_ok {symbol : Symbol} {name : Str} {s s' : State} {drop : Nat}
    (hrun : analyzeDropStream (.node .DROP_STREAM [.leaf symbol name]) s = .ok (drop, s')) :
    ∃ n, drop = n.id ∧ n.type = "drop".toList ∧ Grows s s' [n] [] := by
  obtain ⟨n, hn⟩ : ∃ n : Node, n = ⟨s.ncount, [("operator_type".toList, "drop".toList),
      ("stream_name".toList, name), ("master".toList, s.master)]⟩ := ⟨_, rfl⟩
  have hdata : n.type = "drop".toList ∧ n.data "master" = s.master ∧ n.id = s.ncount := by
    subst hn
    exact ⟨rfl, rfl, rfl⟩
  obtain ⟨htype, hmaster, hid⟩ := hdata
  have hrun' : analyzeDropStream (.node .DROP_STREAM [.leaf symbol name]) s =
      .ok (n.id, { s with ncount := s.ncount + 1, graph := s.graph.addNode n }) := by
    subst hn
    rfl
  rw [hrun'] at hrun
  cases hrun
  refine ⟨graphNode n, rfl, (graphNode_type _).trans htype, ?_⟩
  refine Grows.node rfl rfl (List.prefix_refl _) hid.ge (Nat.lt_succ_of_le hid.le) ?_ (fun _ => rfl) fun _ _ => hmaster
  rw [Node.hasType_eq htype]
  decide

/-- An analysis from the start: its flow, and the paths of its routes. -/
structure Analysed (master : Str) (s : State) (rs : List Route) (flow : FlowTree Node) (out : Node) (ns : List Node) : Prop
    extends Finished master s flow out ns where
  paths : ∃ paths, List.Forall₂ (PathOf s) rs paths ∧ (∀ path ∈ paths, path ∈ (FlowTree.step out flow).paths) ∧
    paths.map List.head? = (s.graph.nodes.filter fun n => n.hasType "in").map some

/-- The output node is no input, so the inputs of the graph are those of the flow. -/
theorem Finished.inputs_out {master : Str} {s : State} {flow : FlowTree Node} {out : Node} {ns : List Node}
    (h : Finished master s flow out ns) :
    s.graph.nodes.filter (fun n => n.hasType "in") = ns.filter fun n => n.hasType "in" := by
  rw [h.nodes, List.filter_cons_of_neg]
  rw [Node.hasType_eq h.type]
  decide

/-- A graph of one source reads no table. -/
theorem Finished.analysed_of_source {master : Str} {s : State} {n out : Node} {type : String}
    (h : Finished master s (.source n) out [n]) (hn : n.type = type.toList) (htype : type ≠ "in") :
    Analysed master s [] (.source n) out [n] where
  toFinished := h
  paths := by
    refine ⟨[], .nil, by simp, ?_⟩
    have hnone : ¬ n.hasType "in" = true := by
      rw [Node.hasType_eq hn, decide_eq_true_iff]
      exact fun heq => htype (String.toList_injective heq)
    rw [h.inputs_out, List.filter_cons, if_neg hnone]
    rfl

/-- Paths that are laid for each table make a finished graph an analysed one. -/
theorem Finished.analysed_of_laid {master : Str} {s : State} {rs : List Route} {flow : FlowTree Node} {out : Node}
    {ns : List Node} (h : Finished master s flow out ns) (hlaid : Laid s rs flow ns) : Analysed master s rs flow out ns where
  toFinished := h
  paths := by
    refine ⟨(FlowTree.step out flow).paths, ?_, fun _ hpath => hpath, ?_⟩
    · rw [FlowTree.paths, List.forall₂_map_right_iff]
      refine hlaid.paths.imp fun route path hpath => ?_
      obtain ⟨n, rest, rfl, hinput, hclauses⟩ := hpath
      refine ⟨n, rest ++ [out], rfl, hinput, fun c hc => ?_⟩
      obtain ⟨m, hm, hoperator⟩ := hclauses c hc
      exact ⟨m, List.mem_append_left _ hm, hoperator⟩
    · rw [FlowTree.paths_head, h.inputs_out, hlaid.inputs]
      rfl


private theorem createEdge_eq_ok {source : NodePtr} {target : Nat} {s s' : State}
    (h : createEdge source target s = .ok ((), s')) :
    ∃ i, source = some i ∧ Grows s s' [] [(i, target)] := by
  have hbind : (createEdge source target >>= fun _ => pure ()) s = .ok ((), s') := bind_of_ok h
  obtain ⟨i, mid, hi, hgrows, hpure⟩ := createEdge_bind hbind
  obtain ⟨-, rfl⟩ := pure_eq_ok hpure
  exact ⟨i, hi, hgrows⟩

theorem analyzeClauses_single {out : Nat} {child : ParseTreeNode} {s s' : State}
    (h : analyzeClauses out [child] s = .ok ((), s')) : analyzeClause out child s = .ok ((), s') := by
  obtain ⟨_, mid, hclause, hpure⟩ := bind_eq_ok h
  obtain ⟨-, rfl⟩ := pure_eq_ok hpure
  exact hclause

/-- A clause of a stream is its operator with the edge to the output. -/
theorem analyzeClause_stream {child : ParseTreeNode} {type : String} {analyze : Gen Nat} {out : Nat} {s s' : State}
    (hclause : analyzeClause out child = (do
      modify fun s => { s with secondNodeSymbol := some child.getSymbol }
      let n ← analyze
      createEdge (some n) out))
    (hanalyze : ∀ {s s' i}, analyze s = .ok (i, s') → ∃ n, i = n.id ∧ n.type = type.toList ∧ Grows s s' [n] [])
    (hrun : analyzeClause out child s = .ok ((), s')) :
    ∃ n, n.type = type.toList ∧ Grows { s with secondNodeSymbol := some child.getSymbol } s' [n] [(n.id, out)] := by
  rw [hclause] at hrun
  obtain ⟨_, mid, hset, hrun⟩ := bind_eq_ok hrun
  cases hset
  obtain ⟨i, mid', hrun, hedge⟩ := bind_eq_ok hrun
  obtain ⟨n, rfl, htype, hgrows⟩ := hanalyze hrun
  obtain ⟨j, hj, hedge⟩ := createEdge_eq_ok hedge
  obtain rfl := Option.some.inj hj
  exact ⟨n, htype, hgrows.trans hedge⟩

/-- The analysis of a query on streams without a recursive clause. -/
theorem analyzeQuery_analysed {values : List ParseTreeNode} (hquery : IsQuery (.node .QUERY values))
    (hrdb : isRDB (.node .QUERY values) = .ok false) (hrecursive : isRecursive (.node .QUERY values) = false)
    (hinsert : isInsert (.node .QUERY values) = false) {master : Str} {s' : State} {i : Nat}
    (hrun : analyzeQuery (.node .QUERY values) { master } = .ok (i, s')) :
    ∃ flow out ns, Analysed master s' (routesOf values) flow out ns := by
  rw [analyzeQuery_stream hrdb] at hrun
  obtain ⟨out, mid, hout, htype, -, hrun⟩ := operator_bind (by decide) hrun
  obtain ⟨_, mid', hclauses, hpure⟩ := bind_eq_ok hrun
  obtain ⟨-, rfl⟩ := pure_eq_ok hpure
  have hset : ∀ symbol, Adds mid { mid with secondNodeSymbol := some symbol } [] := fun symbol =>
    Adds.none rfl rfl (Nat.le_refl _) rfl
  cases hquery with
  | plain hvalues =>
    have hplain : isRDB (.node .QUERY values) = .ok true := areRDB_plain hvalues
    cases hrdb.symm.trans hplain
  | insert _ _ => cases hinsert
  | @createStream values hlength hvalues =>
    obtain ⟨stream, attrsNode, rest, rfl⟩ : ∃ stream attrsNode rest, values = stream :: attrsNode :: rest := by
      match values, hlength with
      | stream :: attrsNode :: rest, _ => exact ⟨stream, attrsNode, rest, rfl⟩
    obtain ⟨n, hn, hgrows⟩ := analyzeClause_stream rfl analyzeCreateStream_eq_ok (analyzeClauses_single hclauses)
    have hfinished := Finished.of_source hout htype (hset .CREATE_STREAM) rfl (by simp) hn (.inr (.inl rfl)) hgrows
    have hroutes : routesOf [.node .CREATE_STREAM (stream :: attrsNode :: rest)] = [] := by
      rw [routesOf_cons, routes_node (by simp) (by simp), routesOf_of_isPlain hvalues]
      rfl
    rw [hroutes]
    exact ⟨_, _, _, hfinished.analysed_of_source hn (by decide)⟩
  | @dropStream symbol name =>
    obtain ⟨n, hn, hgrows⟩ := analyzeClause_stream rfl analyzeDropStream_eq_ok (analyzeClauses_single hclauses)
    have hfinished := Finished.of_source hout htype (hset .DROP_STREAM) rfl (by simp) hn (.inr (.inr rfl)) hgrows
    exact ⟨_, _, _, hfinished.analysed_of_source hn (by decide)⟩
  | @selection masterList wth selection hmaster hwith hselection =>
    cases hwith with
    | union _ _ => simp [isRecursive, children, getSymbol] at hrecursive
    | none =>
      have hroutes : routesOf (masterList ++ [] ++ [selection]) = routes selection := by
        rw [routesOf_append, List.append_nil, routesOf_of_isPlain (IsMaster.plain hmaster), routesOf_cons, routesOf_nil,
          List.append_nil, List.nil_append]
      -- the clause of the masters only notes that it was the last one seen
      have hselect : ∃ symbol, analyzeClause out.id selection { mid with secondNodeSymbol := symbol } = .ok ((), s') := by
        cases hmaster with
        | none => exact ⟨mid.secondNodeSymbol, analyzeClauses_single hclauses⟩
        | names _ _ =>
          obtain ⟨_, mid'', hfirst, hrest⟩ := bind_eq_ok hclauses
          cases hfirst
          exact ⟨some .MASTER, analyzeClauses_single hrest⟩
      obtain ⟨symbol, hselect⟩ := hselect
      obtain ⟨flow, ns, hgrows, hlaid⟩ := analyzeClause_selection hselection hselect
      have hsymbol : some selection.getSymbol ≠ some Symbol.WITH_RECURSIVE := by
        obtain ⟨symbol, values, rfl, rfl | rfl⟩ := IsSelection.symbol hselection <;> simp [getSymbol]
      have hfinished := Finished.of_grows hout htype (hset selection.getSymbol) rfl hsymbol hgrows hlaid.toShaped
      rw [hroutes]
      exact ⟨_, _, _, hfinished.analysed_of_laid hlaid⟩

/-- A query on the database alone is its text in one operator. -/
theorem analyzeQuery_database {values : List ParseTreeNode} (hrdb : isRDB (.node .QUERY values) = .ok true)
    {master : Str} {s' : State} {i : Nat} (hrun : analyzeQuery (.node .QUERY values) { master } = .ok (i, s')) :
    ∃ out rdb, Finished master s' (.source rdb) out [rdb] ∧ rdb.type = "RDB".toList ∧
      (ParseTreeNode.node .QUERY values).toSQLString = .ok (rdb.data "parameter") := by
  rw [analyzeQuery_database_eq hrdb] at hrun
  obtain ⟨out, mid, hout, htype, -, hrun⟩ := operator_bind (by decide) hrun
  obtain ⟨sql, hsql, hrun⟩ := lift_bind_eq_ok hrun
  obtain ⟨rdb, mid', hgrows, hn, hparameter, hrun⟩ := operator_bind (by decide) hrun
  obtain ⟨j, mid'', hj, hedge, hpure⟩ := createEdge_bind hrun
  obtain rfl := Option.some.inj hj
  obtain ⟨-, rfl⟩ := pure_eq_ok hpure
  have hsymbol : mid.secondNodeSymbol ≠ some .WITH_RECURSIVE := by
    rw [hout.symbol]
    simp
  exact ⟨out, rdb, Finished.of_source hout htype (Adds.none rfl rfl (Nat.le_refl _) rfl) rfl hsymbol hn (.inl rfl)
    (hgrows.trans hedge), hn, hparameter ▸ hsql⟩

/-- A window has both parameters of a sort clause or neither. -/
theorem sortParameters_cases (t : Table) :
    t.sortParameters = [] ∨ ∃ limit seed, t.sortParameters = [("limit".toList, limit), ("seed".toList, seed)] := by
  rw [Table.sortParameters]
  split
  · exact .inl rfl
  · cases t.window with
    | none => exact .inl rfl
    | some window => exact sorting_cases window

private theorem lookup_partition (type master name nid columns : Str) (size : WindowSize) (t : Table) :
    ([("operator_type".toList, type), ("master".toList, master), ("parameter".toList, name)] ++
      (size.parameters ++ t.sortParameters ++ [("partition".toList, columns)]) ++ [("nid".toList, nid)]).lookup
        "partition".toList = some columns := by
  obtain hsort | ⟨limit, seed, hsort⟩ := sortParameters_cases t
  · rw [hsort]
    cases size <;> rfl
  · rw [hsort]
    cases size <;> rfl

/-- The operator of a table: it has the size of the window of the table with its
order, and the columns of its partition. A table with a hierarchy and no partition
has no order, and its level is requested from another graph. -/
structure OperatorOf (s : State) (table : Table) (n : Node) : Prop where
  type : n.hasType "in" = true
  window : ∃ size, table.size = some size ∧ ∀ p ∈ size.parameters, p ∈ n.store
  order : table.hierarchy = none ∨ table.partition ≠ none → ∀ window, table.window = some window →
    ∀ p ∈ sorting window, p ∈ n.store
  partition : ∀ list, table.partition = some list → findColumns list = .ok (n.data "partition")
  reads : table.level = none → n.data "parameter" = table.name
  requests : ∀ level, table.level = some level → table.partition = none → Requests s table level n

/-- A path of a graph from the operator of a table to the output, with an operator
for each clause around the table and the masters of the query at each operator. -/
structure IsPath (s : State) (masters : List Str) (route : Route) (path : List Node) : Prop where
  nodes : ∀ n ∈ path, n ∈ s.graph.nodes
  edges : path.IsChain fun n m => s.graph.Feeds n.id m.id
  input : ∃ n, path.head? = some n ∧ OperatorOf s route.table n
  output : ∃ n, path.getLast? = some n ∧ n.hasType "out" = true
  clauses : ∀ c ∈ route.clauses, ∃ n ∈ path, c.HasOperator n
  masters : masters ≠ [] → ∀ n ∈ path, n.data "master" = ",".toList.intercalate masters

/-- The input node of a table has what the window of the table says. -/
theorem InputOf.operatorOf {s : State} {table : Table} {n : Node} (h : InputOf s table n) :
    OperatorOf s table n where
  type := by
    rw [Node.hasType_eq h.type]
    rfl
  window := by
    obtain ⟨size, columns, hsize, -, hstore⟩ := h.store
    refine ⟨size, hsize, fun p hp => ?_⟩
    rw [hstore]
    simp [hp]
  order := fun horder window hwindow p hp => by
    obtain ⟨size, columns, -, -, hstore⟩ := h.store
    have hsort : table.sortParameters = sorting window := by
      rw [Table.sortParameters, if_neg, hwindow]
      · rfl
      · obtain hnone | hsome := horder
        · simp [hnone]
        · simp [hsome]
    rw [hstore, hsort]
    simp [hp]
  partition := fun list hlist => by
    obtain ⟨size, columns, -, hcolumns, hstore⟩ := h.store
    rw [Table.partitionParameters, hlist] at hcolumns
    obtain ⟨text, htext, rfl⟩ := Except.map_eq_ok_iff.mp hcolumns
    rw [htext, Node.data, hstore, lookup_partition]
    rfl
  reads := fun hlevel => h.reads (.inl hlevel)
  requests := h.requests

/-- For each table of the query there is a path of the graph, through the operators of its
clauses. -/
theorem Analysed.isPath {master : Str} {s : State} {rs : List Route} {flow : FlowTree Node} {out : Node} {ns : List Node}
    (h : Analysed master s rs flow out ns) {masters : List Str}
    (hmasters : masters ≠ [] → master ≠ [] ∧ master = ",".toList.intercalate masters) :
    ∃ paths, List.Forall₂ (IsPath s masters) rs paths ∧
      paths.map List.head? = (s.graph.nodes.filter fun n => n.hasType "in").map some := by
  obtain ⟨paths, hpaths, hflow, hheads⟩ := h.paths
  refine ⟨paths, ?_, hheads⟩
  obtain ⟨requests, hperm, -⟩ := h.toFinished.perm
  have hnodes : ∀ n ∈ (FlowTree.step out flow).nodes, n ∈ s.graph.nodes := fun n hn =>
    hperm.mem_iff.mpr (List.mem_append_left _ hn)
  have hworking : ∀ n ∈ (FlowTree.step out flow).nodes, n.hasType "request" = false := fun n hn => by
    rw [FlowTree.nodes, List.mem_append, List.mem_singleton] at hn
    obtain hn | rfl := hn
    · exact (h.shaped.working n hn).1
    · rw [Node.hasType_eq h.type]
      decide
  have hboth := ((List.forall₂_and_left _ _).mpr ⟨hflow, hpaths.flip⟩).flip
  refine hboth.imp fun route path hpath => ?_
  obtain ⟨hin, n, rest, rfl, hinput, hclauses⟩ := hpath
  obtain ⟨hchain, hlast⟩ := FlowTree.path_isChain hin
  have hmem := FlowTree.mem_nodes_of_mem_path hin
  exact
    { nodes := fun m hm => hnodes m (hmem m hm)
      edges := hchain.imp fun m m' hedge => (feeds_iff h.edges m.id m'.id).mpr ⟨(m, m'), hedge, rfl, rfl⟩
      input := ⟨n, rfl, hinput.operatorOf⟩
      output := ⟨out, hlast, by rw [Node.hasType_eq h.type]; rfl⟩
      clauses := hclauses
      masters := fun hne m hm => by
        obtain ⟨hmaster, heq⟩ := hmasters hne
        rw [← heq]
        exact h.masters hmaster m (h.nodes ▸ hnodes m (hmem m hm)) (hworking m (hmem m hm)) }

private theorem analyzeMasters_eq_nil {values : List ParseTreeNode} (h : ∀ t ∈ values, analyzeMaster t = []) :
    analyzeMasters values = [] := by
  induction values with
  | nil => rfl
  | cons value values ih =>
    rw [analyzeMasters, h value (by simp), ih fun t ht => h t (by simp [ht])]
    rfl

private theorem analyzeMaster_eq_nil {symbol : Symbol} (hsymbol : symbol ≠ .MASTER_LIST) {values : List ParseTreeNode}
    (h : ∀ t ∈ values, analyzeMaster t = []) : analyzeMaster (.node symbol values) = [] := by
  rw [analyzeMaster, if_neg hsymbol]
  exact analyzeMasters_eq_nil h

/-- An expression names no master. -/
private theorem analyzeMaster_expression {t : ParseTreeNode} (h : IsExpression t) : analyzeMaster t = [] := by
  induction h with
  | operand _ => rfl
  | parenthesised _ ih => exact analyzeMaster_eq_nil (by decide) (by simpa using ih)
  | function _ ih =>
    refine analyzeMaster_eq_nil (by decide) (List.forall_mem_singleton.mpr (analyzeMaster_eq_nil (by decide) ?_))
    intro t ht
    obtain rfl | ht := List.mem_cons.mp ht
    · rfl
    · rw [List.mem_singleton.mp ht]
      exact analyzeMaster_eq_nil (by decide) ih

/-- A select list names no master. -/
private theorem analyzeMaster_selectList {t : ParseTreeNode} (h : IsSelectList t) : analyzeMaster t = [] := by
  obtain ⟨-, hitems⟩ := h
  refine analyzeMaster_eq_nil (by decide) fun item hitem => ?_
  cases hitems item hitem with
  | expression he => exact analyzeMaster_expression he
  | renamed he =>
    refine analyzeMaster_eq_nil (by decide) fun t ht => ?_
    obtain rfl | ht := List.mem_cons.mp ht
    · rfl
    · rw [List.mem_singleton.mp ht]
      exact analyzeMaster_expression he

/-- A condition names no master. -/
private theorem analyzeMaster_where {wh : List ParseTreeNode} (h : IsWhere wh) : ∀ t ∈ wh, analyzeMaster t = [] := by
  cases h with
  | none => simp
  | predicates hpredicates =>
    refine List.forall_mem_singleton.mpr (analyzeMaster_eq_nil (by decide) (List.forall_mem_singleton.mpr ?_))
    refine analyzeMaster_eq_nil (by decide) fun predicate hpredicate => ?_
    cases hpredicates predicate hpredicate with
    | compare hleft hright =>
      refine analyzeMaster_eq_nil (by decide) fun t ht => ?_
      simp only [List.mem_cons, List.not_mem_nil, or_false] at ht
      obtain rfl | rfl | rfl := ht
      · exact analyzeMaster_expression hleft
      · rfl
      · exact analyzeMaster_expression hright

/-- No part of a selection names a master. -/
theorem analyzeMaster_relation {t : ParseTreeNode} (h : IsRelation t) : analyzeMaster t = [] := by
  induction h with
  | name _ => rfl
  | window _ hpartition hwindow hlevel =>
    refine analyzeMaster_eq_nil (by decide) fun t ht => ?_
    simp only [List.mem_append, List.mem_singleton] at ht
    obtain ((rfl | ht) | rfl) | ht := ht
    · rfl
    · cases hpartition with
      | none => cases ht
      | columns hlist =>
        rw [List.mem_singleton.mp ht]
        refine analyzeMaster_eq_nil (by decide) fun t ht => ?_
        obtain rfl | ht := List.mem_cons.mp ht
        · rfl
        · rw [List.mem_singleton.mp ht]
          exact analyzeMaster_selectList hlist
    · cases hwindow <;> rfl
    · cases hlevel with
      | none => cases ht
      | level _ => rw [List.mem_singleton.mp ht]; rfl
      | nearby _ => rw [List.mem_singleton.mp ht]; rfl
  | nested _ _ ih => exact analyzeMaster_eq_nil (by decide) (List.forall_mem_singleton.mpr ih)
  | renamed _ _ ih =>
    refine analyzeMaster_eq_nil (by decide) fun t ht => ?_
    obtain rfl | ht := List.mem_cons.mp ht
    · rfl
    · rw [List.mem_singleton.mp ht]
      exact ih
  | subquery hselect _ _ _ hwh ih =>
    refine analyzeMaster_eq_nil (by decide) fun t ht => ?_
    simp only [List.mem_append, List.mem_cons, List.not_mem_nil, or_false] at ht
    obtain (rfl | rfl) | ht := ht
    · cases hselect with
      | asterisk => rfl
      | list hlist => exact analyzeMaster_eq_nil (by decide) (List.forall_mem_singleton.mpr (analyzeMaster_selectList hlist))
    · exact analyzeMaster_eq_nil (by decide) (List.forall_mem_singleton.mpr (analyzeMaster_eq_nil (by decide) ih))
    · exact analyzeMaster_where hwh t ht

private theorem analyzeMaster_selection {t : ParseTreeNode} (h : IsSelection t) : analyzeMaster t = [] := by
  cases h with
  | subquery ht => exact analyzeMaster_relation ht.1
  | union hsubqueries => exact analyzeMaster_eq_nil (by decide) fun t ht => analyzeMaster_relation (hsubqueries t ht).1

def masterList : ParseTreeNode → List ParseTreeNode
  | .node .MASTER [.node .MASTER_LIST names] => names
  | _ => []

/-- The names of the MASTER clause of a query, where they are identifiers. -/
def masters (tree : ParseTreeNode) : List Str :=
  let names := tree.children.flatMap masterList
  if names.all fun name => name.getSymbol = .IDENTIFIER then names.map getValue else []

/-- The names of the masters are joined by commas. -/
private theorem masterNames_eq_intercalate {names : List ParseTreeNode}
    (h : ∀ name ∈ names, name.getSymbol = .IDENTIFIER) :
    masterNames names = ",".toList.intercalate (names.map getValue) := by
  induction names with
  | nil => rfl
  | cons name names ih =>
    have hrest := ih fun name hname => h name (by simp [hname])
    rw [masterNames, if_pos (h name (by simp)), hrest]
    cases names with
    | nil => simp [List.intercalate]
    | cons name' names => simp [List.intercalate]

/-- The masters that the generator notes are the names of the clause. -/
theorem analyzeMaster_query {master : List ParseTreeNode} {selection : ParseTreeNode} (hmaster : IsMaster master)
    (hselection : IsSelection selection) (hne : masters (.node .QUERY (master ++ [] ++ [selection])) ≠ []) :
    analyzeMaster (.node .QUERY (master ++ [] ++ [selection])) ≠ [] ∧
      analyzeMaster (.node .QUERY (master ++ [] ++ [selection])) =
        ",".toList.intercalate (masters (.node .QUERY (master ++ [] ++ [selection]))) := by
  have hnone : masterList selection = [] := by
    obtain ⟨symbol, values, rfl, rfl | rfl⟩ := IsSelection.symbol hselection <;> rfl
  cases hmaster with
  | none => simp [masters, children, hnone] at hne
  | @names names hnames hall =>
    have hlist : (ParseTreeNode.node .QUERY ([.node .MASTER [.node .MASTER_LIST names]] ++ [] ++ [selection])).children.flatMap
        masterList = names := by
      rw [children, List.flatMap_append, List.flatMap_singleton, hnone, List.append_nil]
      exact List.append_nil names
    have hmasters : masters (.node .QUERY ([.node .MASTER [.node .MASTER_LIST names]] ++ [] ++ [selection])) =
        if names.all fun name => name.getSymbol = .IDENTIFIER then names.map getValue else [] := by
      rw [masters, hlist]
    have hanalyze : analyzeMaster (.node .QUERY ([.node .MASTER [.node .MASTER_LIST names]] ++ [] ++ [selection])) =
        masterNames names := by
      simp [analyzeMaster, analyzeMasters, analyzeMaster_selection hselection]
    by_cases hidentifiers : (names.all fun name => name.getSymbol = .IDENTIFIER) = true
    · have heq := masterNames_eq_intercalate fun name hname => of_decide_eq_true (List.all_eq_true.mp hidentifiers name hname)
      rw [hmasters, if_pos hidentifiers, hanalyze]
      refine ⟨?_, heq⟩
      obtain ⟨first, rest, rfl⟩ := List.exists_cons_of_ne_nil hnames
      obtain ⟨symbol, name, rfl, -, hname⟩ := hall first (by simp)
      have hsymbol := of_decide_eq_true (List.all_eq_true.mp hidentifiers _ (List.mem_cons_self ..))
      rw [masterNames, if_pos hsymbol]
      simp [getValue, hname]
    · rw [hmasters, if_neg hidentifiers] at hne
      exact absurd rfl hne

/-- The graph of a query without a recursive clause is a dataflow, with a path for
each table with a window. -/
theorem generate_isDataflow {str : Str} {tree : ParseTreeNode} (h : QueryParser.parseQuery str = .ok tree)
    (hrecursive : isRecursive tree = false) (hinsert : isInsert tree = true → isRDB tree = .ok true)
    (hanalysable : Analysable tree) : ∃ s, generate tree = .ok s ∧ s.graph.IsDataflow ∧
      (isRDB tree = .ok true → ∃ out rdb, s.graph.nodes = [out, rdb] ∧ out.hasType "out" = true ∧
        rdb.hasType "RDB" = true ∧ tree.toSQLString = .ok (rdb.data "parameter")) ∧
      (isRDB tree = .ok false → ∃ paths, List.Forall₂ (IsPath s (masters tree)) (routes tree) paths ∧
        paths.map List.head? = (s.graph.nodes.filter fun n => n.hasType "in").map some) := by
  have hquery := QueryParser.parseQuery_isQuery h
  obtain ⟨values, rfl⟩ : ∃ values, tree = .node .QUERY values := by
    cases hquery <;> exact ⟨_, rfl⟩
  have hsettles := analyzeQuery_settles hquery hrecursive
  rw [decide_eq_true hanalysable] at hsettles
  obtain ⟨i, s, hrun, -⟩ := hsettles { master := analyzeMaster (.node .QUERY values) }
  have hgenerate : generate (.node .QUERY values) = .ok s := by
    rw [generate, StateT.run, hrun]
    rfl
  refine ⟨s, hgenerate, ?_⟩
  obtain ⟨flag, hflag⟩ := IsQuery.isRDB_ok hquery
  cases flag with
  | true =>
    obtain ⟨out, rdb, hfinished, htype, hsql⟩ := analyzeQuery_database hflag hrun
    refine ⟨hfinished.isDataflow, fun _ => ⟨out, rdb, hfinished.nodes, ?_, ?_, hsql⟩, fun hfalse => ?_⟩
    · rw [Node.hasType_eq hfinished.type]
      rfl
    · rw [Node.hasType_eq htype]
      rfl
    · cases hflag.symm.trans hfalse
  | false =>
    have hplain : isInsert (.node .QUERY values) = false := by
      by_contra htrue
      cases hflag.symm.trans (hinsert (by simpa using htrue))
    obtain ⟨flow, out, ns, hanalysed⟩ := analyzeQuery_analysed hquery hflag hrecursive hplain hrun
    refine ⟨hanalysed.toFinished.isDataflow, fun htrue => ?_, fun _ => ?_⟩
    · cases hflag.symm.trans htrue
    · rw [routes_node (by simp) (by simp)]
      refine hanalysed.isPath fun hne => ?_
      cases hquery with
      | plain hvalues =>
        have hrdb : isRDB (.node .QUERY values) = .ok true := areRDB_plain hvalues
        cases hflag.symm.trans hrdb
      | createStream _ _ => exact absurd rfl hne
      | dropStream => exact absurd rfl hne
      | insert _ _ => exact absurd rfl hne
      | @selection master wth selection hmaster hwith hselection =>
        cases hwith with
        | union _ _ => simp [isRecursive, children, getSymbol] at hrecursive
        | none => exact analyzeMaster_query hmaster hselection hne

/-- A request for a level of the hierarchy stands beside the graph: no edge leads
from it to the output. -/
theorem generate_leaves_request :
    ¬ ∀ str tree s, QueryParser.parseQuery str = .ok tree → isRecursive tree = false → generate tree = .ok s →
      ∀ n ∈ s.graph.nodes, n.hasType "out" = false → s.graph.outgoing n = 1 := by
  intro h
  have hparsed : (QueryParser.parseQuery "MASTER s SELECT * FROM s[ROWS 1, ALL]".toList).toOption.map
      (fun tree => !isRecursive tree && match generate tree with
        | .ok s => s.graph.nodes.any fun n => !n.hasType "out" && s.graph.outgoing n == 0
        | .error _ => false) = some true := by decide +kernel
  obtain ⟨tree, htree, hcheck⟩ := exists_parsed hparsed
  rw [Bool.and_eq_true, Bool.not_eq_true'] at hcheck
  obtain ⟨hrecursive, hcheck⟩ := hcheck
  cases hrun : generate tree with
  | error e => simp [hrun] at hcheck
  | ok s =>
    rw [hrun, List.any_eq_true] at hcheck
    obtain ⟨n, hn, hcheck⟩ := hcheck
    rw [Bool.and_eq_true, Bool.not_eq_true', beq_iff_eq] at hcheck
    have hone := h _ tree s htree hrecursive hrun n hn hcheck.1
    rw [hcheck.2] at hone
    cases hone

/-- A query with a master, two windows of different kinds, a function and a new name in its
columns, and a condition. -/
theorem generate_isDataflow_join :
    ∃ tree, QueryParser.parseQuery "MASTER m SELECT max(x), y AS z FROM s[ROWS 10], t[RANGE 5 sec] WHERE x = 1".toList =
        .ok tree ∧ ∃ s, generate tree = .ok s ∧ s.graph.IsDataflow := by
  have hparsed : (QueryParser.parseQuery
      "MASTER m SELECT max(x), y AS z FROM s[ROWS 10], t[RANGE 5 sec] WHERE x = 1".toList).toOption.map
        (fun tree => !isRecursive tree && !isInsert tree && decide (Analysable tree)) = some true := by decide +kernel
  obtain ⟨tree, htree, hcheck⟩ := exists_parsed hparsed
  simp only [Bool.and_eq_true, Bool.not_eq_true', decide_eq_true_eq] at hcheck
  obtain ⟨⟨hrecursive, hinsert⟩, hanalysable⟩ := hcheck
  obtain ⟨s, hs, hdataflow, -⟩ := generate_isDataflow htree hrecursive
    (fun htrue => absurd htrue (by rw [hinsert]; exact Bool.false_ne_true)) hanalysable
  exact ⟨tree, htree, s, hs, hdataflow⟩

end OperatorTreeGenerator

end IS
